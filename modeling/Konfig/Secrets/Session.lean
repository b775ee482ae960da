import Konfig.Secrets.Watch
import Konfig.Lib.Emitter

/-!
# One secret watcher and one subscriber

A `SubscribeSecrets` call (`grpc/subscribe_secrets.rs`) beside the watcher of its
namespace, as a machine whose labels are the steps that can interleave.  The handler
reads the cache, puts the snapshot into the channel and only then hands out the
response and subscribes to the broadcast; with a resume version it starts a raw
watch instead.  The channel and the disconnection of a slow reader are an `Emitter`.

* `SecretSubscriber.Move`: what a step of the subscriber can do.
* `SecretSubscriber.Carries.step`: what the stream carries comes from its sources.
-/

namespace Konfig

open Lib

/-- `subscribe_secrets::CHANNEL_CAPACITY`. -/
def SECRET_CHANNEL_CAPACITY : Nat := 256

/-- `secret_watcher::BROADCAST_CAPACITY`. -/
def SECRET_BROADCAST_CAPACITY : Nat := 1024

structure SubscribeSecretsRequest where
  ns : String
  names : List String
  resumeResourceVersion : String

/-- `secret_subscribe_request` of the HTTP gateway, with the `Last-Event-ID`. -/
def secretSubscribeRequest (ns name lastEventId : String) : SubscribeSecretsRequest :=
  { ns, names := [name], resumeResourceVersion := lastEventId }

/-! ### The subscriber -/

/-- How far a `SubscribeSecrets` call has come. -/
inductive SecretPhase
  | reading
  /-- `emit_snapshot_events`, with the events still to send. -/
  | snapshotting (todo : List SecretEvent)
  /-- `bridge_broadcast`. -/
  | bridging
  /-- `run_raw_watch`, before the watch has started. -/
  | starting
  /-- `run_raw_watch`, in its loop. -/
  | watching
  /-- The handler returned an error. -/
  | rejected

/-- One call: its receiver's position in the broadcast, and its channel.  `content` is
a history variable: what was read from the cache. -/
structure SecretSubscriber where
  phase : SecretPhase
  next : Nat
  content : List SecretSnapshot
  out : Emitter Status SecretEvent

def SecretSubscriber.new : SecretSubscriber :=
  { phase := .reading, next := 0, content := [], out := .new }

/-- The response stream has been handed out. -/
def SecretSubscriber.returned (sub : SecretSubscriber) : Bool :=
  match sub.phase with
  | .reading | .snapshotting _ => sub.out.stage = .ended
  | .bridging | .starting | .watching => true
  | .rejected => false

/-- An event of a raw watch. -/
inductive RawWatchEvent
  | added (secret : Secret)
  | modified (secret : Secret)
  | deleted (secret : Secret)
  | bookmark
  | error (display : String)

inductive SecretSubscriberLabel
  | read (order : List Key) (now : Instant)
  | emit
  /-- The snapshot is sent: subscribe or start the raw watch. -/
  | join
  | recv
  /-- The broadcast has no sender left. -/
  | senderGone
  | started
  | startFailed (display : String)
  | raw (event : RawWatchEvent) (now : Instant)
  /-- The stream of the raw watch fails. -/
  | rawFailed
  | rawEnded
  | report
  | drain
  | take
  | hangUp

/-- The event that `emit_to_mpsc` makes of a watched secret. -/
def rawSecretEvent (ns : String) (now : Instant) (type : EventType) (secret : Secret) :
    Option SecretEvent :=
  (parseSecretObject now secret (secret.metadata.ns.getD ns)).map (secretEvent type now)

/-- One step on the channel. -/
def SecretSubscriber.outStep (sub : SecretSubscriber) (phase : SecretPhase) (next : Nat)
    (l : EmitterLabel Status SecretEvent) : Option SecretSubscriber :=
  (sub.out.step SECRET_CHANNEL_CAPACITY subscriberTooSlow l).map fun out =>
    { sub with phase, next, out }

/-- `emit_to_mpsc`: a secret that does not parse is skipped. -/
def SecretSubscriber.emitToMpsc (sub : SecretSubscriber) (event : Option SecretEvent) :
    Option SecretSubscriber :=
  match event with
  | some event => sub.outStep .watching sub.next (.offer event)
  | none => some sub

/-- A step of the task while it runs. -/
def SecretSubscriber.taskStep (req : SubscribeSecretsRequest) (served : Bool) (w : SecretWatcher)
    (sub : SecretSubscriber) : SecretSubscriberLabel → Option SecretSubscriber
  | .read order now =>
    match sub.phase with
    | .reading =>
      if order.Perm w.cache.keys then
        let content := w.cache.allInNamespace order req.ns
        some { sub with phase := .snapshotting (content.map (secretEvent .snapshot now)), content }
      else none
    | _ => none
  | .emit =>
    match sub.phase with
    | .snapshotting (event :: todo) => sub.outStep (.snapshotting todo) sub.next (.offer event)
    | _ => none
  | .join =>
    match sub.phase with
    | .snapshotting [] =>
      if req.resumeResourceVersion ≠ "" then some { sub with phase := .starting }
      else if served then some { sub with phase := .bridging, next := w.sent.length }
      else some { sub with phase := .rejected }
    | _ => none
  | .recv =>
    match sub.phase with
    | .bridging =>
      match w.sent[sub.next]? with
      | none => none
      | some event =>
        if SECRET_BROADCAST_CAPACITY < w.sent.length - sub.next then
          sub.outStep .bridging sub.next (.abort subscriberLagged)
        else sub.outStep .bridging (sub.next + 1) (.offer event)
    | _ => none
  | .senderGone =>
    match sub.phase with
    -- `Closed` comes after the last broadcast
    | .bridging => if sub.next = w.sent.length then sub.outStep .bridging sub.next .finish else none
    | _ => none
  | .started =>
    match sub.phase with
    | .starting => some { sub with phase := .watching }
    | _ => none
  | .startFailed display =>
    match sub.phase with
    | .starting => sub.outStep .starting sub.next (.abort ⟨.unavailable, "watch error: " ++ display⟩)
    | _ => none
  | .raw event now =>
    match sub.phase with
    | .watching =>
      match event with
      | .added secret | .modified secret => sub.emitToMpsc (rawSecretEvent req.ns now .modified secret)
      | .deleted secret => sub.emitToMpsc (rawSecretEvent req.ns now .deleted secret)
      | .bookmark => some sub
      | .error display => sub.outStep .watching sub.next (.abort ⟨.internal, "watch error: " ++ display⟩)
    | _ => none
  | .rawFailed =>
    match sub.phase with
    | .watching => sub.outStep .watching sub.next .abandon
    | _ => none
  | .rawEnded =>
    match sub.phase with
    | .watching => sub.outStep .watching sub.next .finish
    | _ => none
  | .drain =>
    match sub.phase with
    | .bridging =>
      -- a lag that was not noticed yet stays unnoticed
      if SECRET_BROADCAST_CAPACITY < w.sent.length - sub.next then sub.outStep .bridging sub.next .abandon
      else sub.outStep .bridging sub.next .finish
    | .watching => sub.outStep .watching sub.next .finish
    | _ => none
  | .report | .take | .hangUp => none

/-- The task steps while its end of the channel is open; the reader steps once the
response is out. -/
def SecretSubscriber.step (req : SubscribeSecretsRequest) (served : Bool) (w : SecretWatcher)
    (sub : SecretSubscriber) : SecretSubscriberLabel → Option SecretSubscriber
  | .report => sub.outStep sub.phase sub.next .report
  | .take => if sub.returned then sub.outStep sub.phase sub.next .take else none
  | .hangUp => if sub.returned then sub.outStep sub.phase sub.next .hangUp else none
  | l =>
    match sub.out.stage with
    | .running => sub.taskStep req served w l
    | _ => none

/-! ### What a subscriber's step can do -/

/-- The step of the channel. -/
abbrev SecretOut (out : Emitter Status SecretEvent) (l : EmitterLabel Status SecretEvent)
    (out' : Emitter Status SecretEvent) : Prop :=
  out.step SECRET_CHANNEL_CAPACITY subscriberTooSlow l = some out'

/-- The transitions of `SecretSubscriber.step`. -/
inductive SecretSubscriber.Move (req : SubscribeSecretsRequest) (w : SecretWatcher)
    (sub : SecretSubscriber) : SecretSubscriberLabel → SecretSubscriber → Prop
  | read {order : List Key} {now : Instant} (hphase : sub.phase = .reading)
      (hrun : sub.out.stage = .running) (horder : order.Perm w.cache.keys) :
      Move req w sub (.read order now)
        { sub with
          phase := .snapshotting ((w.cache.allInNamespace order req.ns).map (secretEvent .snapshot now))
          content := w.cache.allInNamespace order req.ns }
  | emit {event : SecretEvent} {todo : List SecretEvent} {out : Emitter Status SecretEvent}
      (hphase : sub.phase = .snapshotting (event :: todo)) (hout : SecretOut sub.out (.offer event) out) :
      Move req w sub .emit { sub with phase := .snapshotting todo, out }
  | resume (hphase : sub.phase = .snapshotting []) (hrun : sub.out.stage = .running)
      (hreq : req.resumeResourceVersion ≠ "") : Move req w sub .join { sub with phase := .starting }
  | subscribe (hphase : sub.phase = .snapshotting []) (hrun : sub.out.stage = .running)
      (hreq : req.resumeResourceVersion = "") :
      Move req w sub .join { sub with phase := .bridging, next := w.sent.length }
  | reject (hphase : sub.phase = .snapshotting []) (hrun : sub.out.stage = .running) :
      Move req w sub .join { sub with phase := .rejected }
  | recv {event : SecretEvent} {out : Emitter Status SecretEvent} (hphase : sub.phase = .bridging)
      (hsent : w.sent[sub.next]? = some event) (hout : SecretOut sub.out (.offer event) out) :
      Move req w sub .recv { sub with next := sub.next + 1, out }
  | lagged {out : Emitter Status SecretEvent} (hphase : sub.phase = .bridging)
      (hlag : SECRET_BROADCAST_CAPACITY < w.sent.length - sub.next)
      (hout : SecretOut sub.out (.abort subscriberLagged) out) : Move req w sub .recv { sub with out }
  | started (hphase : sub.phase = .starting) (hrun : sub.out.stage = .running) :
      Move req w sub .started { sub with phase := .watching }
  | startFailed {display : String} {out : Emitter Status SecretEvent} (hphase : sub.phase = .starting)
      (hout : SecretOut sub.out (.abort ⟨.unavailable, "watch error: " ++ display⟩) out) :
      Move req w sub (.startFailed display) { sub with out }
  | raw {event : RawWatchEvent} {now : Instant} {type : EventType} {secret : Secret}
      {offered : SecretEvent} {out : Emitter Status SecretEvent} (hphase : sub.phase = .watching)
      (hoffered : rawSecretEvent req.ns now type secret = some offered)
      (hevent : event = .added secret ∧ type = .modified ∨ event = .modified secret ∧ type = .modified ∨
        event = .deleted secret ∧ type = .deleted)
      (hout : SecretOut sub.out (.offer offered) out) : Move req w sub (.raw event now) { sub with out }
  | rawSkipped {event : RawWatchEvent} {now : Instant} (hphase : sub.phase = .watching) :
      Move req w sub (.raw event now) sub
  | rawError {display : String} {now : Instant} {out : Emitter Status SecretEvent}
      (hphase : sub.phase = .watching)
      (hout : SecretOut sub.out (.abort ⟨.internal, "watch error: " ++ display⟩) out) :
      Move req w sub (.raw (.error display) now) { sub with out }
  | rawFailed {out : Emitter Status SecretEvent} (hphase : sub.phase = .watching)
      (hout : SecretOut sub.out .abandon out) : Move req w sub .rawFailed { sub with out }
  | overrun {out : Emitter Status SecretEvent} (hphase : sub.phase = .bridging)
      (hlag : SECRET_BROADCAST_CAPACITY < w.sent.length - sub.next)
      (hout : SecretOut sub.out .abandon out) : Move req w sub .drain { sub with out }
  | finish {l : SecretSubscriberLabel} {out : Emitter Status SecretEvent}
      (hphase : sub.phase = .bridging ∨ sub.phase = .watching)
      (hl : l = .senderGone ∨ l = .rawEnded ∨ l = .drain)
      (hlag : sub.phase = .bridging → ¬ SECRET_BROADCAST_CAPACITY < w.sent.length - sub.next)
      (hout : SecretOut sub.out .finish out) : Move req w sub l { sub with out }
  | report {out : Emitter Status SecretEvent} (hout : SecretOut sub.out .report out) :
      Move req w sub .report { sub with out }
  | take {out : Emitter Status SecretEvent} (hret : sub.returned = true)
      (hout : SecretOut sub.out .take out) : Move req w sub .take { sub with out }
  | hangUp {out : Emitter Status SecretEvent} (hret : sub.returned = true)
      (hout : SecretOut sub.out .hangUp out) : Move req w sub .hangUp { sub with out }

theorem outStep_some {sub sub' : SecretSubscriber} {phase : SecretPhase} {next : Nat}
    {l : EmitterLabel Status SecretEvent} (h : sub.outStep phase next l = some sub') :
    ∃ out, SecretOut sub.out l out ∧ sub' = { sub with phase, next, out } := by
  rw [SecretSubscriber.outStep, Option.map_eq_some_iff] at h
  obtain ⟨out, hout, rfl⟩ := h
  exact ⟨out, hout, rfl⟩

theorem SecretSubscriber.emitToMpsc_move {req : SubscribeSecretsRequest} {w : SecretWatcher}
    {sub sub' : SecretSubscriber} {now : Instant} {type : EventType} {secret : Secret}
    {event : RawWatchEvent} (hphase : sub.phase = .watching)
    (hevent : event = .added secret ∧ type = .modified ∨ event = .modified secret ∧ type = .modified ∨
      event = .deleted secret ∧ type = .deleted)
    (h : sub.emitToMpsc (rawSecretEvent req.ns now type secret) = some sub') :
    sub.Move req w (.raw event now) sub' := by
  cases hr : rawSecretEvent req.ns now type secret with
  | none =>
    simp only [SecretSubscriber.emitToMpsc, hr, Option.some.injEq] at h
    rw [← h]
    exact .rawSkipped hphase
  | some offered =>
    simp only [SecretSubscriber.emitToMpsc, hr] at h
    obtain ⟨out, hout, rfl⟩ := outStep_some h
    rw [← hphase]
    exact .raw hphase hr hevent hout

theorem SecretSubscriber.move_of_task {req : SubscribeSecretsRequest} {served : Bool} {w : SecretWatcher}
    {sub sub' : SecretSubscriber} {l : SecretSubscriberLabel} (hrun : sub.out.stage = .running)
    (h : sub.taskStep req served w l = some sub') : sub.Move req w l sub' := by
  cases l with
  | read order now =>
    simp only [SecretSubscriber.taskStep] at h
    split at h
    · split at h
      · cases h
        exact .read ‹_› hrun ‹_›
      · cases h
    · cases h
  | emit =>
    simp only [SecretSubscriber.taskStep] at h
    split at h
    · obtain ⟨out, hout, rfl⟩ := outStep_some h
      exact .emit ‹_› hout
    · cases h
  | join =>
    simp only [SecretSubscriber.taskStep] at h
    split at h
    · split at h
      · cases h
        exact .resume ‹_› hrun ‹_›
      · rename_i hreq
        split at h
        · cases h
          exact .subscribe ‹_› hrun (not_not.mp hreq)
        · cases h
          exact .reject ‹_› hrun
    · cases h
  | recv =>
    simp only [SecretSubscriber.taskStep] at h
    split at h
    · rename_i hphase
      split at h
      · cases h
      · split at h
        · obtain ⟨out, hout, rfl⟩ := outStep_some h
          rw [← hphase]
          exact .lagged hphase ‹_› hout
        · obtain ⟨out, hout, rfl⟩ := outStep_some h
          rw [← hphase]
          exact .recv hphase ‹_› hout
    · cases h
  | senderGone =>
    simp only [SecretSubscriber.taskStep] at h
    split at h
    · rename_i hphase
      split at h
      · rename_i hnext
        obtain ⟨out, hout, rfl⟩ := outStep_some h
        rw [← hphase]
        refine .finish (Or.inl hphase) (by simp) (fun _ => ?_) hout
        rw [hnext, Nat.sub_self]
        exact Nat.not_lt_zero _
      · cases h
    · cases h
  | started =>
    simp only [SecretSubscriber.taskStep] at h
    split at h
    · cases h
      exact .started ‹_› hrun
    · cases h
  | startFailed display =>
    simp only [SecretSubscriber.taskStep] at h
    split at h
    · rename_i hphase
      obtain ⟨out, hout, rfl⟩ := outStep_some h
      rw [← hphase]
      exact .startFailed hphase hout
    · cases h
  | raw event now =>
    simp only [SecretSubscriber.taskStep] at h
    split at h
    · rename_i hphase
      split at h
      · exact SecretSubscriber.emitToMpsc_move hphase (by simp) h
      · exact SecretSubscriber.emitToMpsc_move hphase (by simp) h
      · exact SecretSubscriber.emitToMpsc_move hphase (by simp) h
      · cases h
        exact .rawSkipped hphase
      · obtain ⟨out, hout, rfl⟩ := outStep_some h
        rw [← hphase]
        exact .rawError hphase hout
    · cases h
  | rawFailed =>
    simp only [SecretSubscriber.taskStep] at h
    split at h
    · rename_i hphase
      obtain ⟨out, hout, rfl⟩ := outStep_some h
      rw [← hphase]
      exact .rawFailed hphase hout
    · cases h
  | rawEnded =>
    simp only [SecretSubscriber.taskStep] at h
    split at h
    · rename_i hphase
      obtain ⟨out, hout, rfl⟩ := outStep_some h
      rw [← hphase]
      exact .finish (Or.inr hphase) (by simp) (fun h => by rw [hphase] at h; cases h) hout
    · cases h
  | drain =>
    simp only [SecretSubscriber.taskStep] at h
    split at h
    · rename_i hphase
      split at h
      · obtain ⟨out, hout, rfl⟩ := outStep_some h
        rw [← hphase]
        exact .overrun hphase ‹_› hout
      · obtain ⟨out, hout, rfl⟩ := outStep_some h
        rw [← hphase]
        exact .finish (Or.inl hphase) (by simp) (fun _ => ‹_›) hout
    · rename_i hphase
      obtain ⟨out, hout, rfl⟩ := outStep_some h
      rw [← hphase]
      exact .finish (Or.inr hphase) (by simp) (fun h => by rw [hphase] at h; cases h) hout
    · cases h
  | report => cases h
  | take => cases h
  | hangUp => cases h

theorem SecretSubscriber.move_of_step {req : SubscribeSecretsRequest} {served : Bool} {w : SecretWatcher}
    {sub sub' : SecretSubscriber} {l : SecretSubscriberLabel}
    (h : sub.step req served w l = some sub') : sub.Move req w l sub' := by
  unfold SecretSubscriber.step at h
  split at h
  · obtain ⟨out, hout, rfl⟩ := outStep_some h
    exact .report hout
  · split at h
    · obtain ⟨out, hout, rfl⟩ := outStep_some h
      exact .take ‹_› hout
    · cases h
  · split at h
    · obtain ⟨out, hout, rfl⟩ := outStep_some h
      exact .hangUp ‹_› hout
    · cases h
  · split at h
    · exact SecretSubscriber.move_of_task ‹_› h
    · cases h

/-! ### What a stream carries -/

/-- The secret that a raw watch event carries. -/
def RawWatchEvent.secret : RawWatchEvent → Option Secret
  | .added secret | .modified secret | .deleted secret => some secret
  | .bookmark | .error _ => none

/-- What the channel has and the snapshot still to send meets `P`. -/
def SecretSubscriber.Carries (P : SecretEvent → Prop) (sub : SecretSubscriber) : Prop :=
  (∀ e ∈ sub.out.items, P e) ∧
    match sub.phase with
    | .snapshotting todo => ∀ e ∈ todo, P e
    | _ => True

/-- **A stream carries what its sources have**: the cache when it is read, the broadcast
and the raw watch. -/
theorem SecretSubscriber.Carries.step {P : SecretEvent → Prop} {req : SubscribeSecretsRequest}
    {w : SecretWatcher} {sub sub' : SecretSubscriber} {l : SecretSubscriberLabel} (hsub : sub.Carries P)
    (hm : sub.Move req w l sub')
    (hread : ∀ order now, l = .read order now → order.Perm w.cache.keys →
      ∀ snap ∈ w.cache.allInNamespace order req.ns, P (secretEvent .snapshot now snap))
    (hrecv : l = .recv → ∀ e ∈ w.sent[sub.next]?, P e)
    (hraw : ∀ event now, l = .raw event now → ∀ secret ∈ event.secret, ∀ type e,
      rawSecretEvent req.ns now type secret = some e → P e) : sub'.Carries P := by
  obtain ⟨hitems, htodo⟩ := hsub
  cases hm with
  | read hphase hrun horder =>
    refine ⟨hitems, fun e he => ?_⟩
    obtain ⟨snap, hsnap, rfl⟩ := List.mem_map.mp he
    exact hread _ _ rfl horder snap hsnap
  | emit hphase hout =>
    rw [hphase] at htodo
    refine ⟨Emitter.items_forall hout hitems fun e he => ?_, fun e he => htodo e (List.mem_cons_of_mem _ he)⟩
    cases he
    exact htodo _ List.mem_cons_self
  | resume hphase hrun hreq => exact ⟨hitems, trivial⟩
  | subscribe hphase hrun hreq => exact ⟨hitems, trivial⟩
  | reject hphase hrun => exact ⟨hitems, trivial⟩
  | recv hphase hsent hout =>
    refine ⟨Emitter.items_forall hout hitems fun e he => ?_, htodo⟩
    cases he
    exact hrecv rfl _ hsent
  | lagged hphase hlag hout => exact ⟨Emitter.items_quiet hout rfl hitems, htodo⟩
  | started hphase hrun => exact ⟨hitems, trivial⟩
  | startFailed hphase hout => exact ⟨Emitter.items_quiet hout rfl hitems, htodo⟩
  | raw hphase hoffered hevent hout =>
    refine ⟨Emitter.items_forall hout hitems fun e he => ?_, htodo⟩
    cases he
    refine hraw _ _ rfl _ ?_ _ _ hoffered
    rcases hevent with ⟨rfl, _⟩ | ⟨rfl, _⟩ | ⟨rfl, _⟩ <;> rfl
  | rawSkipped hphase => exact ⟨hitems, htodo⟩
  | rawError hphase hout => exact ⟨Emitter.items_quiet hout rfl hitems, htodo⟩
  | rawFailed hphase hout => exact ⟨Emitter.items_quiet hout rfl hitems, htodo⟩
  | overrun hphase hlag hout => exact ⟨Emitter.items_quiet hout rfl hitems, htodo⟩
  | finish hphase hl hlag hout => exact ⟨Emitter.items_quiet hout rfl hitems, htodo⟩
  | report hout => exact ⟨Emitter.items_quiet hout rfl hitems, htodo⟩
  | take hret hout => exact ⟨Emitter.items_quiet hout rfl hitems, htodo⟩
  | hangUp hret hout => exact ⟨Emitter.items_quiet hout rfl hitems, htodo⟩

/-! ### The session -/

structure SecretSession where
  watcher : SecretWatcher
  sub : SecretSubscriber

inductive SecretLabel
  | watcher (l : SecretWatcherLabel)
  | sub (l : SecretSubscriberLabel)

/-- `served` says whether a watcher runs for the namespace. -/
def SecretSession.step (req : SubscribeSecretsRequest) (served : Bool) (s : SecretSession) :
    SecretLabel → Option SecretSession
  | .watcher l => (s.watcher.step req.ns l).map fun watcher => { s with watcher }
  | .sub l => (s.sub.step req served s.watcher l).map fun sub => { s with sub }

def SecretSession.start (cache : SecretCache) : SecretSession :=
  { watcher := .start cache, sub := .new }

theorem SecretSession.step_cases {req : SubscribeSecretsRequest} {served : Bool} {s s' : SecretSession}
    {l : SecretLabel} (h : s.step req served l = some s') :
    (∃ l' w, l = .watcher l' ∧ s.watcher.step req.ns l' = some w ∧ s' = { s with watcher := w }) ∨
    ∃ l' sub, l = .sub l' ∧ s.sub.step req served s.watcher l' = some sub ∧ s' = { s with sub } := by
  cases l with
  | watcher l' =>
    obtain ⟨w, hw, rfl⟩ := Option.map_eq_some_iff.mp h
    exact Or.inl ⟨l', w, rfl, hw, rfl⟩
  | sub l' =>
    obtain ⟨sub, hsub, rfl⟩ := Option.map_eq_some_iff.mp h
    exact Or.inr ⟨l', sub, rfl, hsub, rfl⟩

end Konfig
