import Konfig.Subscribe.Session
import Konfig.Lib.Emitter

/-!
# A subscriber and its channel

`Session` counts what the client has left unread.  Here the channel of a `Subscribe`
call is an `Emitter`: the refused write and the write of the error into the same
channel are two steps, the reader may hang up, and what it receives is kept.

* `ConfigSubscriber.Move`: what a step can do.
* `ConfigSubscriber.move_view`: with the channel reduced to what was put into it,
  every step is a step of the `Subscriber`.
-/

namespace Konfig

open Lib

/-- One call: its receiver's position in the broadcast, and its channel.  The phase
`closed` is not used: the sender's end of the channel says it.  `content` is a history
variable: what was read from the cache. -/
structure ConfigSubscriber where
  resumeRv : String
  phase : Phase
  next : Nat
  content : List ConfigSnapshot
  out : Emitter Status ConfigEvent

def ConfigSubscriber.new (resumeRv : String) : ConfigSubscriber :=
  { resumeRv, phase := .connecting, next := 0, content := [], out := .new }

inductive ConfigSubscriberLabel
  | attach
  | lookup (front : Nat)
  | readCache (snaps : List ConfigSnapshot) (now : Instant)
  | readBuffer
  | emit
  | recv
  /-- The broadcast has no sender left. -/
  | senderGone
  | drain
  | report
  | take
  | hangUp

/-- One step on the channel. -/
def ConfigSubscriber.outStep (sub : ConfigSubscriber) (phase : Phase) (next : Nat)
    (l : EmitterLabel Status ConfigEvent) : Option ConfigSubscriber :=
  (sub.out.step CHANNEL_CAPACITY subscriberTooSlow l).map fun out => { sub with phase, next, out }

/-- A step of the task while it runs. -/
def ConfigSubscriber.taskStep (filter : SubscribeFilter) (p : Pump) (sub : ConfigSubscriber) :
    ConfigSubscriberLabel → Option ConfigSubscriber
  | .attach =>
    match sub.phase with
    | .connecting => some { sub with phase := .attached, next := p.sent.length }
    | _ => none
  | .lookup front =>
    match sub.phase with
    | .attached =>
      match lookupReplay front p.buffer (parseResumeRv sub.resumeRv) with
      | some slice => some { sub with phase := .replaying slice }
      | none => some { sub with phase := .missed }
    | _ => none
  | .readCache snaps now =>
    match sub.phase with
    | .missed =>
      if (snaps.map (·.name)).Nodup then
        some { sub with
          phase := .snapshotting (snapshotEvents filter now snaps) (maxSnapshotRv snaps)
          content := snaps }
      else none
    | _ => none
  | .readBuffer =>
    match sub.phase with
    | .snapshotting [] maxRv =>
      some { sub with phase := .replaying (postSnapshotEvents p.buffer maxRv) }
    | _ => none
  | .emit =>
    match sub.phase with
    | .snapshotting (event :: todo) maxRv => sub.outStep (.snapshotting todo maxRv) sub.next (.offer event)
    | .replaying ((event, labels) :: todo) =>
      if filterAllowsEvent filter event labels then
        sub.outStep (.replaying todo) sub.next (.offer event)
      else some { sub with phase := .replaying todo }
    | .replaying [] => some { sub with phase := .bridging }
    | _ => none
  | .recv =>
    match sub.phase with
    | .bridging =>
      match p.sent[sub.next]? with
      | none => none
      | some frame =>
        if BROADCAST_CAPACITY < p.sent.length - sub.next then
          sub.outStep .bridging sub.next (.abort subscriberLagged)
        else if filterAllowsEvent filter frame.event frame.labels then
          sub.outStep .bridging (sub.next + 1) (.offer frame.event)
        else some { sub with next := sub.next + 1 }
    | _ => none
  | .senderGone =>
    match sub.phase with
    -- `Closed` comes after the last frame
    | .bridging => if sub.next = p.sent.length then sub.outStep .bridging sub.next .finish else none
    | _ => none
  | .drain =>
    match sub.phase with
    | .bridging =>
      -- a lag that was not noticed yet stays unnoticed
      if BROADCAST_CAPACITY < p.sent.length - sub.next then sub.outStep .bridging sub.next .abandon
      else sub.outStep .bridging sub.next .finish
    | _ => none
  | .report | .take | .hangUp => none

/-- The task steps while its end of the channel is open; the reader may step at any
time. -/
def ConfigSubscriber.step (filter : SubscribeFilter) (p : Pump) (sub : ConfigSubscriber) :
    ConfigSubscriberLabel → Option ConfigSubscriber
  | .report => sub.outStep sub.phase sub.next .report
  | .take => sub.outStep sub.phase sub.next .take
  | .hangUp => sub.outStep sub.phase sub.next .hangUp
  | l =>
    match sub.out.stage with
    | .running => sub.taskStep filter p l
    | _ => none

/-! ### What a step can do -/

/-- The step of the channel. -/
abbrev ConfigOut (out : Emitter Status ConfigEvent) (l : EmitterLabel Status ConfigEvent)
    (out' : Emitter Status ConfigEvent) : Prop :=
  out.step CHANNEL_CAPACITY subscriberTooSlow l = some out'

/-- The transitions of `ConfigSubscriber.step`. -/
inductive ConfigSubscriber.Move (filter : SubscribeFilter) (p : Pump) (sub : ConfigSubscriber) :
    ConfigSubscriberLabel → ConfigSubscriber → Prop
  | attach (hphase : sub.phase = .connecting) (hrun : sub.out.stage = .running) :
      Move filter p sub .attach { sub with phase := .attached, next := p.sent.length }
  | hit {front : Nat} {slice : List ReplayItem} (hphase : sub.phase = .attached)
      (hrun : sub.out.stage = .running)
      (hlook : lookupReplay front p.buffer (parseResumeRv sub.resumeRv) = some slice) :
      Move filter p sub (.lookup front) { sub with phase := .replaying slice }
  | miss {front : Nat} (hphase : sub.phase = .attached) (hrun : sub.out.stage = .running)
      (hlook : lookupReplay front p.buffer (parseResumeRv sub.resumeRv) = none) :
      Move filter p sub (.lookup front) { sub with phase := .missed }
  | readCache {snaps : List ConfigSnapshot} {now : Instant} (hphase : sub.phase = .missed)
      (hrun : sub.out.stage = .running) (hnodup : (snaps.map (·.name)).Nodup) :
      Move filter p sub (.readCache snaps now)
        { sub with
          phase := .snapshotting (snapshotEvents filter now snaps) (maxSnapshotRv snaps)
          content := snaps }
  | readBuffer {maxRv : Nat} (hphase : sub.phase = .snapshotting [] maxRv)
      (hrun : sub.out.stage = .running) :
      Move filter p sub .readBuffer { sub with phase := .replaying (postSnapshotEvents p.buffer maxRv) }
  | snapshot {maxRv : Nat} {event : ConfigEvent} {todo : List ConfigEvent}
      {out : Emitter Status ConfigEvent} (hphase : sub.phase = .snapshotting (event :: todo) maxRv)
      (hout : ConfigOut sub.out (.offer event) out) :
      Move filter p sub .emit { sub with phase := .snapshotting todo maxRv, out }
  | replay {it : ReplayItem} {todo : List ReplayItem} {out : Emitter Status ConfigEvent}
      (hphase : sub.phase = .replaying (it :: todo)) (hallow : filterAllowsEvent filter it.1 it.2 = true)
      (hout : ConfigOut sub.out (.offer it.1) out) :
      Move filter p sub .emit { sub with phase := .replaying todo, out }
  | skip {it : ReplayItem} {todo : List ReplayItem} (hphase : sub.phase = .replaying (it :: todo))
      (hrun : sub.out.stage = .running) (hdeny : filterAllowsEvent filter it.1 it.2 = false) :
      Move filter p sub .emit { sub with phase := .replaying todo }
  | bridge (hphase : sub.phase = .replaying []) (hrun : sub.out.stage = .running) :
      Move filter p sub .emit { sub with phase := .bridging }
  | recv {frame : BroadcastFrame} {out : Emitter Status ConfigEvent} (hphase : sub.phase = .bridging)
      (hframe : p.sent[sub.next]? = some frame)
      (hallow : filterAllowsEvent filter frame.event frame.labels = true)
      (hout : ConfigOut sub.out (.offer frame.event) out) :
      Move filter p sub .recv { sub with next := sub.next + 1, out }
  | pass {frame : BroadcastFrame} (hphase : sub.phase = .bridging) (hrun : sub.out.stage = .running)
      (hframe : p.sent[sub.next]? = some frame)
      (hdeny : filterAllowsEvent filter frame.event frame.labels = false) :
      Move filter p sub .recv { sub with next := sub.next + 1 }
  | lagged {out : Emitter Status ConfigEvent} (hphase : sub.phase = .bridging)
      (hlag : BROADCAST_CAPACITY < p.sent.length - sub.next)
      (hout : ConfigOut sub.out (.abort subscriberLagged) out) : Move filter p sub .recv { sub with out }
  | overrun {out : Emitter Status ConfigEvent} (hphase : sub.phase = .bridging)
      (hlag : BROADCAST_CAPACITY < p.sent.length - sub.next) (hout : ConfigOut sub.out .abandon out) :
      Move filter p sub .drain { sub with out }
  | finish {l : ConfigSubscriberLabel} {out : Emitter Status ConfigEvent} (hphase : sub.phase = .bridging)
      (hl : l = .senderGone ∨ l = .drain) (hlag : ¬ BROADCAST_CAPACITY < p.sent.length - sub.next)
      (hout : ConfigOut sub.out .finish out) : Move filter p sub l { sub with out }
  | report {out : Emitter Status ConfigEvent} (hout : ConfigOut sub.out .report out) :
      Move filter p sub .report { sub with out }
  | take {out : Emitter Status ConfigEvent} (hout : ConfigOut sub.out .take out) :
      Move filter p sub .take { sub with out }
  | hangUp {out : Emitter Status ConfigEvent} (hout : ConfigOut sub.out .hangUp out) :
      Move filter p sub .hangUp { sub with out }

theorem ConfigSubscriber.outStep_some {sub sub' : ConfigSubscriber} {phase : Phase} {next : Nat}
    {l : EmitterLabel Status ConfigEvent} (h : sub.outStep phase next l = some sub') :
    ∃ out, ConfigOut sub.out l out ∧ sub' = { sub with phase, next, out } := by
  rw [ConfigSubscriber.outStep, Option.map_eq_some_iff] at h
  obtain ⟨out, hout, rfl⟩ := h
  exact ⟨out, hout, rfl⟩

theorem ConfigSubscriber.move_of_task {filter : SubscribeFilter} {p : Pump} {sub sub' : ConfigSubscriber}
    {l : ConfigSubscriberLabel} (hrun : sub.out.stage = .running)
    (h : sub.taskStep filter p l = some sub') : sub.Move filter p l sub' := by
  cases l with
  | attach =>
    simp only [ConfigSubscriber.taskStep] at h
    split at h
    · cases h
      exact .attach ‹_› hrun
    · cases h
  | lookup front =>
    simp only [ConfigSubscriber.taskStep] at h
    split at h
    · split at h
      · cases h
        exact .hit ‹_› hrun ‹_›
      · cases h
        exact .miss ‹_› hrun ‹_›
    · cases h
  | readCache snaps now =>
    simp only [ConfigSubscriber.taskStep] at h
    split at h
    · split at h
      · cases h
        exact .readCache ‹_› hrun ‹_›
      · cases h
    · cases h
  | readBuffer =>
    simp only [ConfigSubscriber.taskStep] at h
    split at h
    · cases h
      exact .readBuffer ‹_› hrun
    · cases h
  | emit =>
    simp only [ConfigSubscriber.taskStep] at h
    split at h
    · obtain ⟨out, hout, rfl⟩ := outStep_some h
      exact .snapshot ‹_› hout
    · split at h
      · obtain ⟨out, hout, rfl⟩ := outStep_some h
        exact .replay ‹_› ‹_› hout
      · rename_i hdeny
        cases h
        exact .skip ‹_› hrun (Bool.not_eq_true _ ▸ hdeny)
    · cases h
      exact .bridge ‹_› hrun
    · cases h
  | recv =>
    simp only [ConfigSubscriber.taskStep] at h
    split at h
    · rename_i hphase
      split at h
      · cases h
      · split at h
        · obtain ⟨out, hout, rfl⟩ := outStep_some h
          rw [← hphase]
          exact .lagged hphase ‹_› hout
        · split at h
          · obtain ⟨out, hout, rfl⟩ := outStep_some h
            rw [← hphase]
            exact .recv hphase ‹_› ‹_› hout
          · rename_i hdeny
            cases h
            exact .pass hphase hrun ‹_› (Bool.not_eq_true _ ▸ hdeny)
    · cases h
  | senderGone =>
    simp only [ConfigSubscriber.taskStep] at h
    split at h
    · rename_i hphase
      split at h
      · rename_i hnext
        obtain ⟨out, hout, rfl⟩ := outStep_some h
        rw [← hphase]
        refine .finish hphase (by simp) ?_ hout
        rw [hnext, Nat.sub_self]
        exact Nat.not_lt_zero _
      · cases h
    · cases h
  | drain =>
    simp only [ConfigSubscriber.taskStep] at h
    split at h
    · rename_i hphase
      split at h
      · obtain ⟨out, hout, rfl⟩ := outStep_some h
        rw [← hphase]
        exact .overrun hphase ‹_› hout
      · obtain ⟨out, hout, rfl⟩ := outStep_some h
        rw [← hphase]
        exact .finish hphase (by simp) ‹_› hout
    · cases h
  | report => cases h
  | take => cases h
  | hangUp => cases h

theorem ConfigSubscriber.move_of_step {filter : SubscribeFilter} {p : Pump} {sub sub' : ConfigSubscriber}
    {l : ConfigSubscriberLabel} (h : sub.step filter p l = some sub') : sub.Move filter p l sub' := by
  unfold ConfigSubscriber.step at h
  split at h
  · obtain ⟨out, hout, rfl⟩ := outStep_some h
    exact .report hout
  · obtain ⟨out, hout, rfl⟩ := outStep_some h
    exact .take hout
  · obtain ⟨out, hout, rfl⟩ := outStep_some h
    exact .hangUp hout
  · split at h
    · exact ConfigSubscriber.move_of_task ‹_› h
    · cases h

/-! ### The channel reduced to what was put into it -/

/-- What `Subscriber` keeps of the call. -/
def ConfigSubscriber.view (sub : ConfigSubscriber) : Subscriber :=
  { resumeRv := sub.resumeRv
    phase := if sub.out.stage = .running then sub.phase else .closed
    next := sub.next
    stream := sub.out.items
    unread := sub.out.queue.length }

theorem ConfigSubscriber.view_running {sub : ConfigSubscriber} (h : sub.out.stage = .running) :
    sub.view = ⟨sub.resumeRv, sub.phase, sub.next, sub.out.items, sub.out.queue.length⟩ := by
  rw [ConfigSubscriber.view, if_pos h]

theorem ConfigSubscriber.view_stopped {sub : ConfigSubscriber} (h : sub.out.stage ≠ .running) :
    sub.view = ⟨sub.resumeRv, .closed, sub.next, sub.out.items, sub.out.queue.length⟩ := by
  rw [ConfigSubscriber.view, if_neg h]

/-- A step that leaves the sender running. -/
theorem ConfigSubscriber.move_running {filter : SubscribeFilter} {p : Pump} {sub sub' : ConfigSubscriber}
    {l : SubscriberLabel} (hrun : sub.out.stage = .running) (hrun' : sub'.out.stage = .running)
    (h : Subscriber.Move filter p
      ⟨sub.resumeRv, sub.phase, sub.next, sub.out.items, sub.out.queue.length⟩ l
      ⟨sub'.resumeRv, sub'.phase, sub'.next, sub'.out.items, sub'.out.queue.length⟩) :
    sub.view.Move filter p l sub'.view := by
  rw [view_running hrun, view_running hrun']
  exact h

/-- A step that stops the sender closes the stream. -/
theorem ConfigSubscriber.move_stopped {filter : SubscribeFilter} {p : Pump} {sub sub' : ConfigSubscriber}
    {l : SubscriberLabel} (hl : l = .emit ∨ l = .recv ∨ l = .drain) (hstop : sub'.out.stage ≠ .running)
    (hitems : sub'.out.items = sub.out.items) (hrv : sub'.resumeRv = sub.resumeRv) :
    sub.view.Move filter p l sub'.view := by
  rw [view_stopped hstop, hitems, hrv]
  exact .close hl

/-- A step that only the channel sees. -/
theorem ConfigSubscriber.move_unseen {filter : SubscribeFilter} {p : Pump} {sub : ConfigSubscriber}
    {out : Emitter Status ConfigEvent} (hstage : out.stage = .running ↔ sub.out.stage = .running)
    (hitems : out.items = sub.out.items) :
    sub.view.Move filter p .take ({ sub with out } : ConfigSubscriber).view := by
  by_cases hrun : sub.out.stage = .running
  · rw [view_running hrun, view_running (hstage.mpr hrun), hitems]
    exact .take
  · rw [view_stopped hrun, view_stopped fun h => hrun (hstage.mp h), hitems]
    exact .take

/-- **Every step is a step of the `Subscriber`**, up to what is unread. -/
theorem ConfigSubscriber.move_view {filter : SubscribeFilter} {p : Pump} {sub sub' : ConfigSubscriber}
    {l : ConfigSubscriberLabel} (h : sub.Move filter p l sub') :
    ∃ l', sub.view.Move filter p l' sub'.view := by
  cases h with
  | attach hphase hrun =>
    exact ⟨_, move_running hrun hrun (.attach hphase)⟩
  | hit hphase hrun hlook =>
    exact ⟨_, move_running hrun hrun (.hit hphase hlook)⟩
  | miss hphase hrun hlook =>
    exact ⟨_, move_running hrun hrun (.miss hphase hlook)⟩
  | readCache hphase hrun hnodup =>
    exact ⟨_, move_running hrun hrun (.readCache hphase hnodup)⟩
  | readBuffer hphase hrun =>
    exact ⟨_, move_running hrun hrun (.readBuffer hphase)⟩
  | snapshot hphase hout =>
    rcases Emitter.items_of_offer hout with ⟨hrun', hitems⟩ | ⟨hstop, hitems⟩
    · refine ⟨.emit, move_running (Emitter.running_of_offer hout) hrun' ?_⟩
      simp only [hitems]
      exact .snapshot hphase
    · exact ⟨.emit, move_stopped (Or.inl rfl) hstop hitems rfl⟩
  | @replay it todo out hphase hallow hout =>
    rcases Emitter.items_of_offer hout with ⟨hrun', hitems⟩ | ⟨hstop, hitems⟩
    · have hone : allowed filter [it] = [it.1] := by rw [allowed_singleton, if_pos hallow]
      refine ⟨.emit, move_running (Emitter.running_of_offer hout) hrun' ?_⟩
      simp only [hitems, ← hone]
      exact .replay hphase
    · exact ⟨.emit, move_stopped (Or.inl rfl) hstop hitems rfl⟩
  | @skip it todo hphase hrun hdeny =>
    have hone : sub.out.items = sub.out.items ++ allowed filter [it] := by
      rw [allowed_singleton, hdeny]
      exact (List.append_nil _).symm
    refine ⟨.emit, move_running hrun hrun ?_⟩
    nth_rewrite 2 [hone]
    exact .replay hphase
  | bridge hphase hrun =>
    exact ⟨_, move_running hrun hrun (.bridge hphase)⟩
  | @recv frame out hphase hframe hallow hout =>
    rcases Emitter.items_of_offer hout with ⟨hrun', hitems⟩ | ⟨hstop, hitems⟩
    · have hone : allowed filter [frame.item] = [frame.event] := by
        rw [allowed_singleton, BroadcastFrame.item, if_pos hallow]
      refine ⟨.recv, move_running (Emitter.running_of_offer hout) hrun' ?_⟩
      simp only [hitems, ← hone]
      exact .recv hphase hframe
    · exact ⟨.recv, move_stopped (Or.inr (Or.inl rfl)) hstop hitems rfl⟩
  | @pass frame hphase hrun hframe hdeny =>
    have hone : sub.out.items = sub.out.items ++ allowed filter [frame.item] := by
      rw [allowed_singleton, BroadcastFrame.item, hdeny]
      exact (List.append_nil _).symm
    refine ⟨.recv, move_running hrun hrun ?_⟩
    nth_rewrite 2 [hone]
    exact .recv hphase hframe
  | lagged hphase hlag hout =>
    exact ⟨.recv, move_stopped (Or.inr (Or.inl rfl)) (Emitter.not_running_of_abort hout)
      (Emitter.items_of_quiet hout nofun) rfl⟩
  | overrun hphase hlag hout =>
    refine ⟨.drain, move_stopped (Or.inr (Or.inr rfl)) ?_ (Emitter.items_of_quiet hout nofun) rfl⟩
    cases Emitter.move_of_step hout with
    | abandon _ => exact nofun
  | finish hphase hl hlag hout =>
    refine ⟨.drain, move_stopped (Or.inr (Or.inr rfl)) ?_ (Emitter.items_of_quiet hout nofun) rfl⟩
    cases Emitter.move_of_step hout with
    | finish _ => exact nofun
  | report hout =>
    refine ⟨_, move_unseen ?_ (Emitter.items_of_quiet hout nofun)⟩
    cases Emitter.move_of_step hout with
    | told hfail _ _ => simp [hfail]
    | untold hfail _ => simp [hfail]
  | take hout =>
    refine ⟨_, move_unseen ?_ (Emitter.items_of_quiet hout nofun)⟩
    cases Emitter.move_of_step hout with
    | take _ _ => exact Iff.rfl
  | hangUp hout =>
    refine ⟨_, move_unseen ?_ (Emitter.items_of_quiet hout nofun)⟩
    cases Emitter.move_of_step hout with
    | hangUp => exact Iff.rfl

/-! ### The session -/

structure ConfigSession where
  pump : Pump
  sub : ConfigSubscriber

def ConfigSession.new (resumeRv : String) : ConfigSession := { pump := .new, sub := .new resumeRv }

inductive ConfigSessionLabel
  | pump (l : PumpLabel)
  | sub (l : ConfigSubscriberLabel)

def ConfigSession.step (coalesced : Bool) (filter : SubscribeFilter) (s : ConfigSession) :
    ConfigSessionLabel → Option ConfigSession
  | .pump l => (s.pump.step coalesced l).map fun pump => { s with pump }
  | .sub l => (s.sub.step filter s.pump l).map fun sub => { s with sub }

theorem ConfigSession.step_cases {coalesced : Bool} {filter : SubscribeFilter} {s s' : ConfigSession}
    {l : ConfigSessionLabel} (h : s.step coalesced filter l = some s') :
    (∃ l' p, l = .pump l' ∧ s.pump.step coalesced l' = some p ∧ s' = { s with pump := p }) ∨
    ∃ l' sub, l = .sub l' ∧ s.sub.step filter s.pump l' = some sub ∧ s' = { s with sub } := by
  cases l with
  | pump l' =>
    obtain ⟨p, hp, rfl⟩ := Option.map_eq_some_iff.mp h
    exact Or.inl ⟨l', p, rfl, hp, rfl⟩
  | sub l' =>
    obtain ⟨sub, hsub, rfl⟩ := Option.map_eq_some_iff.mp h
    exact Or.inr ⟨l', sub, rfl, hsub, rfl⟩

/-- What the steps of the pump and of the `Subscriber` keep holds after every run. -/
theorem ConfigSession.run_inv {coalesced : Bool} {filter : SubscribeFilter}
    (Inv : Pump → Subscriber → Prop)
    (hpump : ∀ p sub l p', Inv p sub → p.step coalesced l = some p' → Inv p' sub)
    (hsub : ∀ p sub l sub', Inv p sub → sub.Move filter p l sub' → Inv p sub')
    {s t : ConfigSession} {ls : List ConfigSessionLabel} (h0 : Inv s.pump s.sub.view)
    (h : run (ConfigSession.step coalesced filter) s ls = some t) : Inv t.pump t.sub.view := by
  refine run_induction (fun _ t => Inv t.pump t.sub.view) h0 ?_ ls t h
  intro _ s l s' _ ih hstep
  obtain ⟨l', p, rfl, hp, rfl⟩ | ⟨l', sub, rfl, hs, rfl⟩ := ConfigSession.step_cases hstep
  · exact hpump _ _ _ _ ih hp
  · obtain ⟨l'', hm⟩ := ConfigSubscriber.move_view (ConfigSubscriber.move_of_step hs)
    exact hsub _ _ _ _ ih hm

theorem ConfigSession.resumeRv_run {coalesced : Bool} {filter : SubscribeFilter} {s t : ConfigSession}
    {ls : List ConfigSessionLabel} (h : run (ConfigSession.step coalesced filter) s ls = some t) :
    t.sub.resumeRv = s.sub.resumeRv :=
  ConfigSession.run_inv (fun _ sub => sub.resumeRv = s.sub.resumeRv) (fun _ _ _ _ hi _ => hi)
    (fun _ _ _ _ hi hm => hm.resumeRv_eq.trans hi) rfl h

end Konfig
