import Konfig.Subscribe.Replay
import Konfig.Lib.Machine

/-!
# One pump and one subscriber

A namespace watcher's pump (`pump_immediate`, `pump_coalesced`) and one
`Subscribe` call (`get_or_create_broadcast`, `resume_from_buffer`,
`bridge_broadcast`) as a machine whose labels are the steps that can interleave:
the pump processes one watch event, lets the coalesce window elapse or sends one
frame; the subscriber attaches, reads the buffer under its lock, reads the
cache, puts one event into its channel or receives one frame; the client takes
one event.

Every shard of the broadcast gets every frame, so the subscriber's shard is one
sequence `sent`; a receiver is a position in it, and it has lagged when more
than `BROADCAST_CAPACITY` frames are ahead of it.  The cache is written by
another watcher: its content is part of the label that reads it.

* `Pump.Inv.step`: what was pushed was sent, is being sent or waits in the batch,
  and the buffer holds the last of it.
* `Feed`: what a subscriber that has started replaying a slice has put into its
  channel, kept by every step (`Feed.step`).
-/

namespace Konfig

open Lib

def COALESCE_MAX_BATCH : Nat := 16

def BROADCAST_CAPACITY : Nat := 1024

def CHANNEL_CAPACITY : Nat := 256

/-! ### The pump -/

/-- The pump with its replay buffer and its side of the broadcast. -/
structure Pump where
  buffer : List ReplayEntry
  batch : List BroadcastFrame
  flushing : List BroadcastFrame
  sent : List BroadcastFrame

def Pump.new : Pump := { buffer := [], batch := [], flushing := [], sent := [] }

/-- Every frame processed so far, in order. -/
def Pump.pushed (p : Pump) : List BroadcastFrame := p.sent ++ p.flushing ++ p.batch

inductive PumpLabel
  | watch (event : WatchEvent DynamicObject) (now : Instant)
  | elapsed
  | send

/-- A flush sends its frames one by one before the next event is taken. -/
def Pump.step (coalesced : Bool) (p : Pump) : PumpLabel → Option Pump
  | .watch event now =>
    if p.flushing.isEmpty then
      match processNamespaceEvent now event p.buffer with
      | (buffer, none) => some { p with buffer }
      | (buffer, some frame) =>
        if coalesced then
          if COALESCE_MAX_BATCH ≤ (p.batch ++ [frame]).length then
            some { p with buffer, batch := [], flushing := p.batch ++ [frame] }
          else some { p with buffer, batch := p.batch ++ [frame] }
        -- without coalescing the batch stays empty
        else some { p with buffer, batch := [], flushing := p.batch ++ [frame] }
    else none
  | .elapsed =>
    if p.flushing.isEmpty && !p.batch.isEmpty then some { p with batch := [], flushing := p.batch }
    else none
  | .send =>
    match p.flushing with
    | [] => none
    | frame :: rest => some { p with flushing := rest, sent := p.sent ++ [frame] }

/-- What one step of the pump can do: process an event, move the batch to the
flush, or send. -/
theorem Pump.step_cases {coalesced : Bool} {p p' : Pump} {l : PumpLabel}
    (h : p.step coalesced l = some p') :
    (∃ fs : List BroadcastFrame, fs.length ≤ 1 ∧
      (∀ f ∈ fs, ∃ now event, l = .watch event now ∧ frameOf now event = some f) ∧
      p'.buffer = fs.foldl pushFrame p.buffer ∧ p'.pushed = p.pushed ++ fs ∧ p'.sent = p.sent) ∨
    (∃ f, p'.buffer = p.buffer ∧ p'.pushed = p.pushed ∧ p'.sent = p.sent ++ [f]) := by
  cases l with
  | watch event now =>
    simp only [Pump.step, processNamespaceEvent_eq] at h
    split at h
    · rename_i hempty
      have hflush : p.flushing = [] := List.isEmpty_iff.mp hempty
      cases hf : frameOf now event with
      | none =>
        simp only [hf, Option.some.injEq] at h
        subst h
        exact .inl ⟨[], by simp, by simp, rfl, by simp [Pump.pushed], rfl⟩
      | some f =>
        refine .inl ⟨[f], by simp, by simpa using hf, ?_⟩
        simp only [hf] at h
        split at h
        · split at h
          · cases h
            simp [Pump.pushed, hflush]
          · cases h
            simp [Pump.pushed, hflush]
        · cases h
          simp [Pump.pushed, hflush]
    · cases h
  | elapsed =>
    simp only [Pump.step] at h
    split at h
    · rename_i hcond
      rw [Bool.and_eq_true] at hcond
      have hflush : p.flushing = [] := List.isEmpty_iff.mp hcond.1
      cases h
      exact .inl ⟨[], by simp, by simp, rfl, by simp [Pump.pushed, hflush], rfl⟩
    · cases h
  | send =>
    simp only [Pump.step] at h
    split at h
    · cases h
    · rename_i f rest hfl
      cases h
      exact .inr ⟨f, rfl, by simp [Pump.pushed, hfl], rfl⟩

/-- The buffer holds the last of what was pushed. -/
def Pump.Inv (p : Pump) : Prop :=
  p.buffer = (p.pushed.filterMap BroadcastFrame.entry).rtake REPLAY_BUFFER_SIZE

theorem Pump.inv_new : Pump.new.Inv := rfl

theorem Pump.Inv.step {coalesced : Bool} {p p' : Pump} {l : PumpLabel} (hi : p.Inv)
    (h : p.step coalesced l = some p') : p'.Inv := by
  unfold Pump.Inv at hi ⊢
  obtain ⟨fs, hlen, _, hbuf, hpushed, _⟩ | ⟨f, hbuf, hpushed, _⟩ := Pump.step_cases h
  · rw [hbuf, hpushed, hi]
    match fs, hlen with
    | [], _ => simp
    | [f], _ => exact pushFrame_rtake p.pushed f
  · rw [hbuf, hpushed, hi]

theorem Pump.sent_grows {coalesced : Bool} {p p' : Pump} {l : PumpLabel}
    (h : p.step coalesced l = some p') : p.sent <+: p'.sent := by
  obtain ⟨_, _, _, _, _, hsent⟩ | ⟨f, _, _, hsent⟩ := Pump.step_cases h
  · exact ⟨[], by rw [List.append_nil, hsent]⟩
  · rw [hsent]
    exact List.prefix_append _ _

theorem Pump.pushed_grows {coalesced : Bool} {p p' : Pump} {l : PumpLabel}
    (h : p.step coalesced l = some p') : p.pushed <+: p'.pushed := by
  obtain ⟨fs, _, _, _, hpushed, _⟩ | ⟨f, _, hpushed, _⟩ := Pump.step_cases h
  · rw [hpushed]
    exact List.prefix_append _ _
  · exact ⟨[], by rw [List.append_nil, hpushed]⟩

theorem Pump.sent_pushed (p : Pump) : p.sent <+: p.pushed := by
  unfold Pump.pushed
  rw [List.append_assoc]
  exact List.prefix_append _ _

/-! ### The subscriber -/

/-- How far a `Subscribe` call has come. -/
inductive Phase
  | connecting
  | attached
  | missed
  | snapshotting (todo : List ConfigEvent) (maxRv : Nat)
  | replaying (todo : List ReplayItem)
  | bridging
  | closed

/-- One call: its receiver's position, what it has put into its channel, and how
much of that the client has not taken. -/
structure Subscriber where
  resumeRv : String
  phase : Phase
  next : Nat
  stream : List ConfigEvent
  unread : Nat

def Subscriber.new (resumeRv : String) : Subscriber :=
  { resumeRv, phase := .connecting, next := 0, stream := [], unread := 0 }

/-- `try_send`: a full channel disconnects the subscriber. -/
def Subscriber.trySend (sub : Subscriber) (event : ConfigEvent) : Subscriber :=
  if sub.unread < CHANNEL_CAPACITY then
    { sub with stream := sub.stream ++ [event], unread := sub.unread + 1 }
  else { sub with phase := .closed }

inductive SubscriberLabel
  | attach
  | lookup (front : Nat)
  | readCache (snaps : List ConfigSnapshot) (now : Instant)
  | readBuffer
  | emit
  | recv
  | take
  | drain

def Subscriber.step (filter : SubscribeFilter) (p : Pump) (sub : Subscriber) :
    SubscriberLabel → Option Subscriber
  | .attach =>
    match sub.phase with
    | .connecting => some { sub with phase := .attached, next := p.sent.length }
    | _ => none
  | .lookup front =>
    match sub.phase with
    | .attached =>
      match lookupReplay front p.buffer (parseResumeRv sub.resumeRv) with
      | some slice => some { sub with phase := .replaying slice }
      | none => some { sub with phase := .missed }
    | _ => none
  | .readCache snaps now =>
    match sub.phase with
    | .missed =>
      -- the cache is a map: one snapshot a name
      if (snaps.map (·.name)).Nodup then
        some { sub with phase := .snapshotting (snapshotEvents filter now snaps) (maxSnapshotRv snaps) }
      else none
    | _ => none
  | .readBuffer =>
    match sub.phase with
    | .snapshotting [] maxRv =>
      some { sub with phase := .replaying (postSnapshotEvents p.buffer maxRv) }
    | _ => none
  | .emit =>
    match sub.phase with
    | .snapshotting (event :: todo) maxRv =>
      some ({ sub with phase := .snapshotting todo maxRv }.trySend event)
    | .replaying ((event, labels) :: todo) =>
      if filterAllowsEvent filter event labels then
        some ({ sub with phase := .replaying todo }.trySend event)
      else some { sub with phase := .replaying todo }
    | .replaying [] => some { sub with phase := .bridging }
    | _ => none
  | .recv =>
    match sub.phase with
    | .bridging =>
      match p.sent[sub.next]? with
      | none => none
      | some frame =>
        if BROADCAST_CAPACITY < p.sent.length - sub.next then some { sub with phase := .closed }
        else if filterAllowsEvent filter frame.event frame.labels then
          some ({ sub with next := sub.next + 1 }.trySend frame.event)
        else some { sub with next := sub.next + 1 }
    | _ => none
  | .take => if 0 < sub.unread then some { sub with unread := sub.unread - 1 } else none
  | .drain =>
    match sub.phase with
    | .bridging => some { sub with phase := .closed }
    | _ => none

/-! ### What a subscriber's step can do -/

def BroadcastFrame.item (f : BroadcastFrame) : ReplayItem := (f.event, f.labels)

/-- The events of the items that pass the filter. -/
def allowed (filter : SubscribeFilter) (items : List ReplayItem) : List ConfigEvent :=
  (items.filter fun it => filterAllowsEvent filter it.1 it.2).map Prod.fst

@[simp] theorem allowed_nil (filter : SubscribeFilter) : allowed filter [] = [] := rfl

@[simp] theorem allowed_append (filter : SubscribeFilter) (xs ys : List ReplayItem) :
    allowed filter (xs ++ ys) = allowed filter xs ++ allowed filter ys := by
  simp [allowed]

theorem allowed_singleton (filter : SubscribeFilter) (it : ReplayItem) :
    allowed filter [it] = if filterAllowsEvent filter it.1 it.2 then [it.1] else [] := by
  unfold allowed
  rw [List.filter_singleton]
  cases filterAllowsEvent filter it.1 it.2 <;> rfl

theorem mem_allowed {filter : SubscribeFilter} {items : List ReplayItem} {it : ReplayItem}
    (h : it ∈ items) (ha : filterAllowsEvent filter it.1 it.2 = true) : it.1 ∈ allowed filter items :=
  List.mem_map_of_mem (List.mem_filter.mpr ⟨h, ha⟩)

/-- A step of the subscriber, up to what the client has left unread. -/
inductive Subscriber.Move (filter : SubscribeFilter) (p : Pump) (sub : Subscriber) :
    SubscriberLabel → Subscriber → Prop
  | attach {u : Nat} (hphase : sub.phase = .connecting) :
    Move filter p sub .attach { sub with phase := .attached, next := p.sent.length, unread := u }
  | hit {u front : Nat} {slice : List ReplayItem} (hphase : sub.phase = .attached)
    (hlook : lookupReplay front p.buffer (parseResumeRv sub.resumeRv) = some slice) :
    Move filter p sub (.lookup front) { sub with phase := .replaying slice, unread := u }
  | miss {u front : Nat} (hphase : sub.phase = .attached)
    (hlook : lookupReplay front p.buffer (parseResumeRv sub.resumeRv) = none) :
    Move filter p sub (.lookup front) { sub with phase := .missed, unread := u }
  | readCache {u : Nat} {snaps : List ConfigSnapshot} {now : Instant} (hphase : sub.phase = .missed)
    (hnodup : (snaps.map (·.name)).Nodup) :
    Move filter p sub (.readCache snaps now)
      { sub with phase := .snapshotting (snapshotEvents filter now snaps) (maxSnapshotRv snaps),
                 unread := u }
  | readBuffer {u maxRv : Nat} (hphase : sub.phase = .snapshotting [] maxRv) :
    Move filter p sub .readBuffer
      { sub with phase := .replaying (postSnapshotEvents p.buffer maxRv), unread := u }
  | snapshot {u maxRv : Nat} {event : ConfigEvent} {todo : List ConfigEvent}
    (hphase : sub.phase = .snapshotting (event :: todo) maxRv) :
    Move filter p sub .emit
      { sub with phase := .snapshotting todo maxRv, stream := sub.stream ++ [event], unread := u }
  | replay {u : Nat} {it : ReplayItem} {todo : List ReplayItem}
    (hphase : sub.phase = .replaying (it :: todo)) :
    Move filter p sub .emit
      { sub with phase := .replaying todo, stream := sub.stream ++ allowed filter [it], unread := u }
  | bridge {u : Nat} (hphase : sub.phase = .replaying []) :
    Move filter p sub .emit { sub with phase := .bridging, unread := u }
  | recv {u : Nat} {frame : BroadcastFrame} (hphase : sub.phase = .bridging)
    (hframe : p.sent[sub.next]? = some frame) :
    Move filter p sub .recv
      { sub with next := sub.next + 1, stream := sub.stream ++ allowed filter [frame.item], unread := u }
  | take {u : Nat} : Move filter p sub .take { sub with unread := u }
  | close {u n : Nat} {l : SubscriberLabel} (hl : l = .emit ∨ l = .recv ∨ l = .drain) :
    Move filter p sub l { sub with phase := .closed, next := n, unread := u }

theorem Subscriber.step_move {filter : SubscribeFilter} {p : Pump} {sub sub' : Subscriber}
    {l : SubscriberLabel} (h : sub.step filter p l = some sub') : Move filter p sub l sub' := by
  cases l with
  | attach =>
    simp only [Subscriber.step] at h
    split at h
    · cases h
      exact .attach ‹_›
    · cases h
  | lookup front =>
    simp only [Subscriber.step] at h
    split at h
    · split at h
      · cases h
        exact .hit ‹_› ‹_›
      · cases h
        exact .miss ‹_› ‹_›
    · cases h
  | readCache snaps now =>
    simp only [Subscriber.step] at h
    split at h
    · split at h
      · cases h
        exact .readCache ‹_› ‹_›
      · cases h
    · cases h
  | readBuffer =>
    simp only [Subscriber.step] at h
    split at h
    · cases h
      exact .readBuffer ‹_›
    · cases h
  | emit =>
    simp only [Subscriber.step, Subscriber.trySend] at h
    split at h
    · split at h
      · cases h
        exact .snapshot ‹_›
      · cases h
        exact .close (.inl rfl)
    · rename_i event labels todo hphase
      have hone := allowed_singleton filter (event, labels)
      split at h
      · rename_i hallow
        rw [if_pos hallow] at hone
        split at h
        · cases h
          rw [← hone]
          exact .replay hphase
        · cases h
          exact .close (.inl rfl)
      · rename_i hallow
        rw [if_neg hallow] at hone
        cases h
        have hmove : Move filter p sub .emit _ := .replay (u := sub.unread) hphase
        rwa [hone, List.append_nil] at hmove
    · cases h
      exact .bridge ‹_›
    · cases h
  | recv =>
    simp only [Subscriber.step, Subscriber.trySend] at h
    split at h
    · rename_i hphase
      split at h
      · cases h
      · rename_i frame hframe
        have hone : allowed filter [frame.item] =
            if filterAllowsEvent filter frame.event frame.labels then [frame.event] else [] :=
          allowed_singleton filter frame.item
        split at h
        · cases h
          exact .close (.inr (.inl rfl))
        · split at h
          · rename_i hallow
            rw [if_pos hallow] at hone
            split at h
            · cases h
              have hmove : Move filter p sub .recv _ := .recv (u := sub.unread + 1) hphase hframe
              rwa [hone] at hmove
            · cases h
              exact .close (.inr (.inl rfl))
          · rename_i hallow
            rw [if_neg hallow] at hone
            cases h
            have hmove : Move filter p sub .recv _ := .recv (u := sub.unread) hphase hframe
            rwa [hone, List.append_nil] at hmove
    · cases h
  | take =>
    simp only [Subscriber.step] at h
    split at h
    · cases h
      exact .take
    · cases h
  | drain =>
    simp only [Subscriber.step] at h
    split at h
    · cases h
      exact .close (.inr (.inr rfl))
    · cases h

/-- Apart from `take`, what is put into the channel is unread. -/
theorem Subscriber.step_unread {filter : SubscribeFilter} {p : Pump} {sub sub' : Subscriber}
    {l : SubscriberLabel} (h : sub.step filter p l = some sub') (hl : l ≠ .take) :
    sub'.stream.length + sub.unread = sub.stream.length + sub'.unread := by
  have htry : ∀ (s : Subscriber) (e : ConfigEvent), s.stream = sub.stream → s.unread = sub.unread →
      (s.trySend e).stream.length + sub.unread = sub.stream.length + (s.trySend e).unread := by
    intro s e hstream hunread
    unfold Subscriber.trySend
    split
    · simp only [List.length_append, List.length_singleton, hstream, hunread]
      omega
    · simp only [hstream, hunread]
  cases l with
  | take => exact absurd rfl hl
  | attach | lookup | readCache | readBuffer | drain =>
    simp only [Subscriber.step] at h
    repeat' split at h
    all_goals cases h
    all_goals rfl
  | emit =>
    simp only [Subscriber.step] at h
    split at h
    · cases h
      exact htry _ _ rfl rfl
    · split at h
      · cases h
        exact htry _ _ rfl rfl
      · cases h
        rfl
    · cases h
      rfl
    · cases h
  | recv =>
    simp only [Subscriber.step] at h
    repeat' split at h
    all_goals cases h
    · rfl
    · exact htry _ _ rfl rfl
    · rfl

/-! ### Both together -/

structure Session where
  pump : Pump
  sub : Subscriber

inductive SessionLabel
  | pump (l : PumpLabel)
  | sub (l : SubscriberLabel)

def Session.new (resumeRv : String) : Session := { pump := Pump.new, sub := Subscriber.new resumeRv }

def Session.step (coalesced : Bool) (filter : SubscribeFilter) (s : Session) :
    SessionLabel → Option Session
  | .pump l => (s.pump.step coalesced l).map fun pump => { s with pump }
  | .sub l => (s.sub.step filter s.pump l).map fun sub => { s with sub }

theorem Session.step_pump {coalesced : Bool} {filter : SubscribeFilter} {s t : Session} {l : PumpLabel}
    (h : s.step coalesced filter (.pump l) = some t) :
    s.pump.step coalesced l = some t.pump ∧ t.sub = s.sub := by
  obtain ⟨p, hp, rfl⟩ := Option.map_eq_some_iff.mp h
  exact ⟨hp, rfl⟩

theorem Session.step_sub {coalesced : Bool} {filter : SubscribeFilter} {s t : Session}
    {l : SubscriberLabel} (h : s.step coalesced filter (.sub l) = some t) :
    s.sub.step filter s.pump l = some t.sub ∧ t.pump = s.pump := by
  obtain ⟨p, hp, rfl⟩ := Option.map_eq_some_iff.mp h
  exact ⟨hp, rfl⟩

/-- **Induction over a session.**  An invariant kept by the pump's steps and by
the subscriber's, where each meets `C`, holds at the end of every run along `C`. -/
theorem Session.run_kept {coalesced : Bool} {filter : SubscribeFilter}
    (C : Session → SessionLabel → Prop) (Inv : Pump → Subscriber → Prop)
    {s t : Session} {ls : List SessionLabel}
    (hpump : ∀ ls p sub l p', run (Session.step coalesced filter) s ls = some ⟨p, sub⟩ →
      C ⟨p, sub⟩ (.pump l) → Inv p sub → p.step coalesced l = some p' → Inv p' sub)
    (hsub : ∀ ls p sub l sub', run (Session.step coalesced filter) s ls = some ⟨p, sub⟩ →
      C ⟨p, sub⟩ (.sub l) → Inv p sub → sub.Move filter p l sub' → Inv p sub')
    (h0 : Inv s.pump s.sub)
    (h : run (Session.step coalesced filter) s ls = some t)
    (hC : Along (Session.step coalesced filter) (fun _ => C) s ls) : Inv t.pump t.sub := by
  refine run_induction_along (fun _ => C) (fun _ u => Inv u.pump u.sub) h0 ?_ ls t h hC
  intro _ u l v hrun hu hc hstep
  cases l with
  | pump l =>
    obtain ⟨hp, hsame⟩ := Session.step_pump hstep
    rw [hsame]
    exact hpump _ _ _ _ _ hrun hc hu hp
  | sub l =>
    obtain ⟨hs, hsame⟩ := Session.step_sub hstep
    rw [hsame]
    exact hsub _ _ _ _ _ hrun hc hu (Subscriber.step_move hs)

theorem Session.run_inv {coalesced : Bool} {filter : SubscribeFilter}
    (Inv : Pump → Subscriber → Prop)
    (hpump : ∀ p sub l p', Inv p sub → p.step coalesced l = some p' → Inv p' sub)
    (hsub : ∀ p sub l sub', Inv p sub → sub.Move filter p l sub' → Inv p sub')
    {s t : Session} {ls : List SessionLabel} (h0 : Inv s.pump s.sub)
    (h : run (Session.step coalesced filter) s ls = some t) : Inv t.pump t.sub :=
  Session.run_kept (fun _ _ => True) Inv (fun _ p sub l p' _ _ => hpump p sub l p')
    (fun _ p sub l sub' _ _ => hsub p sub l sub') h0 h fun _ _ _ _ _ _ => trivial

theorem Session.buffer_run {coalesced : Bool} {filter : SubscribeFilter} {s t : Session}
    {ls : List SessionLabel} (h0 : s.pump.Inv)
    (h : run (Session.step coalesced filter) s ls = some t) : t.pump.Inv :=
  Session.run_inv (fun p _ => p.Inv) (fun _ _ _ _ => Pump.Inv.step) (fun _ _ _ _ hi _ => hi) h0 h

/-- Every frame is one of a watch event. -/
theorem Session.frames_run {coalesced : Bool} {filter : SubscribeFilter} {resumeRv : String}
    {t : Session} {ls : List SessionLabel}
    (h : run (Session.step coalesced filter) (.new resumeRv) ls = some t) :
    ∀ f ∈ t.pump.pushed, ∃ now event, frameOf now event = some f := by
  refine Session.run_inv (fun p _ => ∀ f ∈ p.pushed, ∃ now event, frameOf now event = some f)
    (fun p _ l p' hi hp => ?_) (fun _ _ _ _ hi _ => hi) (by simp [Session.new, Pump.new, Pump.pushed]) h
  obtain ⟨fs, _, hframes, _, hpushed, _⟩ | ⟨f, _, hpushed, _⟩ := Pump.step_cases hp
  · rw [hpushed]
    intro f hf
    rcases List.mem_append.mp hf with hf | hf
    · exact hi f hf
    · obtain ⟨now, event, _, hframe⟩ := hframes f hf
      exact ⟨now, event, hframe⟩
  · rwa [hpushed]

theorem Session.sent_run {coalesced : Bool} {filter : SubscribeFilter} {s t : Session}
    {ls : List SessionLabel} (h : run (Session.step coalesced filter) s ls = some t) :
    s.pump.sent <+: t.pump.sent :=
  Session.run_inv (fun p _ => s.pump.sent <+: p.sent)
    (fun _ _ _ _ hi hp => hi.trans (Pump.sent_grows hp)) (fun _ _ _ _ hi _ => hi)
    (List.prefix_refl _) h

theorem Subscriber.Move.resumeRv_eq {filter : SubscribeFilter} {p : Pump} {sub sub' : Subscriber}
    {l : SubscriberLabel} (hm : sub.Move filter p l sub') : sub'.resumeRv = sub.resumeRv := by
  cases hm <;> rfl

theorem Subscriber.Move.stream_grows {filter : SubscribeFilter} {p : Pump} {sub sub' : Subscriber}
    {l : SubscriberLabel} (hm : sub.Move filter p l sub') : sub.stream <+: sub'.stream := by
  cases hm with
  | snapshot | replay | recv => exact List.prefix_append _ _
  | attach | hit | miss | readCache | readBuffer | bridge | take | close => exact List.prefix_refl _

theorem Session.resumeRv_run {coalesced : Bool} {filter : SubscribeFilter} {s t : Session}
    {ls : List SessionLabel} (h : run (Session.step coalesced filter) s ls = some t) :
    t.sub.resumeRv = s.sub.resumeRv :=
  Session.run_inv (fun _ sub => sub.resumeRv = s.sub.resumeRv) (fun _ _ _ _ hi _ => hi)
    (fun _ _ _ _ hi hm => hm.resumeRv_eq.trans hi) rfl h

/-! ### Up to the snapshot -/

/-- What a subscriber has done before it replays anything. -/
def Early (filter : SubscribeFilter) (sent : List BroadcastFrame) (sub : Subscriber) : Prop :=
  match sub.phase with
  | .connecting => sub.stream = []
  | .attached | .missed => sub.stream = [] ∧ sub.next ≤ sent.length
  | .snapshotting todo maxRv => sub.next ≤ sent.length ∧ ∃ now snaps,
      (snaps.map ConfigSnapshot.name).Nodup ∧ snapshotEvents filter now snaps = sub.stream ++ todo ∧
      maxRv = maxSnapshotRv snaps
  | _ => True

theorem Early.mono {filter : SubscribeFilter} {sent sent' : List BroadcastFrame} {sub : Subscriber}
    (he : Early filter sent sub) (hsent : sent <+: sent') : Early filter sent' sub := by
  have hlen := hsent.length_le
  unfold Early at he ⊢
  cases hphase : sub.phase with
  | attached | missed =>
    simp only [hphase] at he ⊢
    exact ⟨he.1, by omega⟩
  | snapshotting todo maxRv =>
    simp only [hphase] at he ⊢
    exact ⟨by omega, he.2⟩
  | connecting => simpa only [hphase] using he
  | replaying | bridging | closed => trivial

theorem Early.move {filter : SubscribeFilter} {p : Pump} {sub sub' : Subscriber}
    {l : SubscriberLabel} (he : Early filter p.sent sub) (hm : sub.Move filter p l sub') :
    Early filter p.sent sub' := by
  cases hm with
  | attach hphase =>
    simp only [Early, hphase] at he ⊢
    exact ⟨he, le_rfl⟩
  | miss hphase _ => simpa only [Early, hphase] using he
  | readCache hphase hnodup =>
    simp only [Early, hphase] at he ⊢
    exact ⟨he.2, _, _, hnodup, by rw [he.1, List.nil_append], rfl⟩
  | snapshot hphase =>
    simp only [Early, hphase] at he ⊢
    obtain ⟨hnext, now, snaps, hnodup, hstream, hmax⟩ := he
    exact ⟨hnext, now, snaps, hnodup, by rw [hstream, List.append_assoc]; rfl, hmax⟩
  | take => exact he
  | recv hphase => simp only [Early, hphase]
  | hit | readBuffer | replay | bridge | close => trivial

theorem early_run {coalesced : Bool} {filter : SubscribeFilter} {resumeRv : String} {t : Session}
    {ls : List SessionLabel} (h : run (Session.step coalesced filter) (.new resumeRv) ls = some t) :
    Early filter t.pump.sent t.sub :=
  Session.run_inv (fun p sub => Early filter p.sent sub)
    (fun _ _ _ _ he hp => he.mono (Pump.sent_grows hp)) (fun _ _ _ _ he hm => he.move hm)
    (by rfl) h

/-! ### What a subscriber has been fed -/

/-- The subscriber began to replay `slice` with its receiver at `start` and
`base` in its channel: what it has put there since. -/
def Feed (filter : SubscribeFilter) (base : List ConfigEvent) (slice : List ReplayItem) (start : Nat)
    (sent : List BroadcastFrame) (sub : Subscriber) : Prop :=
  match sub.phase with
  | .replaying todo => sub.next = start ∧ start ≤ sent.length ∧
      ∃ done, slice = done ++ todo ∧ sub.stream = base ++ allowed filter done
  | .bridging => start ≤ sub.next ∧ sub.next ≤ sent.length ∧
      sub.stream = base ++ allowed filter slice ++
        allowed filter (((sent.take sub.next).drop start).map BroadcastFrame.item)
  | .closed => True
  | _ => False

theorem Feed.mono {filter : SubscribeFilter} {base : List ConfigEvent} {slice : List ReplayItem}
    {start : Nat} {sent sent' : List BroadcastFrame} {sub : Subscriber}
    (hf : Feed filter base slice start sent sub) (hsent : sent <+: sent') :
    Feed filter base slice start sent' sub := by
  obtain ⟨rest, rfl⟩ := hsent
  unfold Feed at hf ⊢
  cases hphase : sub.phase with
  | replaying todo =>
    simp only [hphase] at hf ⊢
    obtain ⟨hnext, hle, hdone⟩ := hf
    exact ⟨hnext, by rw [List.length_append]; omega, hdone⟩
  | bridging =>
    simp only [hphase] at hf ⊢
    obtain ⟨hstart, hle, hstream⟩ := hf
    refine ⟨hstart, by rw [List.length_append]; omega, ?_⟩
    rw [hstream, List.take_append_of_le_length hle]
  | closed => trivial
  | connecting | attached | missed | snapshotting => simp only [hphase] at hf

theorem Feed.move {filter : SubscribeFilter} {base : List ConfigEvent} {slice : List ReplayItem}
    {start : Nat} {p : Pump} {sub sub' : Subscriber} {l : SubscriberLabel}
    (hf : Feed filter base slice start p.sent sub) (hm : sub.Move filter p l sub') :
    Feed filter base slice start p.sent sub' := by
  cases hm with
  -- nothing has been fed before the slice is known
  | attach hphase | hit hphase _ | miss hphase _ | readCache hphase _ | readBuffer hphase
  | snapshot hphase => simp only [Feed, hphase] at hf
  | replay hphase =>
    rename_i u it todo
    simp only [Feed, hphase] at hf ⊢
    obtain ⟨hnext, hle, done, hslice, hstream⟩ := hf
    refine ⟨hnext, hle, done ++ [it], by rw [hslice, List.append_assoc]; rfl, ?_⟩
    rw [hstream, allowed_append, List.append_assoc]
  | bridge hphase =>
    simp only [Feed, hphase] at hf ⊢
    obtain ⟨hnext, hle, done, hslice, hstream⟩ := hf
    rw [List.append_nil] at hslice
    refine ⟨hnext.ge, by omega, ?_⟩
    rw [hstream, hslice, hnext, List.drop_eq_nil_of_le (List.length_take_le _ _), List.map_nil, allowed_nil,
      List.append_nil]
  | recv hphase hframe =>
    rename_i u frame
    simp only [Feed, hphase] at hf ⊢
    obtain ⟨hstart, hle, hstream⟩ := hf
    obtain ⟨hlt, hget⟩ := List.getElem?_eq_some_iff.mp hframe
    refine ⟨by omega, by omega, ?_⟩
    rw [hstream, List.take_add_one, hframe, Option.toList_some,
      List.drop_append_of_le_length (by rw [List.length_take]; omega), List.map_append,
      allowed_append, List.append_assoc]
    rfl
  | take => exact hf
  | close => trivial

/-- A hit starts the replay of the slice found. -/
theorem Feed.of_lookup {filter : SubscribeFilter} {front : Nat} {slice : List ReplayItem} {p : Pump}
    {sub sub' : Subscriber} (he : Early filter p.sent sub)
    (hlook : lookupReplay front p.buffer (parseResumeRv sub.resumeRv) = some slice)
    (hm : sub.Move filter p (.lookup front) sub') :
    sub'.phase = .replaying slice ∧ sub.next ≤ p.sent.length ∧
      Feed filter [] slice sub.next p.sent sub' := by
  cases hm with
  | hit hphase hlook' =>
    obtain rfl := Option.some.inj (hlook.symm.trans hlook')
    simp only [Early, hphase] at he
    exact ⟨rfl, he.2, rfl, he.2, [], rfl, he.1⟩
  | miss _ hlook' =>
    rw [hlook] at hlook'
    cases hlook'
  | close hl => simp at hl

theorem feed_run {coalesced : Bool} {filter : SubscribeFilter} {base : List ConfigEvent}
    {slice : List ReplayItem} {start : Nat} {s t : Session} {ls : List SessionLabel}
    (hf : Feed filter base slice start s.pump.sent s.sub)
    (h : run (Session.step coalesced filter) s ls = some t) :
    Feed filter base slice start t.pump.sent t.sub :=
  Session.run_inv (fun p sub => Feed filter base slice start p.sent sub)
    (fun _ _ _ _ hf hp => hf.mono (Pump.sent_grows hp)) (fun _ _ _ _ hf hm => hf.move hm) hf h

end Konfig
