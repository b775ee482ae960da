import Konfig.Lib.Machine

/-!
# Draining

`begin_drain` (`grpc/mod.rs`) sets the flag that new calls check, and then wakes the
stream tasks once.  A task can be woken while it is in its `select!`; at any other
point (the handler past `check_drain`, the snapshot, the start of a raw watch, the
handling of a frame) its `Notified` does not exist, and the loop that it enters
afterwards does not look at the flag.

* `DrainServer.step`: any number of streams beside `begin_drain`.
* `drain_closes_iff`: no task is left waiting exactly when none enters its loop after
  the one notification.
* `punctual_of_orderly`: that is so when every task is in its loop when the
  notification comes, and leaves by it.
-/

namespace Konfig

open Lib

/-! ### The calls -/

/-- The streams that wait for a drain. -/
inductive StreamKind
  /-- `Subscribe`: the loop of `bridge_broadcast`. -/
  | config
  /-- `SubscribeSecrets`: its own `bridge_broadcast`. -/
  | secret
  /-- `SubscribeSecrets` with a resume version: the loop of `run_raw_watch`. -/
  | secretResume
  deriving DecidableEq, Repr

/-- Where a call is. -/
inductive CallPhase
  /-- Before `check_drain`. -/
  | entering
  /-- Past it, in the handler. -/
  | admitted
  /-- The snapshot or the replay is sent. -/
  | sending
  /-- The raw watch is being started. -/
  | starting
  /-- In the `select!`: a `Notified` exists, and has been woken or not. -/
  | parked (woken : Bool)
  /-- A frame has been received; the `Notified` is dropped. -/
  | handling
  | closed
  deriving DecidableEq, Repr

structure StreamCall where
  kind : StreamKind
  phase : CallPhase
  deriving DecidableEq, Repr

/-- Where the task goes on by itself. -/
def StreamCall.next (c : StreamCall) : Option CallPhase :=
  match c.phase with
  | .admitted => some .sending
  | .sending =>
    match c.kind with
    | .secretResume => some .starting
    | .config | .secret => some (.parked false)
  | .starting => some (.parked false)
  | .handling => some (.parked false)
  | .entering | .parked _ | .closed => none

/-- `notify_waiters`, for one call: only a `Notified` that exists is woken. -/
def StreamCall.notify (c : StreamCall) : StreamCall :=
  match c.phase with
  | .parked _ => { c with phase := .parked true }
  | _ => c

/-! ### The server -/

/-- `notifying`: `begin_drain` has set the flag and not yet woken anyone. -/
structure DrainServer where
  draining : Bool
  notifying : Bool
  calls : List StreamCall
  deriving DecidableEq, Repr

def DrainServer.new : DrainServer := { draining := false, notifying := false, calls := [] }

inductive DrainLabel
  | arrive (kind : StreamKind)
  /-- `check_drain`. -/
  | check (i : Nat)
  | advance (i : Nat)
  /-- The `select!` takes the branch of the frame. -/
  | frame (i : Nat)
  /-- The `select!` takes the branch of the drain. -/
  | wake (i : Nat)
  /-- The call fails, its client is too slow or gone, or its source ends. -/
  | close (i : Nat)
  /-- The `compare_exchange` of `begin_drain`. -/
  | beginDrain
  | notifyWaiters
  deriving DecidableEq, Repr

/-- Put a call into a phase. -/
def DrainServer.put (s : DrainServer) (i : Nat) (c : StreamCall) (phase : CallPhase) : DrainServer :=
  { s with calls := s.calls.set i { c with phase } }

def DrainServer.step (s : DrainServer) : DrainLabel → Option DrainServer
  | .arrive kind => some { s with calls := s.calls ++ [⟨kind, .entering⟩] }
  | .check i =>
    match s.calls[i]? with
    | some c =>
      match c.phase with
      | .entering => some (s.put i c (if s.draining then .closed else .admitted))
      | _ => none
    | none => none
  | .advance i =>
    match s.calls[i]? with
    | some c => c.next.map (s.put i c)
    | none => none
  | .frame i =>
    match s.calls[i]? with
    | some c =>
      match c.phase with
      -- a woken task may take this branch too, when a frame is there
      | .parked _ => some (s.put i c .handling)
      | _ => none
    | none => none
  | .wake i =>
    match s.calls[i]? with
    | some c =>
      match c.phase with
      | .parked true => some (s.put i c .closed)
      | _ => none
    | none => none
  | .close i =>
    match s.calls[i]? with
    | some c =>
      match c.phase with
      | .entering | .closed => none
      | _ => some (s.put i c .closed)
    | none => none
  | .beginDrain =>
    if s.draining then some s else some { s with draining := true, notifying := true }
  | .notifyWaiters =>
    if s.notifying then some { s with notifying := false, calls := s.calls.map StreamCall.notify } else none

/-! ### What a step can do -/

/-- The transitions of `DrainServer.step`. -/
inductive DrainServer.Move (s : DrainServer) : DrainLabel → DrainServer → Prop
  | arrive {kind : StreamKind} : Move s (.arrive kind) { s with calls := s.calls ++ [⟨kind, .entering⟩] }
  | check {i : Nat} {c : StreamCall} (hc : s.calls[i]? = some c) (hphase : c.phase = .entering) :
      Move s (.check i) (s.put i c (if s.draining then .closed else .admitted))
  | advance {i : Nat} {c : StreamCall} {phase : CallPhase} (hc : s.calls[i]? = some c)
      (hnext : c.next = some phase) : Move s (.advance i) (s.put i c phase)
  | frame {i : Nat} {c : StreamCall} {woken : Bool} (hc : s.calls[i]? = some c)
      (hphase : c.phase = .parked woken) : Move s (.frame i) (s.put i c .handling)
  | close {i : Nat} {c : StreamCall} {l : DrainLabel} (hc : s.calls[i]? = some c)
      (hl : l = .wake i ∨ l = .close i) : Move s l (s.put i c .closed)
  | again (hd : s.draining = true) : Move s .beginDrain s
  | beginDrain (hd : s.draining = false) :
      Move s .beginDrain { s with draining := true, notifying := true }
  | notify (hn : s.notifying = true) :
      Move s .notifyWaiters { s with notifying := false, calls := s.calls.map StreamCall.notify }

theorem DrainServer.move_of_step {s t : DrainServer} {l : DrainLabel} (h : s.step l = some t) :
    s.Move l t := by
  cases l with
  | arrive kind =>
    cases h
    exact .arrive
  | check i =>
    simp only [DrainServer.step] at h
    split at h
    · split at h
      · cases h
        exact .check ‹_› ‹_›
      · cases h
    · cases h
  | advance i =>
    simp only [DrainServer.step] at h
    split at h
    · obtain ⟨phase, hnext, rfl⟩ := Option.map_eq_some_iff.mp h
      exact .advance ‹_› hnext
    · cases h
  | frame i =>
    simp only [DrainServer.step] at h
    split at h
    · split at h
      · cases h
        exact .frame ‹_› ‹_›
      · cases h
    · cases h
  | wake i =>
    simp only [DrainServer.step] at h
    split at h
    · split at h
      · cases h
        exact .close ‹_› (Or.inl rfl)
      · cases h
    · cases h
  | close i =>
    simp only [DrainServer.step] at h
    split at h
    · split at h
      · cases h
      · cases h
      · cases h
        exact .close ‹_› (Or.inr rfl)
    · cases h
  | beginDrain =>
    simp only [DrainServer.step] at h
    split at h
    · cases h
      exact .again ‹_›
    · rename_i hd
      cases h
      exact .beginDrain (Bool.not_eq_true _ ▸ hd)
  | notifyWaiters =>
    simp only [DrainServer.step] at h
    split at h
    · cases h
      exact .notify ‹_›
    · cases h

/-- A call after one call was put into a phase. -/
theorem DrainServer.mem_put {s : DrainServer} {i : Nat} {c d : StreamCall} {phase : CallPhase}
    (h : d ∈ (s.put i c phase).calls) : d ∈ s.calls ∨ d = { c with phase } :=
  List.mem_or_eq_of_mem_set h

theorem DrainServer.put_mem {s : DrainServer} {i : Nat} {c : StreamCall} {phase : CallPhase}
    (hc : s.calls[i]? = some c) : { c with phase } ∈ (s.put i c phase).calls := by
  obtain ⟨hlt, _⟩ := List.getElem?_eq_some_iff.mp hc
  exact List.mem_iff_getElem.mpr ⟨i, by rw [DrainServer.put, List.length_set]; exact hlt, by simp [DrainServer.put]⟩

/-! ### No stream is left waiting -/

/-- **Every stream is answered**: when the server drains and has notified, no task is in
its `select!` without having been woken. -/
def DrainServer.Answered (s : DrainServer) : Prop :=
  s.draining = true → s.notifying = false → ∀ c ∈ s.calls, c.phase ≠ .parked false

/-- The task does not enter its loop after the notification. -/
def DrainServer.Punctual (s : DrainServer) : DrainLabel → Prop
  | .advance i => s.draining = true → s.notifying = false → ∀ c ∈ s.calls[i]?, c.next ≠ some (.parked false)
  | _ => True

instance (s : DrainServer) : ∀ l, Decidable (DrainServer.Punctual s l)
  | .advance _ => inferInstanceAs (Decidable (_ → _))
  | .arrive _ | .check _ | .frame _ | .wake _ | .close _ | .beginDrain | .notifyWaiters => isTrue trivial

/-- A call that is put into another phase than an unwoken `select!`. -/
theorem DrainServer.Answered.put {s : DrainServer} {i : Nat} {c : StreamCall} {phase : CallPhase}
    (hs : s.Answered) (hphase : s.draining = true → s.notifying = false → phase ≠ .parked false) :
    (s.put i c phase).Answered := by
  intro hd hn d hmem
  rcases DrainServer.mem_put hmem with hmem | rfl
  · exact hs hd hn d hmem
  · exact hphase hd hn

theorem StreamCall.notify_phase (c : StreamCall) : c.notify.phase ≠ .parked false := by
  unfold StreamCall.notify
  split
  · exact nofun
  · rename_i hnot
    exact hnot false

theorem DrainServer.Answered.step {s t : DrainServer} {l : DrainLabel} (hs : s.Answered)
    (h : s.step l = some t) (hp : s.Punctual l) : t.Answered := by
  cases DrainServer.move_of_step h with
  | arrive =>
    intro hd hn c hc
    rcases List.mem_append.mp hc with hc | hc
    · exact hs hd hn c hc
    · rw [List.mem_singleton.mp hc]
      exact nofun
  | check hc hphase =>
    refine hs.put fun _ _ => ?_
    split
    · exact nofun
    · exact nofun
  | advance hc hnext =>
    refine hs.put fun hd hn heq => ?_
    exact hp hd hn _ hc (heq ▸ hnext)
  | frame hc hphase => exact hs.put fun _ _ => nofun
  | close hc hl => exact hs.put fun _ _ => nofun
  | again hd => exact hs
  | beginDrain hd => exact fun _ hn => by cases hn
  | notify hn =>
    intro _ _ c hc
    obtain ⟨d, _, rfl⟩ := List.mem_map.mp hc
    exact d.notify_phase

/-- A task that enters its loop after the notification is not answered. -/
theorem DrainServer.not_answered {s t : DrainServer} {l : DrainLabel} (h : s.step l = some t)
    (hp : ¬ s.Punctual l) : ¬ t.Answered := by
  cases DrainServer.move_of_step h with
  | @advance i c phase hc hnext =>
    intro ht
    refine hp fun hd hn d hd' heq => ?_
    rw [hc, Option.mem_def, Option.some.injEq] at hd'
    subst hd'
    rw [hnext, Option.some.injEq] at heq
    exact ht hd hn _ (DrainServer.put_mem hc) heq
  | arrive => exact absurd trivial hp
  | check _ _ => exact absurd trivial hp
  | frame _ _ => exact absurd trivial hp
  | close _ hl => rcases hl with rfl | rfl <;> exact absurd trivial hp
  | again _ => exact absurd trivial hp
  | beginDrain _ => exact absurd trivial hp
  | notify _ => exact absurd trivial hp

/-- **A drain leaves no stream waiting, in any state of a run, exactly when no task enters
its loop after the notification.** -/
theorem drain_closes_iff (labels : List DrainLabel) (s : DrainServer)
    (hrun : run DrainServer.step .new labels = some s) :
    (∀ pre m, pre <+: labels → run DrainServer.step .new pre = some m → m.Answered) ↔
      Along DrainServer.step (fun _ => DrainServer.Punctual) .new labels := by
  constructor
  · rintro hall pre l post m rfl hm
    by_contra hp
    obtain ⟨m', t, hm', ht, _⟩ := run_append_cons.mp hrun
    obtain rfl : m' = m := Option.some.inj (hm'.symm.trans hm)
    refine DrainServer.not_answered ht hp (hall (pre ++ [l]) t ⟨post, by simp⟩ ?_)
    exact run_snoc.mpr ⟨m', hm', ht⟩
  · rintro hp pre m ⟨post, rfl⟩ hm
    refine run_induction_along (fun _ => DrainServer.Punctual) (fun _ m => m.Answered) ?_ ?_ pre m hm hp.left
    · exact fun hd => by cases hd
    · exact fun _ _ _ _ _ ih hc hstep => ih.step hstep hc

/-- A stream is woken in its loop, and a new call is turned away. -/
def orderlyDrain : List DrainLabel :=
  [.arrive .config, .check 0, .advance 0, .advance 0, .frame 0, .advance 0, .beginDrain, .notifyWaiters,
    .arrive .secret, .check 1, .wake 0]

theorem orderly_drain_closes : ∃ s, run DrainServer.step .new orderlyDrain = some s ∧
    s.draining = true ∧ s.calls.map StreamCall.phase = [.closed, .closed] ∧
    ∀ pre m, pre <+: orderlyDrain → run DrainServer.step .new pre = some m → m.Answered := by
  obtain ⟨s, hs, hread⟩ := (Option.any_eq_true _ _).mp
    (show (run DrainServer.step .new orderlyDrain).any (fun s =>
      s.draining && decide (s.calls.map StreamCall.phase = [.closed, .closed])) = true by decide +kernel)
  rw [Bool.and_eq_true, decide_eq_true_eq] at hread
  exact ⟨s, hs, hread.1, hread.2, (drain_closes_iff orderlyDrain s hs).mpr (by decide +kernel)⟩

/-- A call is past `check_drain` when the drain begins, and enters its loop after the
notification. -/
def lateStream : List DrainLabel :=
  [.arrive .config, .check 0, .beginDrain, .notifyWaiters, .advance 0, .advance 0]

theorem drain_misses_stream :
    ¬ ∀ (labels : List DrainLabel) (s : DrainServer), run DrainServer.step .new labels = some s →
      s.Answered := by
  intro hall
  have hs : run DrainServer.step .new lateStream =
      some { draining := true, notifying := false, calls := [⟨.config, .parked false⟩] } := by
    decide +kernel
  exact hall lateStream _ hs rfl rfl _ (List.mem_singleton.mpr rfl) rfl

/-- So does a stream that was in its loop, was woken, and took the frame that was there. -/
example : run DrainServer.step .new
    [.arrive .secret, .check 0, .advance 0, .advance 0, .beginDrain, .notifyWaiters, .frame 0, .advance 0] =
      some { draining := true, notifying := false, calls := [⟨.secret, .parked false⟩] } := by
  decide +kernel

/-! ### When the notification comes in time -/

/-- Every task is in its loop when the notification comes, and a woken one leaves. -/
def DrainServer.Orderly (s : DrainServer) : DrainLabel → Prop
  | .notifyWaiters => ∀ c ∈ s.calls, c.next = none
  | .frame i => ∀ c ∈ s.calls[i]?, c.phase ≠ .parked true
  | _ => True

/-- After the notification no task is on its way to its loop. -/
def DrainServer.Settled (s : DrainServer) : Prop :=
  s.draining = true → s.notifying = false → ∀ c ∈ s.calls, c.next = none ∧ c.phase ≠ .parked false

theorem StreamCall.notify_next {c : StreamCall} (h : c.next = none) : c.notify.next = none := by
  unfold StreamCall.notify
  split
  · rfl
  · exact h

theorem DrainServer.Settled.put {s : DrainServer} {i : Nat} {c : StreamCall} {phase : CallPhase}
    (hs : s.Settled) (hphase : s.draining = true → s.notifying = false →
      StreamCall.next { c with phase } = none ∧ phase ≠ .parked false) : (s.put i c phase).Settled := by
  intro hd hn d hmem
  rcases DrainServer.mem_put hmem with hmem | rfl
  · exact hs hd hn d hmem
  · exact hphase hd hn

theorem DrainServer.Settled.step {s t : DrainServer} {l : DrainLabel} (hs : s.Settled)
    (h : s.step l = some t) (ho : s.Orderly l) : t.Settled := by
  cases DrainServer.move_of_step h with
  | arrive =>
    intro hd hn c hc
    rcases List.mem_append.mp hc with hc | hc
    · exact hs hd hn c hc
    · rw [List.mem_singleton.mp hc]
      exact ⟨rfl, nofun⟩
  | check hc hphase =>
    refine hs.put fun hd _ => ?_
    rw [if_pos hd]
    exact ⟨rfl, nofun⟩
  | advance hc hnext =>
    refine hs.put fun hd hn => ?_
    rw [(hs hd hn _ (List.mem_of_getElem? hc)).1] at hnext
    cases hnext
  | @frame i c woken hc hphase =>
    refine hs.put fun hd hn => ?_
    have hwoken := (hs hd hn c (List.mem_of_getElem? hc)).2
    rw [hphase] at hwoken
    cases woken with
    | true => exact absurd hphase (ho c hc)
    | false => exact absurd rfl hwoken
  | close hc hl => exact hs.put fun _ _ => ⟨rfl, nofun⟩
  | again hd => exact hs
  | beginDrain hd => exact fun _ hn => by cases hn
  | notify hn =>
    intro _ _ c hc
    obtain ⟨d, hd, rfl⟩ := List.mem_map.mp hc
    exact ⟨StreamCall.notify_next (ho d hd), d.notify_phase⟩

/-- In an orderly run no task enters its loop after the notification. -/
theorem punctual_of_orderly {labels : List DrainLabel}
    (ho : Along DrainServer.step (fun _ => DrainServer.Orderly) .new labels) :
    Along DrainServer.step (fun _ => DrainServer.Punctual) .new labels := by
  rintro pre l post m rfl hm
  have hset : m.Settled := by
    refine run_induction_along (fun _ => DrainServer.Orderly) (fun _ m => m.Settled) ?_ ?_ pre m hm ho.left
    · exact fun hd => by cases hd
    · exact fun _ _ _ _ _ ih hc hstep => ih.step hstep hc
  cases l with
  | advance i =>
    intro hd hn c hc
    rw [(hset hd hn c (List.mem_of_getElem? hc)).1]
    exact nofun
  | arrive kind => trivial
  | check i => trivial
  | frame i => trivial
  | wake i => trivial
  | close i => trivial
  | beginDrain => trivial
  | notifyWaiters => trivial

end Konfig
