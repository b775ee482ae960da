import Konfig.Lib.Machine

/-!
# A sender that disconnects a slow reader

A task writes to a bounded channel without ever waiting.  A write that finds the
channel full is dropped, and the sender gives up: it tries to write one last
error, into the same channel, and then drops its end.  The reader sees what was
put into the channel in order, and after that the end of the stream.

`Emitter.step` is the channel with both ends.  The refused write and the write of
the error are two steps, so the reader may take something between them.

* `said`: everything that was put into the channel.
* `Tells`: a loss is answered with an error at the end of what was said.
  `Tells.step`: kept while every error finds room and no loss is passed over
  (`Emitter.Heard`).
-/

namespace Lib

variable {ε α : Type}

/-- What the sender is at. -/
inductive EmitterStage (ε : Type)
  | running
  /-- Something was dropped; the error `e` is to be written next. -/
  | failing (e : ε)
  /-- The sending end is dropped. -/
  | ended
  deriving DecidableEq, Repr

/-- A bounded channel with its sender and its reader.  `lost` is a history
variable: something the sender had to deliver was dropped. -/
structure Emitter (ε α : Type) where
  stage : EmitterStage ε
  queue : List (Except ε α)
  received : List (Except ε α)
  lost : Bool
  /-- The reading end is dropped. -/
  gone : Bool

inductive EmitterLabel (ε α : Type)
  /-- Try to write one item. -/
  | offer (a : α)
  /-- Items were lost upstream; give up with the error `e`. -/
  | abort (e : ε)
  /-- Items were lost upstream; give up without a word. -/
  | abandon
  /-- Try to write the error. -/
  | report
  /-- End the stream cleanly. -/
  | finish
  | take
  | hangUp

/-- The item that is offered. -/
def EmitterLabel.item {ε α : Type} : EmitterLabel ε α → Option α
  | .offer a => some a
  | _ => none

namespace Emitter

def new : Emitter ε α :=
  { stage := .running, queue := [], received := [], lost := false, gone := false }

/-- `full` is the error of a refused write. -/
def step (capacity : Nat) (full : ε) (m : Emitter ε α) : EmitterLabel ε α → Option (Emitter ε α)
  | .offer a =>
    match m.stage with
    | .running =>
      if m.gone then some { m with stage := .ended }
      else if m.queue.length < capacity then some { m with queue := m.queue ++ [.ok a] }
      else some { m with stage := .failing full, lost := true }
    | _ => none
  | .abort e =>
    match m.stage with
    | .running => some { m with stage := .failing e, lost := true }
    | _ => none
  | .abandon =>
    match m.stage with
    | .running => some { m with stage := .ended, lost := true }
    | _ => none
  | .report =>
    match m.stage with
    | .failing e =>
      if m.gone = false ∧ m.queue.length < capacity then
        some { m with stage := .ended, queue := m.queue ++ [.error e] }
      else some { m with stage := .ended }
    | _ => none
  | .finish =>
    match m.stage with
    | .running => some { m with stage := .ended }
    | _ => none
  | .take =>
    if m.gone then none
    else
      match m.queue with
      | [] => none
      | x :: rest => some { m with queue := rest, received := m.received ++ [x] }
  | .hangUp => some { m with gone := true }

/-- Everything that was put into the channel. -/
def said (m : Emitter ε α) : List (Except ε α) := m.received ++ m.queue

/-- The items among it. -/
def items (m : Emitter ε α) : List α := m.said.filterMap Except.toOption

/-- The reader has come to the end of the stream. -/
def Finished (m : Emitter ε α) : Prop := m.stage = .ended ∧ m.queue = [] ∧ m.gone = false

variable {capacity : Nat} {full : ε} {m n : Emitter ε α} {l : EmitterLabel ε α}

/-! ### What a step can do -/

/-- The transitions of `Emitter.step`. -/
inductive Move (capacity : Nat) (full : ε) (m : Emitter ε α) : EmitterLabel ε α → Emitter ε α → Prop
  | unread {a : α} (hrun : m.stage = .running) (hg : m.gone = true) :
      Move capacity full m (.offer a) { m with stage := .ended }
  | written {a : α} (hrun : m.stage = .running) (hg : m.gone = false)
      (hroom : m.queue.length < capacity) :
      Move capacity full m (.offer a) { m with queue := m.queue ++ [.ok a] }
  | refused {a : α} (hrun : m.stage = .running) (hg : m.gone = false)
      (hfull : capacity ≤ m.queue.length) :
      Move capacity full m (.offer a) { m with stage := .failing full, lost := true }
  | abort {e : ε} (hrun : m.stage = .running) :
      Move capacity full m (.abort e) { m with stage := .failing e, lost := true }
  | abandon (hrun : m.stage = .running) :
      Move capacity full m .abandon { m with stage := .ended, lost := true }
  | told {e : ε} (hfail : m.stage = .failing e) (hg : m.gone = false)
      (hroom : m.queue.length < capacity) :
      Move capacity full m .report { m with stage := .ended, queue := m.queue ++ [.error e] }
  | untold {e : ε} (hfail : m.stage = .failing e)
      (hnot : m.gone = true ∨ capacity ≤ m.queue.length) :
      Move capacity full m .report { m with stage := .ended }
  | finish (hrun : m.stage = .running) : Move capacity full m .finish { m with stage := .ended }
  | take {x : Except ε α} {rest : List (Except ε α)} (hg : m.gone = false) (hq : m.queue = x :: rest) :
      Move capacity full m .take { m with queue := rest, received := m.received ++ [x] }
  | hangUp : Move capacity full m .hangUp { m with gone := true }

theorem move_of_step (h : m.step capacity full l = some n) : Move capacity full m l n := by
  cases l with
  | offer a =>
    simp only [step] at h
    split at h
    · rename_i hrun
      split at h
      · rename_i hg
        cases h
        exact .unread hrun hg
      · rename_i hg
        rw [Bool.not_eq_true] at hg
        split at h
        · rename_i hroom
          cases h
          exact .written hrun hg hroom
        · rename_i hfull
          cases h
          exact .refused hrun hg (Nat.not_lt.mp hfull)
    · cases h
  | abort e =>
    simp only [step] at h
    split at h
    · cases h
      exact .abort ‹_›
    · cases h
  | abandon =>
    simp only [step] at h
    split at h
    · cases h
      exact .abandon ‹_›
    · cases h
  | report =>
    simp only [step] at h
    split at h
    · rename_i e hfail
      split at h
      · rename_i hc
        cases h
        exact .told hfail hc.1 hc.2
      · rename_i hc
        cases h
        refine .untold hfail ?_
        cases hg : m.gone with
        | true => exact Or.inl rfl
        | false => exact Or.inr (Nat.not_lt.mp fun hlt => hc ⟨hg, hlt⟩)
    · cases h
  | finish =>
    simp only [step] at h
    split at h
    · cases h
      exact .finish ‹_›
    · cases h
  | take =>
    simp only [step] at h
    split at h
    · cases h
    · rename_i hg
      split at h
      · cases h
      · rename_i x rest hq
        cases h
        exact .take (by simpa using hg) hq
  | hangUp =>
    simp only [step, Option.some.injEq] at h
    rw [← h]
    exact .hangUp

/-- Taking an item does not change what was said. -/
theorem said_take {x : Except ε α} {rest : List (Except ε α)} (hq : m.queue = x :: rest) :
    ({ m with queue := rest, received := m.received ++ [x] } : Emitter ε α).said = m.said := by
  simp [said, hq]

theorem said_push (x : Except ε α) :
    ({ m with queue := m.queue ++ [x] } : Emitter ε α).said = m.said ++ [x] := by
  simp [said]

theorem items_take {x : Except ε α} {rest : List (Except ε α)} (hq : m.queue = x :: rest) :
    ({ m with queue := rest, received := m.received ++ [x] } : Emitter ε α).items = m.items := by
  rw [items, items, said_take hq]

theorem items_push (a : α) :
    ({ m with queue := m.queue ++ [.ok a] } : Emitter ε α).items = m.items ++ [a] := by
  rw [items, items, said_push, List.filterMap_append]
  rfl

/-- An offered item is in the channel, or the sender has stopped. -/
theorem items_of_offer {a : α} (h : m.step capacity full (.offer a) = some n) :
    (n.stage = .running ∧ n.items = m.items ++ [a]) ∨ (n.stage ≠ .running ∧ n.items = m.items) := by
  cases move_of_step h with
  | unread _ _ => exact Or.inr ⟨nofun, rfl⟩
  | written hrun _ _ => exact Or.inl ⟨hrun, items_push a⟩
  | refused _ _ _ => exact Or.inr ⟨nofun, rfl⟩

/-- No other step changes the items. -/
theorem items_of_quiet (h : m.step capacity full l = some n) (hl : ∀ a, l ≠ .offer a) :
    n.items = m.items := by
  cases move_of_step h with
  | unread _ _ => exact absurd rfl (hl _)
  | written _ _ _ => exact absurd rfl (hl _)
  | refused _ _ _ => exact absurd rfl (hl _)
  | abort _ => rfl
  | abandon _ => rfl
  | told _ _ _ =>
    rw [items, items, said, ← List.append_assoc, List.filterMap_append]
    exact List.append_nil _
  | untold _ _ => rfl
  | finish _ => rfl
  | take _ hq => exact items_take hq
  | hangUp => rfl

theorem items_grow (h : m.step capacity full l = some n) : m.items <+: n.items := by
  by_cases hl : ∃ a, l = .offer a
  · obtain ⟨a, rfl⟩ := hl
    rcases items_of_offer h with ⟨_, hitems⟩ | ⟨_, hitems⟩
    · exact ⟨[a], hitems.symm⟩
    · exact ⟨[], by rw [List.append_nil, hitems]⟩
  · exact ⟨[], by rw [List.append_nil, items_of_quiet h fun b hb => hl ⟨b, hb⟩]⟩

/-- An item in the channel was there before or is the one offered. -/
theorem mem_items_of_step {a : α} (h : m.step capacity full l = some n) (ha : a ∈ n.items) :
    a ∈ m.items ∨ l = .offer a := by
  by_cases hl : ∃ b, l = .offer b
  · obtain ⟨b, rfl⟩ := hl
    rcases items_of_offer h with ⟨_, hitems⟩ | ⟨_, hitems⟩
    · rw [hitems, List.mem_append, List.mem_singleton] at ha
      exact ha.imp id fun hab => by rw [hab]
    · rw [hitems] at ha
      exact Or.inl ha
  · rw [items_of_quiet h fun b hb => hl ⟨b, hb⟩] at ha
    exact Or.inl ha

/-- What holds of the items and of the one offered holds of the items after the step. -/
theorem items_forall {P : α → Prop} (h : m.step capacity full l = some n) (hm : ∀ a ∈ m.items, P a)
    (hl : ∀ a, l = .offer a → P a) : ∀ a ∈ n.items, P a := by
  intro a ha
  rcases mem_items_of_step h ha with ha | ha
  · exact hm a ha
  · exact hl a ha

/-- Only an offer puts an item into the channel. -/
theorem items_quiet {P : α → Prop} (h : m.step capacity full l = some n) (hl : l.item = none)
    (hm : ∀ a ∈ m.items, P a) : ∀ a ∈ n.items, P a := by
  refine items_forall h hm fun a ha => ?_
  rw [ha] at hl
  cases hl

/-- A running sender can always try. -/
theorem offer_exists (hrun : m.stage = .running) (capacity : Nat) (full : ε) (a : α) :
    ∃ n, m.step capacity full (.offer a) = some n := by
  simp only [step, hrun]
  split
  · exact ⟨_, rfl⟩
  · split
    · exact ⟨_, rfl⟩
    · exact ⟨_, rfl⟩

theorem offer_room (full : ε) (hrun : m.stage = .running) (hg : m.gone = false)
    (hroom : m.queue.length < capacity) (a : α) :
    m.step capacity full (.offer a) = some { m with queue := m.queue ++ [.ok a] } := by
  simp only [step, hrun, hg, if_pos hroom]
  rfl

theorem offer_full (full : ε) (hrun : m.stage = .running) (hg : m.gone = false)
    (hfull : capacity ≤ m.queue.length) (a : α) :
    m.step capacity full (.offer a) = some { m with stage := .failing full, lost := true } := by
  simp only [step, hrun, hg, if_neg (Nat.not_lt.mpr hfull)]
  rfl

theorem report_full (full : ε) {e : ε} (hfail : m.stage = .failing e) (hfull : capacity ≤ m.queue.length) :
    m.step capacity full .report = some { m with stage := .ended } := by
  simp only [step, hfail]
  exact if_neg fun h => absurd h.2 (Nat.not_lt.mpr hfull)

theorem take_cons (capacity : Nat) (full : ε) (hg : m.gone = false) {x : Except ε α}
    {rest : List (Except ε α)} (hq : m.queue = x :: rest) :
    m.step capacity full .take = some { m with queue := rest, received := m.received ++ [x] } := by
  rw [step, hg, hq]
  rfl

theorem report_exists {e : ε} (hfail : m.stage = .failing e) (capacity : Nat) (full : ε) :
    ∃ n, m.step capacity full .report = some n ∧ n.stage = .ended := by
  simp only [step, hfail]
  split
  · exact ⟨_, rfl, rfl⟩
  · exact ⟨_, rfl, rfl⟩

theorem running_of_offer {a : α} (h : m.step capacity full (.offer a) = some n) :
    m.stage = .running := by
  cases move_of_step h with
  | unread hrun _ => exact hrun
  | written hrun _ _ => exact hrun
  | refused hrun _ _ => exact hrun

theorem not_running_of_abort {e : ε} (h : m.step capacity full (.abort e) = some n) :
    n.stage ≠ .running := by
  cases move_of_step h with
  | abort _ => exact fun h => by cases h

/-! ### What the channel holds -/

/-- Only the reader makes received out of queued. -/
theorem received_of_quiet (h : m.step capacity full l = some n) (hl : l ≠ .take) :
    n.received = m.received := by
  cases move_of_step h with
  | unread _ _ | written _ _ _ | refused _ _ _ | abort _ | abandon _ | told _ _ _ | untold _ _ | finish _
  | hangUp => rfl
  | take _ _ => exact absurd rfl hl

theorem received_of_take (h : m.step capacity full .take = some n) :
    n.received.length = m.received.length + 1 := by
  cases move_of_step h with
  | take _ _ => exact List.length_append

/-- The channel never holds more than its capacity. -/
theorem queue_le_of_step (hm : m.queue.length ≤ capacity) (h : m.step capacity full l = some n) :
    n.queue.length ≤ capacity := by
  cases move_of_step h with
  | unread _ _ | refused _ _ _ | abort _ | abandon _ | untold _ _ | finish _ | hangUp => exact hm
  | written _ _ hroom | told _ _ hroom =>
    show (_ ++ [_]).length ≤ capacity
    rw [List.length_append]
    exact hroom
  | take _ hq =>
    rw [hq] at hm
    exact Nat.le_of_succ_le hm

/-! ### Losses are told -/

/-- Every error finds room, and no loss is passed over. -/
def Heard (capacity : Nat) (m : Emitter ε α) : EmitterLabel ε α → Prop
  | .report => m.queue.length < capacity
  | .abandon => False
  | _ => True

instance (capacity : Nat) (m : Emitter ε α) : ∀ l, Decidable (Heard capacity m l)
  | .report => inferInstanceAs (Decidable (_ < _))
  | .abandon => isFalse id
  | .offer _ | .abort _ | .finish | .take | .hangUp => isTrue trivial

/-- **A loss is told**: the error is about to be written, or it is the last thing
that was said. -/
def Tells (m : Emitter ε α) : Prop :=
  m.lost = true → m.gone = true ∨ (∃ e, m.stage = .failing e) ∨
    (m.stage = .ended ∧ ∃ e, m.said.getLast? = some (.error e))

theorem tells_new : (new : Emitter ε α).Tells := fun h => by cases h

theorem Tells.step (hm : m.Tells) (h : m.step capacity full l = some n) (hc : Heard capacity m l) :
    n.Tells := by
  cases move_of_step h with
  | unread hrun hg => exact fun _ => Or.inl hg
  | written hrun _ _ | finish hrun =>
    intro hl
    rcases hm hl with h' | ⟨e, he⟩ | ⟨he, _⟩
    · exact Or.inl h'
    · rw [hrun] at he
      cases he
    · rw [hrun] at he
      cases he
  | refused hrun hg hfull => exact fun _ => Or.inr (Or.inl ⟨full, rfl⟩)
  | abort hrun => exact fun _ => Or.inr (Or.inl ⟨_, rfl⟩)
  | abandon hrun => exact absurd hc id
  | @told e hfail hg hroom =>
    intro _
    refine Or.inr (Or.inr ⟨rfl, e, ?_⟩)
    show (m.received ++ (m.queue ++ [Except.error e])).getLast? = some (Except.error e)
    rw [← List.append_assoc, List.getLast?_concat]
  | untold hfail hnot =>
    intro _
    rcases hnot with hg | hfull
    · exact Or.inl hg
    · exact absurd hc (Nat.not_lt.mpr hfull)
  | take hg hq =>
    intro hl
    rcases hm hl with h' | h' | ⟨he, e, hlast⟩
    · exact Or.inl h'
    · exact Or.inr (Or.inl h')
    · exact Or.inr (Or.inr ⟨he, e, by rw [said_take hq]; exact hlast⟩)
  | hangUp => exact fun _ => Or.inl rfl

/-- A reader that has come to the end of a stream with a loss has received an
error last. -/
theorem Tells.error_of_finished (hm : m.Tells) (hf : m.Finished) (hl : m.lost = true) :
    ∃ e, m.received.getLast? = some (.error e) := by
  obtain ⟨hend, hq, hg⟩ := hf
  rcases hm hl with h | ⟨e, he⟩ | ⟨_, e, hlast⟩
  · rw [hg] at h
    cases h
  · rw [hend] at he
    cases he
  · rw [said, hq, List.append_nil] at hlast
    exact ⟨e, hlast⟩

/-! ### Losses that are not told -/

/-- No error was put into the channel. -/
def Plain (m : Emitter ε α) : Prop := ∀ e, .error e ∉ m.said

theorem items_length_of_plain (hm : m.Plain) : m.items.length = m.received.length + m.queue.length := by
  have hall : m.items.length = m.said.length := by
    refine List.filterMap_length_eq_length.mpr fun x hx => ?_
    cases x with
    | error e => exact absurd hx (hm e)
    | ok a => rfl
  rw [hall, said, List.length_append]

/-- Until the sender has dropped its end, no error was put into the channel. -/
theorem plain_step (hm : m.stage ≠ .ended → m.Plain) (h : m.step capacity full l = some n) :
    n.stage ≠ .ended → n.Plain := by
  intro hn
  cases move_of_step h with
  | unread hrun hg => exact absurd rfl hn
  | written hrun hg hroom =>
    intro e he
    rw [said_push, List.mem_append, List.mem_singleton] at he
    rcases he with he | he
    · exact hm hn e he
    · cases he
  | refused hrun hg hfull => exact hm (by rw [hrun]; exact nofun)
  | abort hrun => exact hm (by rw [hrun]; exact nofun)
  | abandon hrun => exact absurd rfl hn
  | told hfail hg hroom => exact absurd rfl hn
  | untold hfail hnot => exact absurd rfl hn
  | finish hrun => exact absurd rfl hn
  | take hg hq =>
    intro e he
    rw [said_take hq] at he
    exact hm hn e he
  | hangUp => exact hm hn

/-- After a step that is not heard the stream has ended without an error. -/
theorem plain_of_unheard (hm : m.stage ≠ .ended → m.Plain) (h : m.step capacity full l = some n)
    (hc : ¬ Heard capacity m l) : n.stage = .ended ∧ n.Plain := by
  cases move_of_step h with
  | unread _ _ => exact absurd trivial hc
  | written _ _ _ => exact absurd trivial hc
  | refused _ _ _ => exact absurd trivial hc
  | abort _ => exact absurd trivial hc
  | abandon hrun => exact ⟨rfl, hm (by rw [hrun]; exact nofun)⟩
  | told hfail hg hroom => exact absurd hroom hc
  | untold hfail hnot => exact ⟨rfl, hm (by rw [hfail]; exact nofun)⟩
  | finish _ => exact absurd trivial hc
  | take _ _ => exact absurd trivial hc
  | hangUp => exact absurd trivial hc

/-- Once the sender has dropped its end, nothing more is said. -/
theorem said_of_ended (hend : m.stage = .ended) (h : m.step capacity full l = some n) :
    n.stage = .ended ∧ n.said = m.said := by
  cases move_of_step h with
  | unread hrun _ => exact ⟨rfl, rfl⟩
  | written hrun _ _ =>
    rw [hrun] at hend
    cases hend
  | refused hrun _ _ =>
    rw [hrun] at hend
    cases hend
  | abort hrun =>
    rw [hrun] at hend
    cases hend
  | abandon hrun => exact ⟨rfl, rfl⟩
  | told hfail _ _ =>
    rw [hfail] at hend
    cases hend
  | untold hfail _ => exact ⟨rfl, rfl⟩
  | finish hrun => exact ⟨rfl, rfl⟩
  | take _ hq => exact ⟨hend, said_take hq⟩
  | hangUp => exact ⟨hend, rfl⟩

/-! ### A machine that writes to the channel -/

section Driven

variable {σ β : Type} {step : σ → β → Option σ} {out : σ → Emitter ε α} {C : σ → β → Prop}
  {s₀ s : σ} {as : List β}

/-- Every step of the machine leaves its channel alone or is one step on it, and `C`
says whether that is heard. -/
def Drives (capacity : Nat) (full : ε) (step : σ → β → Option σ) (out : σ → Emitter ε α)
    (C : σ → β → Prop) : Prop :=
  ∀ s a t, step s a = some t → (out t = out s ∧ C s a) ∨
    ∃ l, (out s).step capacity full l = some (out t) ∧ (C s a ↔ Heard capacity (out s) l)

theorem plain_of_run (hd : Drives capacity full step out C) (h0 : out s₀ = new)
    (hrun : run step s₀ as = some s) : (out s).stage ≠ .ended → (out s).Plain := by
  refine run_induction (fun _ s => (out s).stage ≠ .ended → (out s).Plain) ?_ ?_ as s hrun
  · rw [h0]
    exact fun _ e he => List.not_mem_nil he
  · intro _ s a t _ ih hst
    rcases hd s a t hst with ⟨he, _⟩ | ⟨l, hl, _⟩
    · rw [he]
      exact ih
    · exact plain_step ih hl

theorem tells_of_run (hd : Drives capacity full step out C) (h0 : out s₀ = new)
    (hrun : run step s₀ as = some s) (hC : Along step (fun _ => C) s₀ as) : (out s).Tells := by
  refine run_induction_along (fun _ => C) (fun _ s => (out s).Tells) ?_ ?_ as s hrun hC
  · rw [h0]
    exact tells_new
  · intro _ s a t _ ih hc hst
    rcases hd s a t hst with ⟨he, _⟩ | ⟨l, hl, hiff⟩
    · rw [he]
      exact ih
    · exact ih.step hl (hiff.mp hc)

/-- A run with a step that is not heard has ended without an error. -/
theorem unheard_of_run (hd : Drives capacity full step out C) (h0 : out s₀ = new)
    (hrun : run step s₀ as = some s) :
    Along step (fun _ => C) s₀ as ∨ ((out s).stage = .ended ∧ (out s).Plain) := by
  refine run_induction
    (fun as s => Along step (fun _ => C) s₀ as ∨ ((out s).stage = .ended ∧ (out s).Plain))
    (Or.inl (along_nil _ _)) ?_ as s hrun
  intro as s a t hs ih hst
  rcases hd s a t hst with ⟨he, hc⟩ | ⟨l, hl, hiff⟩
  · rw [he]
    exact ih.imp (fun h => (along_snoc_iff hs).mpr ⟨h, hc⟩) id
  · rcases ih with ih | ⟨hend, hplain⟩
    · by_cases hc : C s a
      · exact Or.inl ((along_snoc_iff hs).mpr ⟨ih, hc⟩)
      · exact Or.inr (plain_of_unheard (plain_of_run hd h0 hs) hl fun h => hc (hiff.mpr h))
    · obtain ⟨hend', hsaid⟩ := said_of_ended hend hl
      exact Or.inr ⟨hend', fun e he => hplain e (hsaid ▸ he)⟩

/-- **A loss is told exactly in the runs whose steps are all heard.** -/
theorem told_iff (hd : Drives capacity full step out C) (h0 : out s₀ = new)
    (hrun : run step s₀ as = some s) (hf : (out s).Finished) (hl : (out s).lost = true) :
    (∃ e, (out s).received.getLast? = some (.error e)) ↔ Along step (fun _ => C) s₀ as := by
  constructor
  · rintro ⟨e, he⟩
    refine (unheard_of_run hd h0 hrun).resolve_right ?_
    rintro ⟨_, hplain⟩
    refine hplain e (List.mem_append_left _ ?_)
    exact List.mem_of_getLast? he
  · intro hC
    exact (tells_of_run hd h0 hrun hC).error_of_finished hf hl

end Driven

end Emitter

end Lib
