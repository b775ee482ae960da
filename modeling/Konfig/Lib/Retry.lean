import Mathlib.Order.Basic
import Konfig.Lib.Exchange

/-!
# Bounded retries

A loop that tries again as long as it is told to and has retries left.  `retry replies` runs
it against what its attempts come to, one after the other.

* `retry_spec`: how many attempts are made and what they come to, for every sequence of
  replies.
* `Retries.play`: a process whose every attempt is one operation, against any answers, is
  `retry` of what its attempts come to.
* `Retries.steps`: what such a process exchanges until it ends.
-/

namespace Lib

variable {α : Type*}

/-- What one attempt comes to. -/
inductive RetryReply (α : Type*)
  | done (a : α)
  | again
  | failed

/-- What all attempts come to. -/
inductive RetryOutcome (α : Type*)
  | done (a : α)
  | exhausted
  | failed

/-- The number of attempts that are made from an attempt on, and what they come to. -/
def retry (replies : ℕ → RetryReply α) : (left attempt : ℕ) → ℕ × RetryOutcome α
  | 0, attempt =>
    match replies attempt with
    | .done a => (1, .done a)
    | .again => (1, .exhausted)
    | .failed => (1, .failed)
  | left + 1, attempt =>
    match replies attempt with
    | .done a => (1, .done a)
    | .again => ((retry replies left (attempt + 1)).1 + 1, (retry replies left (attempt + 1)).2)
    | .failed => (1, .failed)

section

variable {replies : ℕ → RetryReply α} {attempt : ℕ}

theorem retry_done {a : α} (h : replies attempt = .done a) (left : ℕ) :
    retry replies left attempt = (1, .done a) := by
  cases left <;> rw [retry, h]

theorem retry_failed (h : replies attempt = .failed) (left : ℕ) :
    retry replies left attempt = (1, .failed) := by
  cases left <;> rw [retry, h]

end

/-- The first reply that is not `again`. -/
def FirstReply (replies : ℕ → RetryReply α) (r : RetryReply α) (i : ℕ) : Prop :=
  replies i = r ∧ ∀ j < i, replies j = .again

/-- What is to be said of `attempts` attempts with `left` retries. -/
structure RetrySpec (replies : ℕ → RetryReply α) (left attempts : ℕ) (out : RetryOutcome α) : Prop where
  pos : 0 < attempts
  bounded : attempts ≤ left + 1
  /-- Nothing is attempted after the first reply that is not `again`. -/
  stops : ∀ i < attempts, replies i ≠ .again → attempts = i + 1
  done_iff : ∀ a, out = .done a ↔ ∃ i ≤ left, FirstReply replies (.done a) i
  failed_iff : out = .failed ↔ ∃ i ≤ left, FirstReply replies .failed i
  exhausted_iff : out = .exhausted ↔ ∀ i ≤ left, replies i = .again

/-- A reply that is not `again` is the first one. -/
theorem firstReply_of_ne_again {replies : ℕ → RetryReply α} (h0 : replies 0 ≠ .again) {r : RetryReply α}
    {left : ℕ} : (∃ i ≤ left, FirstReply replies r i) ↔ replies 0 = r := by
  constructor
  · rintro ⟨i, -, h, hbefore⟩
    cases i with
    | zero => exact h
    | succ i => exact absurd (hbefore 0 (Nat.succ_pos i)) h0
  · exact fun h => ⟨0, Nat.zero_le left, h, nofun⟩

/-- Without retries there is one reply. -/
theorem firstReply_zero {replies : ℕ → RetryReply α} {r : RetryReply α} :
    (∃ i ≤ 0, FirstReply replies r i) ↔ replies 0 = r := by
  constructor
  · rintro ⟨i, hi, h, -⟩
    rwa [Nat.le_zero.mp hi] at h
  · exact fun h => ⟨0, Nat.le_refl 0, h, nofun⟩

/-- The first attempt settles it. -/
theorem RetrySpec.first {replies : ℕ → RetryReply α} {left : ℕ} {out : RetryOutcome α}
    (hdone : ∀ a, out = .done a ↔ replies 0 = .done a) (hfailed : out = .failed ↔ replies 0 = .failed)
    (hout : out ≠ .exhausted) (hagain : replies 0 ≠ .again) : RetrySpec replies left 1 out where
  pos := Nat.one_pos
  bounded := Nat.le_add_left 1 left
  stops i hi _ := by omega
  done_iff a := (hdone a).trans (firstReply_of_ne_again hagain).symm
  failed_iff := hfailed.trans (firstReply_of_ne_again hagain).symm
  exhausted_iff := ⟨fun h => absurd h hout, fun h => absurd (h 0 (Nat.zero_le left)) hagain⟩

/-- After `again`, the first other reply is that of what follows. -/
theorem firstReply_succ {replies : ℕ → RetryReply α} (h0 : replies 0 = .again) {r : RetryReply α} {left : ℕ}
    (hr : r ≠ .again) : (∃ i ≤ left + 1, FirstReply replies r i) ↔
      ∃ i ≤ left, FirstReply (fun n => replies (n + 1)) r i := by
  constructor
  · rintro ⟨i, hi, h, hbefore⟩
    cases i with
    | zero => exact absurd (h.symm.trans h0) hr
    | succ i => exact ⟨i, by omega, h, fun j hj => hbefore (j + 1) (by omega)⟩
  · rintro ⟨i, hi, h, hbefore⟩
    refine ⟨i + 1, by omega, h, fun j hj => ?_⟩
    cases j with
    | zero => exact h0
    | succ j => exact hbefore j (by omega)

/-- An attempt that says `again` and those after it. -/
theorem RetrySpec.again {replies : ℕ → RetryReply α} {left attempts : ℕ} {out : RetryOutcome α}
    (h0 : replies 0 = .again) (h : RetrySpec (fun n => replies (n + 1)) left attempts out) :
    RetrySpec replies (left + 1) (attempts + 1) out where
  pos := Nat.succ_pos attempts
  bounded := Nat.succ_le_succ h.bounded
  stops i hi hne := by
    cases i with
    | zero => exact absurd h0 hne
    | succ i => rw [h.stops i (by omega) hne]
  done_iff a := (h.done_iff a).trans (firstReply_succ h0 (fun h => by cases h)).symm
  failed_iff := h.failed_iff.trans (firstReply_succ h0 (fun h => by cases h)).symm
  exhausted_iff := by
    rw [h.exhausted_iff]
    constructor
    · intro hall i hi
      cases i with
      | zero => exact h0
      | succ i => exact hall i (by omega)
    · exact fun hall i hi => hall (i + 1) (by omega)

/-- The last attempt says `again`. -/
theorem RetrySpec.exhausted {replies : ℕ → RetryReply α} (h0 : replies 0 = .again) :
    RetrySpec replies 0 1 .exhausted where
  pos := Nat.one_pos
  bounded := Nat.le_refl 1
  stops i hi _ := by omega
  done_iff a := by
    rw [firstReply_zero, h0]
    exact ⟨nofun, nofun⟩
  failed_iff := by
    rw [firstReply_zero, h0]
    exact ⟨nofun, nofun⟩
  exhausted_iff := by
    refine ⟨fun _ i hi => ?_, fun _ => rfl⟩
    rw [Nat.le_zero.mp hi, h0]

/-- **What a bounded loop comes to.** -/
theorem retry_spec (replies : ℕ → RetryReply α) (left attempt : ℕ) :
    RetrySpec (fun n => replies (attempt + n)) left (retry replies left attempt).1
      (retry replies left attempt).2 := by
  induction left generalizing attempt with
  | zero =>
    unfold retry
    cases h : replies attempt with
    | done a => exact .first (by simp [h]) (by simp [h]) nofun (by simp [h])
    | failed => exact .first (by simp [h]) (by simp [h]) nofun (by simp [h])
    | again => exact .exhausted h
  | succ left ih =>
    unfold retry
    cases h : replies attempt with
    | done a => exact .first (by simp [h]) (by simp [h]) nofun (by simp [h])
    | failed => exact .first (by simp [h]) (by simp [h]) nofun (by simp [h])
    | again =>
      refine RetrySpec.again h ?_
      have hrest := ih (attempt + 1)
      simp only [Nat.add_right_comm attempt 1] at hrest
      exact hrest

/-! ### Processes that retry -/

section Processes

variable {Op : Type} {Resp : Op → Type} {β : Type}

/-- What a process does after an attempt, where `next` is the process from the next attempt
on, if there is one, and `shows` says how it reports what it came to. -/
def AfterReply (shows : β → RetryOutcome α → Prop) (next : Option (Proc Op Resp β)) :
    RetryReply α → Proc Op Resp β → Prop
  | .done v, q => ∃ b, q = .ret b ∧ shows b (.done v)
  | .failed, q => ∃ b, q = .ret b ∧ shows b .failed
  | .again, q =>
    match next with
    | some p => q = p
    | none => ∃ b, q = .ret b ∧ shows b .exhausted

/-- `p attempt` tries the operation `o` from an attempt on, with `max` retries in all. -/
def Retries (p : ℕ → Proc Op Resp β) (o : Op) (reply : Resp o → RetryReply α)
    (shows : β → RetryOutcome α → Prop) (max : ℕ) : Prop :=
  ∀ attempt, ∃ k, p attempt = .call o k ∧ ∀ a,
    AfterReply shows (if attempt < max then some (p (attempt + 1)) else none) (reply a) (k a)

section

variable {p : ℕ → Proc Op Resp β} {o : Op} {reply : Resp o → RetryReply α}
  {shows : β → RetryOutcome α → Prop} {max : ℕ} {answers : ℕ → (o : Op) → Resp o} {attempt : ℕ}

/-- An attempt after which the process returns. -/
theorem Retries.play_ends (hp : Retries p o reply shows max) {out : RetryOutcome α}
    (hends : ∀ q, AfterReply shows (if attempt < max then some (p (attempt + 1)) else none)
      (reply (answers attempt o)) q → ∃ b, q = .ret b ∧ shows b out) :
    ∃ b, (p attempt).play answers attempt = ([o], b) ∧ shows b out := by
  obtain ⟨k, hk, hafter⟩ := hp attempt
  obtain ⟨b, hb, hshows⟩ := hends _ (hafter (answers attempt o))
  exact ⟨b, by rw [hk, Proc.play, hb, Proc.play], hshows⟩

theorem Retries.play_done (hp : Retries p o reply shows max) {v : α}
    (hr : reply (answers attempt o) = .done v) :
    ∃ b, (p attempt).play answers attempt = ([o], b) ∧ shows b (.done v) := by
  refine hp.play_ends fun q h => ?_
  rw [hr] at h
  exact h

theorem Retries.play_failed (hp : Retries p o reply shows max)
    (hr : reply (answers attempt o) = .failed) :
    ∃ b, (p attempt).play answers attempt = ([o], b) ∧ shows b .failed := by
  refine hp.play_ends fun q h => ?_
  rw [hr] at h
  exact h

theorem Retries.play_exhausted (hp : Retries p o reply shows max) (hmax : max ≤ attempt)
    (hr : reply (answers attempt o) = .again) :
    ∃ b, (p attempt).play answers attempt = ([o], b) ∧ shows b .exhausted := by
  refine hp.play_ends fun q h => ?_
  rw [hr, if_neg (Nat.not_lt.mpr hmax)] at h
  exact h

theorem Retries.play_again (hp : Retries p o reply shows max) (hmax : attempt < max)
    (hr : reply (answers attempt o) = .again) :
    (p attempt).play answers attempt = (o :: ((p (attempt + 1)).play answers (attempt + 1)).1,
      ((p (attempt + 1)).play answers (attempt + 1)).2) := by
  obtain ⟨k, hk, hafter⟩ := hp attempt
  have h := hafter (answers attempt o)
  rw [hr, if_pos hmax] at h
  rw [hk, Proc.play, show k (answers attempt o) = p (attempt + 1) from h]

end

/-- A first answer that ends the process, whatever attempts are left. -/
theorem Retries.play_stops {p : ℕ → Proc Op Resp β} {o : Op} {reply : Resp o → RetryReply α}
    {shows : β → RetryOutcome α → Prop} {max attempt : ℕ} {answers : ℕ → (o : Op) → Resp o}
    (hp : Retries p o reply shows max) (hr : reply (answers attempt o) ≠ .again) (left : ℕ) :
    ((p attempt).play answers attempt).1 =
        List.replicate (retry (fun i => reply (answers i o)) left attempt).1 o ∧
      shows ((p attempt).play answers attempt).2
        (retry (fun i => reply (answers i o)) left attempt).2 := by
  cases hreply : reply (answers attempt o) with
  | done v =>
    obtain ⟨b, hb, hshows⟩ := hp.play_done hreply
    have hretry : retry (fun i => reply (answers i o)) left attempt = (1, .done v) := retry_done hreply left
    rw [hretry, hb]
    exact ⟨rfl, hshows⟩
  | failed =>
    obtain ⟨b, hb, hshows⟩ := hp.play_failed hreply
    have hretry : retry (fun i => reply (answers i o)) left attempt = (1, .failed) := retry_failed hreply left
    rw [hretry, hb]
    exact ⟨rfl, hshows⟩
  | again => exact absurd hreply hr

/-- **A process that retries, against any answers.** -/
theorem Retries.play {p : ℕ → Proc Op Resp β} {o : Op} {reply : Resp o → RetryReply α}
    {shows : β → RetryOutcome α → Prop} {max : ℕ} (hp : Retries p o reply shows max)
    (answers : ℕ → (o : Op) → Resp o) (left : ℕ) : ∀ attempt, attempt + left = max →
      ((p attempt).play answers attempt).1 =
          List.replicate (retry (fun i => reply (answers i o)) left attempt).1 o ∧
        shows ((p attempt).play answers attempt).2
          (retry (fun i => reply (answers i o)) left attempt).2 := by
  induction left with
  | zero =>
    intro attempt hmax
    by_cases hr : reply (answers attempt o) = .again
    · obtain ⟨b, hb, hshows⟩ := hp.play_exhausted (by omega) hr
      rw [retry, hr, hb]
      exact ⟨rfl, hshows⟩
    · exact hp.play_stops hr 0
  | succ left ih =>
    intro attempt hmax
    by_cases hr : reply (answers attempt o) = .again
    · obtain ⟨hops, hshows⟩ := ih (attempt + 1) (by omega)
      rw [retry, hr, hp.play_again (by omega) hr, hops]
      exact ⟨rfl, hshows⟩
    · exact hp.play_stops hr (left + 1)

/-- What a process reports after its last attempt. -/
def Reported (shows : β → RetryOutcome α → Prop) (b : β) (r : RetryReply α) : Prop :=
  (∃ v, r = .done v ∧ shows b (.done v)) ∨ (r = .failed ∧ shows b .failed) ∨ (r = .again ∧ shows b .exhausted)

/-- An attempt after which there is no next one. -/
theorem AfterReply.stops {shows : β → RetryOutcome α → Prop} {next : Option (Proc Op Resp β)}
    {r : RetryReply α} {q : Proc Op Resp β} {tr : List ((o : Op) × Resp o)} {b : β}
    (h : AfterReply shows next r q) (hstop : r = .again → next = none) (hs : q.Steps tr (.ret b)) :
    tr = [] ∧ Reported shows b r := by
  have hret : ∃ b', q = .ret b' ∧ Reported shows b' r := by
    cases r with
    | done v =>
      obtain ⟨b', hb', hshows⟩ := h
      exact ⟨b', hb', .inl ⟨v, rfl, hshows⟩⟩
    | failed =>
      obtain ⟨b', hb', hshows⟩ := h
      exact ⟨b', hb', .inr (.inl ⟨rfl, hshows⟩)⟩
    | again =>
      rw [hstop rfl] at h
      obtain ⟨b', hb', hshows⟩ := h
      exact ⟨b', hb', .inr (.inr ⟨rfl, hshows⟩)⟩
  obtain ⟨b', rfl, hreported⟩ := hret
  obtain ⟨rfl, hb⟩ := Proc.steps_ret hs
  cases hb
  exact ⟨rfl, hreported⟩

/-- **What a process that retries exchanges**: answers after which it tries again, and a last
one. -/
theorem Retries.steps {p : ℕ → Proc Op Resp β} {o : Op} {reply : Resp o → RetryReply α}
    {shows : β → RetryOutcome α → Prop} {max : ℕ} (hp : Retries p o reply shows max) :
    ∀ (left attempt : ℕ), max - attempt = left → ∀ {tr : List ((o : Op) × Resp o)} {b : β},
      (p attempt).Steps tr (.ret b) → ∃ pre a, tr = (pre ++ [a]).map (fun a => ⟨o, a⟩) ∧
        (∀ a' ∈ pre, reply a' = .again) ∧ Reported shows b (reply a) := by
  intro left
  -- the induction is on the retries that are left
  induction left with
  | zero =>
    intro attempt hleft tr b h
    obtain ⟨k, hk, hafter⟩ := hp attempt
    rw [hk] at h
    cases h with
    | @cons _ _ a tr _ h =>
      obtain ⟨rfl, hreported⟩ := (hafter a).stops (fun _ => if_neg (by omega)) h
      exact ⟨[], a, rfl, fun _ hx => absurd hx List.not_mem_nil, hreported⟩
  | succ left ih =>
    intro attempt hleft tr b h
    obtain ⟨k, hk, hafter⟩ := hp attempt
    rw [hk] at h
    cases h with
    | @cons _ _ a tr _ h =>
      by_cases hreply : reply a = .again
      · have hnext := hafter a
        rw [hreply, if_pos (by omega)] at hnext
        rw [show k a = p (attempt + 1) from hnext] at h
        obtain ⟨pre, a', rfl, hpre, hlast⟩ := ih (attempt + 1) (by omega) h
        refine ⟨a :: pre, a', rfl, fun x hx => ?_, hlast⟩
        rcases List.mem_cons.mp hx with rfl | hx
        · exact hreply
        · exact hpre x hx
      · obtain ⟨rfl, hreported⟩ := (hafter a).stops (fun h => absurd h hreply) h
        exact ⟨[], a, rfl, fun _ hx => absurd hx List.not_mem_nil, hreported⟩

end Processes

end Lib
