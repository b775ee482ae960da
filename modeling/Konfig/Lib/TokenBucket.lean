import Mathlib.Algebra.Order.Field.Basic
import Mathlib.Tactic.Linarith
import Mathlib.Tactic.Positivity

/-!
# Token buckets

A bucket holds at most `cap` tokens and gains `rate` of them per unit of time.  It is
refilled when it is asked: a request at time `now` first adds what has accrued since the
last one and then takes `cost` tokens, if there are so many.  A bucket that is asked for
the first time is full.

`Spent` is the potential argument for a window `[u, v]` of the clock: what was taken in
the window and what is still there were paid for by one full bucket and by the time since
`u`.

* `Spent.acquire`: a request in the window keeps it, if the clock has not gone back.
* `Spent.le`: what was taken in the window is at most `cap + rate * (v - u)`.
-/

namespace Lib

variable {K : Type*} [Field K] [LinearOrder K]

structure Bucket (K : Type*) where
  tokens : K
  last : K
  deriving DecidableEq, Repr

namespace Bucket

def full (cap now : K) : Bucket K := { tokens := cap, last := now }

/-- Add what has accrued; a clock that went back counts as standing still. -/
def refill (rate cap now : K) (b : Bucket K) : Bucket K :=
  { tokens := min (b.tokens + max (now - b.last) 0 * rate) cap, last := now }

/-- A request, and whether it is granted. -/
def acquire (rate cap cost now : K) (b : Option (Bucket K)) : Bool × Bucket K :=
  let b := (b.getD (full cap now)).refill rate cap now
  if cost ≤ b.tokens then (true, { b with tokens := b.tokens - cost }) else (false, b)

variable {rate cap cost now u v spent : K} {b : Option (Bucket K)}

@[simp] theorem acquire_last : (acquire rate cap cost now b).2.last = now := by
  unfold acquire
  dsimp only
  split <;> rfl

theorem tokens_of_refused (h : (acquire rate cap cost now b).1 = false) :
    (acquire rate cap cost now b).2 = (b.getD (full cap now)).refill rate cap now := by
  unfold acquire at h ⊢
  dsimp only at h ⊢
  split at h
  · cases h
  · rename_i hle
    rw [if_neg hle]

theorem refill_le_cap (b : Bucket K) : (b.refill rate cap now).tokens ≤ cap := min_le_right _ _

/-! ### What is taken in a window -/

/-- Nothing was taken since `u`, or what was taken and what is left were paid for by a
full bucket and by the time from `u` to the last request. -/
def Funded (rate cap u spent : K) (b : Option (Bucket K)) : Prop :=
  spent = 0 ∨ ∃ b', b = some b' ∧ u ≤ b'.last ∧ 0 ≤ b'.tokens ∧
    spent + b'.tokens ≤ cap + rate * (b'.last - u)

/-- `spent` was taken in the window `[u, v]` and the clock stands at `now`. -/
structure Spent (rate cap u v spent now : K) (b : Option (Bucket K)) : Prop where
  le : spent ≤ cap + rate * (v - u)
  funded : now ≤ v → Funded rate cap u spent b
  before : now < u → spent = 0
  last_le : ∀ b', b = some b' → b'.last ≤ now

/-- The clock moves on. -/
theorem Spent.advance {t : K} (h : Spent rate cap u v spent now b) (ht : now ≤ t) :
    Spent rate cap u v spent t b where
  le := h.le
  funded hv := h.funded (ht.trans hv)
  before hu := h.before (ht.trans_lt hu)
  last_le b' hb := (h.last_le b' hb).trans ht

variable [IsStrictOrderedRing K]

/-- What a request takes is no longer there. -/
theorem tokens_of_granted (h : (acquire rate cap cost now b).1 = true) :
    0 ≤ (acquire rate cap cost now b).2.tokens ∧
      cost + (acquire rate cap cost now b).2.tokens =
        ((b.getD (full cap now)).refill rate cap now).tokens := by
  unfold acquire at h ⊢
  dsimp only at h ⊢
  split at h
  · rename_i hle
    rw [if_pos hle]
    exact ⟨sub_nonneg.mpr hle, add_sub_cancel _ _⟩
  · cases h

theorem refill_le (b : Bucket K) (h : b.last ≤ now) :
    (b.refill rate cap now).tokens ≤ b.tokens + (now - b.last) * rate := by
  refine (min_le_left _ _).trans ?_
  rw [max_eq_left (sub_nonneg.mpr h)]

theorem refill_nonneg (hrate : 0 ≤ rate) (hcap : 0 ≤ cap) (b : Bucket K) (h : 0 ≤ b.tokens) :
    0 ≤ (b.refill rate cap now).tokens := by
  refine le_min (add_nonneg h (mul_nonneg (le_max_right _ _) hrate)) hcap

/-- Whatever the clock does, a bucket holds between nothing and `cap`. -/
theorem tokens_acquire (hrate : 0 ≤ rate) (hcap : 0 ≤ cap) (hcost : 0 ≤ cost)
    (hb : ∀ b', b = some b' → 0 ≤ b'.tokens) : 0 ≤ (acquire rate cap cost now b).2.tokens ∧
      (acquire rate cap cost now b).2.tokens ≤ cap := by
  have hle : ((b.getD (full cap now)).refill rate cap now).tokens ≤ cap := refill_le_cap _
  cases hg : (acquire rate cap cost now b).1 with
  | true =>
    obtain ⟨hnonneg, hsum⟩ := tokens_of_granted hg
    exact ⟨hnonneg, by linarith⟩
  | false =>
    rw [tokens_of_refused hg]
    refine ⟨refill_nonneg hrate hcap _ ?_, hle⟩
    cases b with
    | none => exact hcap
    | some b' => exact hb b' rfl

omit [IsStrictOrderedRing K] in
/-- What is there after the refill is granted. -/
theorem granted_of_le (h : cost ≤ ((b.getD (full cap now)).refill rate cap now).tokens) :
    (acquire rate cap cost now b).1 = true := by
  unfold acquire
  dsimp only
  rw [if_pos h]

theorem Funded.acquire (cost : K) (hrate : 0 ≤ rate) (hcap : 0 ≤ cap) (hu : u ≤ now)
    (hlast : ∀ b', b = some b' → b'.last ≤ now) (h : Funded rate cap u spent b) :
    Funded rate cap u (spent + if (acquire rate cap cost now b).1 then cost else 0)
      (some (acquire rate cap cost now b).2) := by
  -- after the refill the potential has not grown by more than the time did
  have hrefill : spent + ((b.getD (full cap now)).refill rate cap now).tokens ≤
      cap + rate * (now - u) := by
    have hpos : 0 ≤ rate * (now - u) := mul_nonneg hrate (sub_nonneg.mpr hu)
    rcases h with rfl | ⟨b', rfl, _, _, hpot⟩
    · have hfull : ((b.getD (full cap now)).refill rate cap now).tokens ≤ cap := refill_le_cap _
      linarith
    · have hgain : (b'.refill rate cap now).tokens ≤ b'.tokens + (now - b'.last) * rate :=
        refill_le b' (hlast b' rfl)
      rw [Option.getD_some]
      linarith
  cases hg : (Bucket.acquire rate cap cost now b).1 with
  | true =>
    obtain ⟨hnonneg, hsum⟩ := tokens_of_granted hg
    refine Or.inr ⟨_, rfl, ?_, hnonneg, ?_⟩
    · rw [acquire_last]
      exact hu
    · rw [acquire_last, if_pos rfl, add_assoc, hsum]
      exact hrefill
  | false =>
    rw [if_neg (by simp), add_zero]
    rcases h with rfl | ⟨b', rfl, _, hnonneg, _⟩
    · exact Or.inl rfl
    · refine Or.inr ⟨_, rfl, ?_, ?_, ?_⟩
      · rw [acquire_last]
        exact hu
      · rw [tokens_of_refused hg]
        exact refill_nonneg hrate hcap b' hnonneg
      · rw [acquire_last, tokens_of_refused hg]
        exact hrefill

theorem Funded.le (hcap : 0 ≤ cap) (hrate : 0 ≤ rate) (huv : u ≤ v)
    (hlast : ∀ b', b = some b' → b'.last ≤ v) (h : Funded rate cap u spent b) :
    spent ≤ cap + rate * (v - u) := by
  have hpos : 0 ≤ rate * (v - u) := mul_nonneg hrate (sub_nonneg.mpr huv)
  rcases h with rfl | ⟨b', rfl, _, hnonneg, hpot⟩
  · linarith
  · have : rate * (b'.last - u) ≤ rate * (v - u) :=
      mul_le_mul_of_nonneg_left (by linarith [hlast b' rfl]) hrate
    linarith

/-- Before the window. -/
theorem spent_zero (hcap : 0 ≤ cap) (hrate : 0 ≤ rate) (huv : u ≤ v)
    (hlast : ∀ b', b = some b' → b'.last ≤ now) : Spent rate cap u v 0 now b where
  le := Funded.le (b := none) hcap hrate huv nofun (Or.inl rfl)
  funded _ := Or.inl rfl
  before _ := rfl
  last_le := hlast

/-- **A request counts if it is granted in the window.** -/
theorem Spent.acquire (cost : K) (hcap : 0 ≤ cap) (hrate : 0 ≤ rate) (h : Spent rate cap u v spent now b) :
    Spent rate cap u v
      (spent + if (acquire rate cap cost now b).1 = true ∧ u ≤ now ∧ now ≤ v then cost else 0) now
      (some (acquire rate cap cost now b).2) := by
  have hlast : ∀ b', some (Bucket.acquire rate cap cost now b).2 = some b' → b'.last ≤ now := by
    rintro b' hb
    rw [← Option.some.inj hb, acquire_last]
  by_cases hwin : u ≤ now ∧ now ≤ v
  · have hfund := (h.funded hwin.2).acquire cost hrate hcap hwin.1 h.last_le
    simp only [hwin.1, hwin.2, and_true]
    refine ⟨?_, fun _ => hfund, fun hu => absurd hwin.1 (not_le.mpr hu), hlast⟩
    exact hfund.le hcap hrate (hwin.1.trans hwin.2) fun b' hb => (hlast b' hb).trans hwin.2
  · rw [if_neg fun hc => hwin hc.2, add_zero]
    refine ⟨h.le, fun hv => Or.inl ?_, h.before, hlast⟩
    exact h.before (not_le.mp fun hu => hwin ⟨hu, hv⟩)

end Bucket

end Lib
