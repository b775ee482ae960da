import Mathlib.Data.List.Basic
import Mathlib.Data.List.Induction
import Mathlib.Tactic.IntervalCases

/-!
# Decimal digits

A list of digits denotes `Nat.ofDigitChars 10`; a number is written `Nat.toDigits 10`.

* `toDigits_valueOf_iff`: a list of digits is what its value is written as, if and only
  if it does not start with a zero, or is just a zero.
-/

namespace Lib

/-- The characters are decimal digits, and there is one. -/
structure Digits (cs : List Char) : Prop where
  ne_nil : cs ≠ []
  isDigit : ∀ c ∈ cs, c.isDigit = true

/-- The number that a list of digits denotes. -/
abbrev valueOf (cs : List Char) : ℕ := Nat.ofDigitChars 10 cs 0

theorem digitChar_of_isDigit {c : Char} (h : c.isDigit = true) :
    c.toNat - '0'.toNat < 10 ∧ Nat.digitChar (c.toNat - '0'.toNat) = c := by
  have hle : 48 ≤ c.toNat ∧ c.toNat ≤ 57 := by
    rw [Char.isDigit, Bool.and_eq_true, decide_eq_true_eq, decide_eq_true_eq] at h
    exact h
  have hzero : '0'.toNat = 48 := rfl
  refine ⟨by omega, Char.toNat_inj.mp ?_⟩
  obtain ⟨d, hd, hlt⟩ : ∃ d, c.toNat = 48 + d ∧ d < 10 := ⟨c.toNat - 48, by omega, by omega⟩
  rw [hd, hzero, Nat.add_sub_cancel_left]
  interval_cases d <;> rfl

/-- It starts with a digit. -/
theorem Digits.head_ne {ds : List Char} (h : Digits ds) (c : Char) (hc : c.isDigit = false)
    (cs : List Char) : ds ≠ c :: cs := by
  rintro rfl
  rw [h.isDigit c List.mem_cons_self] at hc
  cases hc

theorem digits_toDigits (n : ℕ) : Digits (Nat.toDigits 10 n) :=
  ⟨Nat.toDigits_ne_nil, fun _ hc => Nat.isDigit_of_mem_toDigits (by decide) (by decide) hc⟩

theorem valueOf_snoc (cs : List Char) (c : Char) :
    valueOf (cs ++ [c]) = 10 * valueOf cs + (c.toNat - '0'.toNat) := by
  rw [valueOf, Nat.ofDigitChars_append, Nat.ofDigitChars_cons, Nat.ofDigitChars_nil]

/-- A positive number is not written with a leading zero. -/
theorem head_toDigits_ne_zero {n : ℕ} (hn : 0 < n) : (Nat.toDigits 10 n).head? ≠ some '0' := by
  induction n using Nat.strongRecOn with
  | ind n ih =>
    by_cases h : n < 10
    · rw [Nat.toDigits_of_lt_base h]
      interval_cases n <;> decide
    · rw [Nat.toDigits_of_base_le (by decide) (Nat.le_of_not_lt h),
        List.head?_append_of_ne_nil _ Nat.toDigits_ne_nil]
      exact ih (n / 10) (by omega) (by omega)

theorem Digits.dropLast {cs : List Char} {c : Char} (h : Digits (cs ++ [c])) (hne : cs ≠ []) : Digits cs :=
  ⟨hne, fun d hd => h.isDigit d (List.mem_append_left _ hd)⟩

theorem toDigits_singleton {c : Char} (h : c.isDigit = true) : Nat.toDigits 10 (valueOf [c]) = [c] := by
  obtain ⟨hlt, hchar⟩ := digitChar_of_isDigit h
  rw [← List.nil_append [c], valueOf_snoc, valueOf, Nat.ofDigitChars_nil, Nat.mul_zero, Nat.zero_add,
    Nat.toDigits_of_lt_base hlt, hchar, List.nil_append]

/-- What does not start with a zero is what its value is written as. -/
theorem toDigits_valueOf {cs : List Char} (h : Digits cs) (hhead : cs.head? ≠ some '0') :
    0 < valueOf cs ∧ Nat.toDigits 10 (valueOf cs) = cs := by
  -- the induction is on the last digit
  induction cs using List.reverseRecOn with
  | nil => exact absurd rfl h.ne_nil
  | append_singleton cs c ih =>
    have hc := h.isDigit c (by simp)
    obtain ⟨hlt, hchar⟩ := digitChar_of_isDigit hc
    by_cases hne : cs = []
    · subst hne
      have hdigits := toDigits_singleton hc
      refine ⟨Nat.pos_of_ne_zero fun hzero => hhead ?_, hdigits⟩
      rw [List.nil_append, ← hdigits, ← List.nil_append [c], hzero]
      rfl
    · obtain ⟨hpos, hval⟩ := ih (h.dropLast hne) (by rwa [List.head?_append_of_ne_nil _ hne] at hhead)
      rw [valueOf_snoc]
      refine ⟨by omega, ?_⟩
      rw [← Nat.toDigits_append_toDigits (by decide) hpos hlt, hval, Nat.toDigits_of_lt_base hlt, hchar]

/-- **The digits that a number is written in.** -/
theorem toDigits_valueOf_iff {cs : List Char} (h : Digits cs) :
    Nat.toDigits 10 (valueOf cs) = cs ↔ cs.head? ≠ some '0' ∨ cs = ['0'] := by
  constructor
  · intro heq
    by_cases hzero : valueOf cs = 0
    · rw [hzero, Nat.toDigits_zero] at heq
      exact .inr heq.symm
    · rw [← heq]
      exact .inl (head_toDigits_ne_zero (Nat.pos_of_ne_zero hzero))
  · rintro (hhead | rfl)
    · exact (toDigits_valueOf h hhead).2
    · rfl

/-! ### Other bases -/

theorem digitChar_injective : ∀ a < 16, ∀ b < 16, Nat.digitChar a = Nat.digitChar b → a = b := by
  decide

/-- Different numbers are written differently. -/
theorem toDigits_injective {b : ℕ} (hb : 1 < b) (hb' : b ≤ 16) {n : ℕ} :
    ∀ {m : ℕ}, Nat.toDigits b n = Nat.toDigits b m → n = m := by
  induction n using Nat.strongRecOn with
  | ind n ih =>
    intro m h
    by_cases hn : n < b
    · rw [Nat.toDigits_of_lt_base hn] at h
      by_cases hm : m < b
      · rw [Nat.toDigits_of_lt_base hm, List.cons.injEq] at h
        exact digitChar_injective n (by omega) m (by omega) h.1
      · rw [Nat.toDigits_of_base_le hb (Nat.le_of_not_lt hm), ← List.nil_append [n.digitChar]] at h
        exact absurd (List.append_inj' h rfl).1.symm Nat.toDigits_ne_nil
    · rw [Nat.toDigits_of_base_le hb (Nat.le_of_not_lt hn)] at h
      by_cases hm : m < b
      · rw [Nat.toDigits_of_lt_base hm, ← List.nil_append [m.digitChar]] at h
        exact absurd (List.append_inj' h rfl).1 Nat.toDigits_ne_nil
      · rw [Nat.toDigits_of_base_le hb (Nat.le_of_not_lt hm)] at h
        obtain ⟨hhigh, hlow⟩ := List.append_inj' h rfl
        have hquot := ih (n / b) (Nat.div_lt_self (by omega) hb) hhigh
        have hrem := digitChar_injective (n % b) ((Nat.mod_lt n (by omega)).trans_le hb') (m % b)
          ((Nat.mod_lt m (by omega)).trans_le hb') (List.cons.inj hlow).1
        rw [← Nat.div_add_mod n b, hquot, hrem, Nat.div_add_mod]

end Lib
