import Mathlib.Data.Int.CardIntervalMod

/-!
# Round robin by a counter that wraps

The turns `0, 1, …, m - 1` of a counter that wraps at `w` are given to `n` places: turn `t`
goes to place `t % w % n`.  `turns w n m j` is the number of turns place `j` has had.

* `turns_eq`: the number itself, from the whole cycles of the counter and the rest.
* `turns_antitone`: an earlier place never has fewer turns than a later one.
* `turns_even_iff`: all places have had the same number of turns exactly when there were
  whole rounds, and each cycle of the counter is whole rounds or none has ended.
-/

namespace Lib

/-- The turns of place `j` among the first `m`. -/
def turns (w n m j : ℕ) : ℕ := Nat.count (fun t => t % w % n = j) m

variable {w n m i j : ℕ}

@[simp] theorem turns_zero (w n j : ℕ) : turns w n 0 j = 0 := Nat.count_zero _

theorem turns_succ (w n m j : ℕ) :
    turns w n (m + 1) j = turns w n m j + if m % w % n = j then 1 else 0 :=
  Nat.count_succ _ m

/-- Before the counter wraps. -/
theorem turns_of_le (hm : m ≤ w) (hj : j < n) :
    turns w n m j = m / n + if j < m % n then 1 else 0 := by
  have hturn : ∀ t < m, t % w % n = j ↔ t ≡ j [MOD n] := by
    intro t ht
    rw [Nat.mod_eq_of_lt (ht.trans_le hm), Nat.ModEq, Nat.mod_eq_of_lt hj]
  have hsame : turns w n m j = Nat.count (· ≡ j [MOD n]) m :=
    le_antisymm (Nat.count_mono_left fun t ht => (hturn t ht).mp)
      (Nat.count_mono_left fun t ht => (hturn t ht).mpr)
  rw [hsame, Nat.count_modEq_card m (Nat.zero_lt_of_lt hj) j, Nat.mod_eq_of_lt hj]

/-- Whole cycles of the counter come first. -/
theorem turns_cycles (w n a b j : ℕ) :
    turns w n (w * a + b) j = a * turns w n w j + turns w n b j := by
  induction a with
  | zero => simp
  | succ a ih =>
    have hsplit : w * (a + 1) + b = w + (w * a + b) := by ring
    have hcycle : turns w n (w + (w * a + b)) j = turns w n w j + turns w n (w * a + b) j := by
      unfold turns
      rw [Nat.count_add]
      simp only [Nat.add_mod_left]
    rw [hsplit, hcycle, ih]
    ring

theorem turns_eq (hw : 0 < w) (hj : j < n) :
    turns w n m j = m / w * (w / n + if j < w % n then 1 else 0) +
      (m % w / n + if j < m % w % n then 1 else 0) := by
  have hcycles := turns_cycles w n (m / w) (m % w) j
  rwa [Nat.div_add_mod, turns_of_le le_rfl hj, turns_of_le (Nat.mod_lt m hw).le hj] at hcycles

theorem turns_antitone (m : ℕ) (hw : 0 < w) (hij : i ≤ j) (hj : j < n) : turns w n m j ≤ turns w n m i := by
  have hbonus : ∀ r, (if j < r then 1 else 0) ≤ if i < r then 1 else 0 := by
    intro r
    split
    · rw [if_pos (by omega)]
    · exact Nat.zero_le _
  rw [turns_eq hw hj, turns_eq hw (hij.trans_lt hj)]
  have hwhole := Nat.mul_le_mul_left (m / w) (Nat.add_le_add_left (hbonus (w % n)) (w / n))
  have hrest := hbonus (m % w % n)
  omega

theorem turns_even_iff (hw : 0 < w) (hn : 0 < n) :
    (∀ j < n, turns w n m j = turns w n m 0) ↔ n ∣ m ∧ (m < w ∨ n ∣ w) := by
  constructor
  · intro heven
    -- the last place has none of the turns that do not fill a round
    have hlast := heven (n - 1) (by omega)
    have hwhole := Nat.mod_lt w hn
    have hrest := Nat.mod_lt (m % w) hn
    rw [turns_eq hw (by omega), turns_eq hw hn, if_neg (by omega), if_neg (by omega), mul_add, mul_add]
      at hlast
    have hpart : m % w % n = 0 := by
      by_contra hpos
      rw [if_pos (Nat.pos_of_ne_zero hpos)] at hlast
      omega
    have hcycles : m < w ∨ n ∣ w := by
      by_contra hcycles
      obtain ⟨hmw, hpos⟩ := not_or.mp hcycles
      rw [if_pos (Nat.pos_of_ne_zero (mt Nat.dvd_of_mod_eq_zero hpos))] at hlast
      have hdiv : 0 < m / w := Nat.div_pos (Nat.le_of_not_lt hmw) hw
      omega
    refine ⟨?_, hcycles⟩
    rcases hcycles with hmw | hwhole
    · rwa [Nat.mod_eq_of_lt hmw, ← Nat.dvd_iff_mod_eq_zero] at hpart
    · exact (Nat.dvd_mod_iff hwhole).mp (Nat.dvd_of_mod_eq_zero hpart)
  · rintro ⟨hm, hmw | hwhole⟩ j hj
    · rw [turns_of_le hmw.le hj, turns_of_le hmw.le hn, Nat.mod_eq_zero_of_dvd hm]
      simp
    · have hpart : n ∣ m % w := (Nat.dvd_mod_iff hwhole).mpr hm
      rw [turns_eq hw hj, turns_eq hw hn, Nat.mod_eq_zero_of_dvd hpart, Nat.mod_eq_zero_of_dvd hwhole]
      simp

end Lib
