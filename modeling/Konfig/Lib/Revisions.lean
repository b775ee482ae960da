import Mathlib.Algebra.Ring.Nat
import Mathlib.Data.List.Basic

/-!
# Stores that keep their revisions

A store with one counter for all its keys: every write takes the next revision and is
logged, a delete as a write of nothing, so that the value of a key can be read as of any
revision.  What is read as of a revision that was reached never changes again.

* `asOf_write_self`, `asOf_write_le`: what a write makes readable, and what it leaves alone.
* `Sequential`: one key at a time, kept by a write.
* `Holds`: what holds of every value there is or was, kept by a write of such a value.
* `Extends`: the later states of a store; `Extends.asOf`: the past stays.
-/

namespace Lib

/-- One logged write. -/
structure Logged (K V : Type) where
  rev : ℕ
  key : K
  value : Option V

/-- The counter and the log, the newest write first. -/
structure Revisions (K V : Type) where
  rev : ℕ
  log : List (Logged K V)
  bounded : ∀ w ∈ log, w.rev ≤ rev

namespace Revisions

variable {K V : Type}

/-- A write takes the next revision. -/
def write (s : Revisions K V) (key : K) (value : Option V) : Revisions K V where
  rev := s.rev + 1
  log := ⟨s.rev + 1, key, value⟩ :: s.log
  bounded w hw := by
    rcases List.mem_cons.mp hw with rfl | hw
    · exact le_rfl
    · exact le_trans (s.bounded w hw) (Nat.le_succ _)

@[simp] theorem rev_write (s : Revisions K V) (key : K) (value : Option V) :
    (s.write key value).rev = s.rev + 1 := rfl

variable [DecidableEq K]

/-- The value of a key as of a revision. -/
def asOf (s : Revisions K V) (n : ℕ) (key : K) : Option V :=
  (s.log.find? fun w => decide (w.rev ≤ n) && decide (w.key = key)).bind Logged.value

/-- The value of a key. -/
def current (s : Revisions K V) (key : K) : Option V := s.asOf s.rev key

theorem asOf_write (s : Revisions K V) (key k : K) (value : Option V) (n : ℕ) :
    (s.write key value).asOf n k = if s.rev + 1 ≤ n ∧ key = k then value else s.asOf n k := by
  unfold asOf write
  rw [List.find?_cons]
  by_cases h : s.rev + 1 ≤ n ∧ key = k
  · simp [h]
  · rw [if_neg h]
    have hfalse : (decide (s.rev + 1 ≤ n) && decide (key = k)) = false := by simpa using h
    simp only [hfalse]

/-- What was just written is read. -/
theorem asOf_write_self (s : Revisions K V) (key : K) (value : Option V) :
    (s.write key value).asOf (s.rev + 1) key = value := by
  rw [asOf_write, if_pos ⟨le_rfl, rfl⟩]

/-- A write leaves the past alone. -/
theorem asOf_write_le (s : Revisions K V) (key k : K) (value : Option V) {n : ℕ} (h : n ≤ s.rev) :
    (s.write key value).asOf n k = s.asOf n k := by
  rw [asOf_write, if_neg fun hn => absurd hn.1 (by omega)]

/-- Beyond the last revision there is nothing new. -/
theorem asOf_of_ge (s : Revisions K V) {n : ℕ} (h : s.rev ≤ n) (key : K) : s.asOf n key = s.current key := by
  have hcongr : ∀ l : List (Logged K V), (∀ w ∈ l, w.rev ≤ s.rev) →
      l.find? (fun w => decide (w.rev ≤ n) && decide (w.key = key)) =
        l.find? (fun w => decide (w.rev ≤ s.rev) && decide (w.key = key)) := by
    intro l
    induction l with
    | nil => intro _; rfl
    | cons w l ih =>
      intro hl
      have hw : w.rev ≤ s.rev := hl w List.mem_cons_self
      rw [List.find?_cons, List.find?_cons, ih fun w hw => hl w (List.mem_cons_of_mem _ hw),
        decide_eq_true hw, decide_eq_true (le_trans hw h)]
  unfold current asOf
  rw [hcongr s.log s.bounded]

/-- A key that has a value was written. -/
theorem mem_of_asOf {s : Revisions K V} {n : ℕ} {key : K} {value : V} (h : s.asOf n key = some value) :
    key ∈ s.log.map Logged.key := by
  obtain ⟨w, hw, -⟩ := Option.bind_eq_some_iff.mp h
  have hkey := List.find?_some hw
  rw [Bool.and_eq_true, decide_eq_true_eq, decide_eq_true_eq] at hkey
  exact List.mem_map.mpr ⟨w, List.mem_of_find?_eq_some hw, hkey.2⟩

/-- From one revision to the next at most one key changes. -/
def Sequential (s : Revisions K V) : Prop := ∀ r < s.rev, ∃ key, ∀ k, k ≠ key → s.asOf (r + 1) k = s.asOf r k

theorem Sequential.write {s : Revisions K V} (h : s.Sequential) (key : K) (value : Option V) :
    (s.write key value).Sequential := by
  intro r hr
  rcases Nat.lt_succ_iff_lt_or_eq.mp hr with hlt | rfl
  · obtain ⟨k₀, hk₀⟩ := h r hlt
    refine ⟨k₀, fun k hk => ?_⟩
    rw [asOf_write_le s key k value hlt, asOf_write_le s key k value (Nat.le_of_lt hlt)]
    exact hk₀ k hk
  · refine ⟨key, fun k hk => ?_⟩
    rw [asOf_write_le s key k value le_rfl, asOf_write, if_neg fun hn => hk hn.2.symm]
    exact asOf_of_ge s (Nat.le_succ _) k

/-! ### What holds throughout -/

/-- `P` holds of every value there is or was. -/
def Holds (s : Revisions K V) (P : K → V → Prop) : Prop := ∀ n key value, s.asOf n key = some value → P key value

theorem Holds.write {s : Revisions K V} {P : K → V → Prop} (h : s.Holds P) {key : K} {value : Option V}
    (hvalue : ∀ v ∈ value, P key v) : (s.write key value).Holds P := by
  intro n k v hv
  rw [asOf_write] at hv
  split at hv
  · next hk =>
    rw [← hk.2]
    exact hvalue v hv
  · exact h n k v hv

/-! ### Later states -/

/-- The counter has not gone back, and the past is as it was. -/
structure Extends (s s' : Revisions K V) : Prop where
  rev : s.rev ≤ s'.rev
  asOf : ∀ {n : ℕ}, n ≤ s.rev → ∀ key, s'.asOf n key = s.asOf n key

theorem Extends.refl (s : Revisions K V) : s.Extends s := ⟨le_rfl, fun _ _ => rfl⟩

theorem Extends.trans {s s' s'' : Revisions K V} (h : s.Extends s') (h' : s'.Extends s'') : s.Extends s'' where
  rev := le_trans h.rev h'.rev
  asOf hn key := by rw [h'.asOf (le_trans hn h.rev), h.asOf hn]

theorem extends_write (s : Revisions K V) (key : K) (value : Option V) : s.Extends (s.write key value) where
  rev := Nat.le_succ _
  asOf hn k := asOf_write_le s key k value hn

end Revisions

end Lib
