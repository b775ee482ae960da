import Mathlib.Algebra.BigOperators.Group.List.Basic
import Mathlib.Algebra.Order.Ring.Int
import Mathlib.Tactic.Linarith

/-!
# Operations that may panic

A computation that may panic is an `Except Fault`: an arithmetic operation whose result is
not a number of its type, an index past the end, an `expect` on nothing.

`Returns x P v` says that `x` ends with `v`, and exactly when `P` holds; it goes through binds
and maps (`Returns.bind`, `Returns.mapM`, `Returns.mapM_range`).

* `sumFrom_returns`: a running sum stays within its type when every partial sum does.
* `sums_fit_iff`: and so in every order, when the positive and the negative part do.
-/

namespace Lib

inductive Fault
  | overflow
  | outOfBounds
  | expectFailed
  deriving DecidableEq, Repr

abbrev Checked := Except Fault

namespace Checked

universe u

variable {α β : Type u}

/-! ### Operations -/

/-- The result of an arithmetic operation, if it is a number of its type. -/
def number (InType : α → Prop) [DecidablePred InType] (n : α) : Checked α :=
  if InType n then .ok n else .error .overflow

/-- Subtraction of unsigned numbers. -/
def sub (a b : ℕ) : Checked ℕ := if b ≤ a then .ok (a - b) else .error .overflow

def index (xs : List α) (i : ℕ) : Checked α :=
  match xs[i]? with
  | some x => .ok x
  | none => .error .outOfBounds

def expect : Option α → Checked α
  | some x => .ok x
  | none => .error .expectFailed

@[simp] theorem ok_bind (a : α) (f : α → Checked β) : (Except.ok a : Checked α) >>= f = f a := rfl

theorem bind_eq_ok {x : Checked α} {f : α → Checked β} {b : β} :
    x >>= f = .ok b ↔ ∃ a, x = .ok a ∧ f a = .ok b := by
  cases x with
  | error fault => exact iff_of_false nofun (by rintro ⟨a, ha, _⟩; cases ha)
  | ok a => simp

theorem number_of {InType : α → Prop} [DecidablePred InType] {n : α} (h : InType n) :
    number InType n = .ok n := if_pos h

theorem sub_of_le {a b : ℕ} (h : b ≤ a) : sub a b = .ok (a - b) := if_pos h

theorem index_eq_ok {xs : List α} {i : ℕ} {x : α} : index xs i = .ok x ↔ xs[i]? = some x := by
  unfold index
  cases xs[i]? <;> simp

theorem expect_eq_ok {o : Option α} {x : α} : expect o = .ok x ↔ o = some x := by
  cases o <;> simp [expect]

/-! ### Returning -/

/-- `x` returns `v`, and exactly when `P` holds. -/
def Returns (x : Checked α) (P : Prop) (v : α) : Prop := ∀ a, x = .ok a ↔ P ∧ v = a

variable {x : Checked α} {P Q : Prop} {v : α}

theorem Returns.eq (h : Returns x P v) (hP : P) : x = .ok v := (h v).mpr ⟨hP, rfl⟩

theorem Returns.exists_iff (h : Returns x P v) : (∃ a, x = .ok a) ↔ P := by
  constructor
  · rintro ⟨a, ha⟩
    exact ((h a).mp ha).1
  · exact fun hP => ⟨v, h.eq hP⟩

theorem Returns.congr (h : Returns x P v) (hPQ : P ↔ Q) : Returns x Q v := fun a => by
  rw [h a, hPQ]

theorem Returns.ok (v : α) : Returns (.ok v) True v := fun a => by simp

/-- The rest may rely on what the first part needed. -/
theorem Returns.bind {f : α → Checked β} {w : β} (hx : Returns x P v) (hf : P → Returns (f v) Q w) :
    Returns (x >>= f) (P ∧ Q) w := fun b => by
  rw [bind_eq_ok]
  constructor
  · rintro ⟨a, ha, hb⟩
    obtain ⟨hP, rfl⟩ := (hx a).mp ha
    obtain ⟨hQ, rfl⟩ := (hf hP b).mp hb
    exact ⟨⟨hP, hQ⟩, rfl⟩
  · rintro ⟨⟨hP, hQ⟩, rfl⟩
    exact ⟨v, hx.eq hP, (hf hP).eq hQ⟩

theorem Returns.map {g : α → β} (hx : Returns x P v) : Returns (x >>= fun a => pure (g a)) P (g v) :=
  (hx.bind fun _ => Returns.ok (g v)).congr (iff_of_eq (and_true P))

theorem number_returns (InType : α → Prop) [DecidablePred InType] (n : α) :
    Returns (number InType n) (InType n) n := fun a => by
  unfold number
  split <;> simp [*]

theorem index_returns (xs : List α) (i : ℕ) (d : α) : Returns (index xs i) (i < xs.length) (xs.getD i d) :=
  fun a => by
    rw [index_eq_ok, List.getElem?_eq_some_iff]
    constructor
    · rintro ⟨h, rfl⟩
      exact ⟨h, by simp [h]⟩
    · rintro ⟨h, rfl⟩
      exact ⟨h, by simp [h]⟩

/-! ### Lists -/

theorem pure_eq_ok {a b : α} : (pure a : Checked α) = .ok b ↔ a = b := by
  change (Except.ok a : Checked α) = .ok b ↔ _
  rw [Except.ok.injEq]

theorem Returns.mapM {f : α → Checked β} {C : α → Prop} {g : α → β} {xs : List α}
    (h : ∀ x ∈ xs, Returns (f x) (C x) (g x)) : Returns (xs.mapM f) (∀ x ∈ xs, C x) (xs.map g) := by
  induction xs with
  | nil => exact (Returns.ok []).congr (by simp)
  | cons x xs ih =>
    rw [List.mapM_cons, List.forall_mem_cons, List.map_cons]
    have hrest := ih fun y hy => h y (List.mem_cons_of_mem x hy)
    refine (h x List.mem_cons_self).bind fun _ => ?_
    exact hrest.map

/-- A map over the indices of a list. -/
theorem Returns.mapM_range {f : ℕ → Checked β} {C : ℕ → α → Prop} {g : ℕ → α → β} {xs : List α}
    (h : ∀ i x, xs[i]? = some x → Returns (f i) (C i x) (g i x)) :
    Returns ((List.range xs.length).mapM f) (∀ i x, xs[i]? = some x → C i x) (xs.mapIdx g) := by
  have hindices : (List.range xs.length).mapM f = xs.zipIdx.mapM fun p => f p.2 := by
    rw [List.range_eq_range', ← List.zipIdx_map_snd 0 xs, List.mapM_map]
    rfl
  have hall : ∀ p ∈ xs.zipIdx, Returns (f p.2) (C p.2 p.1) (g p.2 p.1) := fun p hp =>
    h p.2 p.1 (List.mem_zipIdx_iff_getElem?.mp hp)
  rw [hindices, List.mapIdx_eq_zipIdx_map]
  refine (Returns.mapM hall).congr ⟨fun hC i x hget => ?_, fun hC p hp => ?_⟩
  · exact hC (x, i) (List.mem_zipIdx_iff_getElem?.mpr hget)
  · exact hC p.2 p.1 (List.mem_zipIdx_iff_getElem?.mp hp)

/-! ### Sums -/

section Sums

variable (InType : ℤ → Prop) [DecidablePred InType]

/-- A running sum. -/
def sumFrom (start : ℤ) (xs : List ℤ) : Checked ℤ := xs.foldlM (fun a b => number InType (a + b)) start

omit [DecidablePred InType] in
/-- Every sum on the way is a number of its type. -/
def PartialSums (start : ℤ) (xs : List ℤ) : Prop := ∀ pre, pre <+: xs → pre ≠ [] → InType (start + pre.sum)

variable {InType}

omit [DecidablePred InType] in
theorem partialSums_nil (start : ℤ) : PartialSums InType start [] := fun _ hpre hne =>
  absurd (List.prefix_nil.mp hpre) hne

omit [DecidablePred InType] in
theorem partialSums_cons {start x : ℤ} {xs : List ℤ} :
    PartialSums InType start (x :: xs) ↔ InType (start + x) ∧ PartialSums InType (start + x) xs := by
  constructor
  · intro h
    refine ⟨?_, fun pre hpre _ => ?_⟩
    · have hone := h [x] (List.cons_prefix_cons.mpr ⟨rfl, List.nil_prefix⟩) (List.cons_ne_nil x [])
      rwa [List.sum_singleton] at hone
    · have hpre := h (x :: pre) (List.cons_prefix_cons.mpr ⟨rfl, hpre⟩) (List.cons_ne_nil x pre)
      rwa [List.sum_cons, ← add_assoc] at hpre
  · rintro ⟨hx, hxs⟩ pre hpre hne
    obtain ⟨y, pre, rfl⟩ := List.exists_cons_of_ne_nil hne
    obtain ⟨rfl, hrest⟩ := List.cons_prefix_cons.mp hpre
    rcases eq_or_ne pre [] with rfl | hpos
    · rwa [List.sum_singleton]
    · rw [List.sum_cons, ← add_assoc]
      exact hxs pre hrest hpos

theorem sumFrom_returns (InType : ℤ → Prop) [DecidablePred InType] (start : ℤ) (xs : List ℤ) :
    Returns (sumFrom InType start xs) (PartialSums InType start xs) (start + xs.sum) := by
  unfold sumFrom
  induction xs generalizing start with
  | nil =>
    rw [List.sum_nil, add_zero]
    exact (Returns.ok start).congr (iff_of_true trivial (partialSums_nil start))
  | cons x xs ih =>
    rw [List.foldlM_cons, List.sum_cons, ← add_assoc]
    exact ((number_returns InType (start + x)).bind fun _ => ih (start + x)).congr partialSums_cons.symm

/-- The sum of the positive numbers, and of the negative ones. -/
def positivePart (xs : List ℤ) : ℤ := (xs.map (max 0)).sum

def negativePart (xs : List ℤ) : ℤ := (xs.map (min 0)).sum

@[simp] theorem positivePart_append (xs ys : List ℤ) :
    positivePart (xs ++ ys) = positivePart xs + positivePart ys := by
  simp [positivePart]

@[simp] theorem negativePart_append (xs ys : List ℤ) :
    negativePart (xs ++ ys) = negativePart xs + negativePart ys := by
  simp [negativePart]

theorem parts_bound (xs : List ℤ) :
    negativePart xs ≤ 0 ∧ negativePart xs ≤ xs.sum ∧ xs.sum ≤ positivePart xs ∧ 0 ≤ positivePart xs := by
  induction xs with
  | nil => simp [negativePart, positivePart]
  | cons x xs ih =>
    simp only [negativePart, positivePart, List.map_cons, List.sum_cons] at ih ⊢
    omega

theorem sum_filter_positive (xs : List ℤ) : (xs.filter (0 < ·)).sum = positivePart xs := by
  induction xs with
  | nil => rfl
  | cons x xs ih =>
    simp only [positivePart, List.map_cons, List.sum_cons, List.filter_cons] at ih ⊢
    split
    · next h =>
      rw [List.sum_cons, ih, max_eq_right (by simpa using (of_decide_eq_true h).le)]
    · next h =>
      rw [ih, max_eq_left (by simpa using h), zero_add]

theorem sum_filter_negative (xs : List ℤ) : (xs.filter (· < 0)).sum = negativePart xs := by
  induction xs with
  | nil => rfl
  | cons x xs ih =>
    simp only [negativePart, List.map_cons, List.sum_cons, List.filter_cons] at ih ⊢
    split
    · next h =>
      rw [List.sum_cons, ih, min_eq_right (by simpa using (of_decide_eq_true h).le)]
    · next h =>
      rw [ih, min_eq_left (by simpa using h), zero_add]

/-- **Sums in any order.**  Numbers can be added up in every order without leaving a range around
zero exactly when their positive and their negative part lie in it. -/
theorem sums_fit_iff {lo hi : ℤ} (hlo : lo ≤ 0) (hhi : 0 < hi) (xs : List ℤ) :
    (∀ ys : List ℤ, ys.Perm xs → PartialSums (fun n => lo ≤ n ∧ n < hi) 0 ys) ↔
      lo ≤ negativePart xs ∧ positivePart xs < hi := by
  constructor
  · intro hall
    have hsum : ∀ pre, (∃ ys : List ℤ, ys.Perm xs ∧ pre <+: ys) → lo ≤ pre.sum ∧ pre.sum < hi := by
      rintro pre ⟨ys, hperm, hpre⟩
      rcases eq_or_ne pre [] with rfl | hne
      · exact ⟨hlo, hhi⟩
      · have hpre := hall ys hperm pre hpre hne
        rwa [zero_add] at hpre
    refine ⟨?_, ?_⟩
    · rw [← sum_filter_negative]
      exact (hsum _ ⟨_, List.filter_append_perm (· < 0) xs, List.prefix_append _ _⟩).1
    · rw [← sum_filter_positive]
      exact (hsum _ ⟨_, List.filter_append_perm (0 < ·) xs, List.prefix_append _ _⟩).2
  · rintro ⟨hneg, hpos⟩ ys hperm pre ⟨post, rfl⟩ _
    have hposperm : positivePart (pre ++ post) = positivePart xs := (hperm.map (max 0)).sum_eq
    have hnegperm : negativePart (pre ++ post) = negativePart xs := (hperm.map (min 0)).sum_eq
    rw [positivePart_append] at hposperm
    rw [negativePart_append] at hnegperm
    obtain ⟨_, hge, hle, _⟩ := parts_bound pre
    obtain ⟨hnegpost, _, _, hpospost⟩ := parts_bound post
    rw [zero_add]
    exact ⟨by omega, by omega⟩

end Sums

end Checked

end Lib
