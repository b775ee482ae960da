import Mathlib.Data.List.DropRight
import Mathlib.Data.List.Pairwise

/-!
# Bounded queues and binary search in them

A bounded FIFO drops its oldest element before it takes one more; after any
number of pushes it holds the last ones (`pushBounded_rtake` is the step).

A ring buffer lies in memory as two slices, a front and a back.  `searchDeque` is
the binary search over such a pair: it looks at the first element of the back
slice and then searches one of the two.  On sorted keys the place of the cut
does not show: a key that is there is found (`searchDeque_complete`), and
whatever is found has the key (`searchDeque_sound`), sorted or not.
-/

namespace Lib

/-! ### Bounded queues -/

section Bounded

variable {α : Type*}

/-- Push at the back; a full queue drops its front first. -/
def pushBounded (cap : Nat) (xs : List α) (x : α) : List α :=
  (if cap ≤ xs.length then xs.drop 1 else xs) ++ [x]

theorem mem_of_mem_pushBounded {cap : Nat} {xs : List α} {x y : α} (h : y ∈ pushBounded cap xs x) :
    y ∈ xs ∨ y = x := by
  unfold pushBounded at h
  rw [List.mem_append, List.mem_singleton] at h
  refine h.imp (fun h => ?_) id
  split at h
  · exact List.mem_of_mem_drop h
  · exact h

theorem pushBounded_rtake {cap : Nat} (hcap : 0 < cap) (xs : List α) (x : α) :
    pushBounded cap (xs.rtake cap) x = (xs ++ [x]).rtake cap := by
  unfold pushBounded List.rtake
  rw [List.length_append, List.length_singleton, List.length_drop]
  by_cases h : cap ≤ xs.length
  · rw [if_pos (by omega), List.drop_drop, List.drop_append_of_le_length (by omega)]
    congr 2
    omega
  · rw [if_neg (by omega), List.drop_append_of_le_length (by omega)]
    congr 2
    omega

theorem length_rtake_le (n : Nat) (xs : List α) : (xs.rtake n).length ≤ n := by
  rw [List.rtake, List.length_drop]
  omega

theorem rtake_sublist (n : Nat) (xs : List α) : (xs.rtake n).Sublist xs := List.drop_sublist _ _

/-- In a list whose keys increase, the elements above one of them come after it. -/
theorem filter_above {key : α → Nat} {xs ys : List α} {x : α}
    (h : (xs ++ x :: ys).Pairwise fun a b => key a < key b) :
    (xs ++ x :: ys).filter (fun y => decide (key x < key y)) = ys := by
  rw [List.pairwise_append, List.pairwise_cons] at h
  obtain ⟨_, ⟨habove, _⟩, hbelow⟩ := h
  have hxs : xs.filter (fun y => decide (key x < key y)) = [] := by
    rw [List.filter_eq_nil_iff]
    intro y hy
    have hlt := hbelow y hy x List.mem_cons_self
    simp only [decide_eq_true_eq]
    omega
  have hys : ys.filter (fun y => decide (key x < key y)) = ys := by
    rw [List.filter_eq_self]
    intro y hy
    exact decide_eq_true (habove y hy)
  rw [List.filter_append, List.filter_cons_of_neg (by simp), hxs, hys, List.nil_append]

end Bounded

/-! ### Binary search in one slice -/

/-- The loop: the answer lies in the window of `size` elements from `base` on. -/
def searchLoop (keys : List Nat) (target base size : Nat) : Nat :=
  if size ≤ 1 then base
  else
    searchLoop keys target (if target < keys.getD (base + size / 2) 0 then base else base + size / 2)
      (size - size / 2)
termination_by size
decreasing_by omega

def searchSlice (keys : List Nat) (target : Nat) : Option Nat :=
  if keys.length = 0 then none
  else if keys.getD (searchLoop keys target 0 keys.length) 0 = target then
    some (searchLoop keys target 0 keys.length)
  else none

theorem getD_mono {keys : List Nat} (hs : keys.Pairwise (· ≤ ·)) {a b : Nat} (hab : a ≤ b)
    (hb : b < keys.length) : keys.getD a 0 ≤ keys.getD b 0 := by
  rw [List.getD_eq_getElem?_getD, List.getD_eq_getElem?_getD, List.getElem?_eq_getElem hb,
    List.getElem?_eq_getElem (by omega)]
  rcases Nat.lt_or_eq_of_le hab with hab | rfl
  · exact List.pairwise_iff_getElem.mp hs a b (by omega) hb hab
  · exact le_rfl

theorem searchLoop_lt (keys : List Nat) (target : Nat) : ∀ (size base : Nat), 0 < size →
    base + size ≤ keys.length → searchLoop keys target base size < keys.length := by
  intro size
  induction size using Nat.strongRecOn with
  | ind size ih =>
    intro base hpos hle
    rw [searchLoop]
    split
    · omega
    · refine ih (size - size / 2) (by omega) _ (by omega) ?_
      split <;> omega

/-- On sorted keys the loop ends at the last key that is not above the target. -/
theorem searchLoop_last {keys : List Nat} {target : Nat} (hs : keys.Pairwise (· ≤ ·)) :
    ∀ (size base : Nat), 0 < size → base + size ≤ keys.length → keys.getD base 0 ≤ target →
    (∀ i, base + size ≤ i → i < keys.length → target < keys.getD i 0) →
    keys.getD (searchLoop keys target base size) 0 ≤ target ∧
      ∀ i, searchLoop keys target base size < i → i < keys.length → target < keys.getD i 0 := by
  intro size
  induction size using Nat.strongRecOn with
  | ind size ih =>
    intro base hpos hle hlow hhigh
    rw [searchLoop]
    by_cases hsize : size ≤ 1
    · rw [if_pos hsize]
      exact ⟨hlow, fun i hi hl => hhigh i (by omega) hl⟩
    · rw [if_neg hsize]
      by_cases hmid : target < keys.getD (base + size / 2) 0
      · rw [if_pos hmid]
        refine ih (size - size / 2) (by omega) base (by omega) (by omega) hlow fun i hi hl => ?_
        exact lt_of_lt_of_le hmid (getD_mono hs (by omega) hl)
      · rw [if_neg hmid]
        refine ih (size - size / 2) (by omega) _ (by omega) (by omega) (by omega) fun i hi hl => ?_
        exact hhigh i (by omega) hl

theorem searchSlice_sound {keys : List Nat} {target i : Nat} (h : searchSlice keys target = some i) :
    keys[i]? = some target := by
  unfold searchSlice at h
  split at h
  · cases h
  · rename_i hne
    split at h
    · rename_i heq
      cases h
      have hlt := searchLoop_lt keys target keys.length 0 (by omega) (by omega)
      rw [List.getD_eq_getElem?_getD, List.getElem?_eq_getElem hlt] at heq
      rw [List.getElem?_eq_getElem hlt]
      exact congrArg some heq
    · cases h

theorem searchSlice_complete {keys : List Nat} {target : Nat} (hs : keys.Pairwise (· ≤ ·))
    (hmem : target ∈ keys) : ∃ i, searchSlice keys target = some i := by
  obtain ⟨j, hj, hjt⟩ := List.getElem_of_mem hmem
  have hkey : keys.getD j 0 = target := by
    rw [List.getD_eq_getElem?_getD, List.getElem?_eq_getElem hj]
    exact hjt
  have hfirst : keys.getD 0 0 ≤ target := by
    rw [← hkey]
    exact getD_mono hs (by omega) hj
  obtain ⟨hle, hlast⟩ := searchLoop_last hs keys.length 0 (by omega) (by omega) hfirst
    fun i hi hl => absurd hl (by omega)
  have hlt := searchLoop_lt keys target keys.length 0 (by omega) (by omega)
  have hjb : j ≤ searchLoop keys target 0 keys.length := by
    by_contra hcon
    have := hlast j (by omega) hj
    omega
  have hge := getD_mono hs hjb hlt
  refine ⟨searchLoop keys target 0 keys.length, ?_⟩
  rw [searchSlice, if_neg (by omega), if_pos (by omega)]

/-! ### Binary search in a ring buffer -/

/-- `VecDeque::binary_search` on a ring whose front slice has `front` elements. -/
def searchDeque (front : Nat) (keys : List Nat) (target : Nat) : Option Nat :=
  match (keys.drop front).head? with
  | some b =>
    if b = target then some front
    else if b < target then (searchSlice (keys.drop front) target).map (· + front)
    else searchSlice (keys.take front) target
  | none => searchSlice (keys.take front) target

theorem getElem?_of_take {keys : List Nat} {front i target : Nat}
    (h : (keys.take front)[i]? = some target) : keys[i]? = some target := by
  rw [List.getElem?_take] at h
  split at h
  · exact h
  · cases h

/-- What is found has the key. -/
theorem searchDeque_sound {front : Nat} {keys : List Nat} {target i : Nat}
    (h : searchDeque front keys target = some i) : keys[i]? = some target := by
  unfold searchDeque at h
  split at h
  · rename_i b hb
    rw [List.head?_drop] at hb
    split at h
    · rename_i heq
      cases h
      rw [hb, heq]
    · split at h
      · obtain ⟨k, hk, rfl⟩ := Option.map_eq_some_iff.mp h
        have := searchSlice_sound hk
        rwa [List.getElem?_drop, Nat.add_comm] at this
      · exact getElem?_of_take (searchSlice_sound h)
  · exact getElem?_of_take (searchSlice_sound h)

/-- **On sorted keys a key that is there is found**, wherever the ring is cut. -/
theorem searchDeque_complete (front : Nat) {keys : List Nat} {target : Nat}
    (hs : keys.Pairwise (· ≤ ·)) (hmem : target ∈ keys) :
    ∃ i, searchDeque front keys target = some i := by
  have hback := hs.sublist (List.drop_sublist front keys)
  have hfront := hs.sublist (List.take_sublist front keys)
  rw [← List.take_append_drop front keys, List.mem_append] at hmem
  unfold searchDeque
  cases hb : (keys.drop front).head? with
  | none =>
    have hnil : keys.drop front = [] := List.head?_eq_none_iff.mp hb
    rw [hnil] at hmem
    exact searchSlice_complete hfront (hmem.resolve_right (by simp))
  | some b =>
    obtain ⟨rest, hrest⟩ : ∃ rest, keys.drop front = b :: rest := List.head?_eq_some_iff.mp hb
    simp only
    by_cases heq : b = target
    · exact ⟨front, by rw [if_pos heq]⟩
    · rw [if_neg heq]
      by_cases hlt : b < target
      · rw [if_pos hlt]
        have hin : target ∈ keys.drop front := by
          rcases hmem with h | h
          · -- every key of the front slice is at most the first of the back slice
            have hcross : target ≤ b := by
              have hp := hs
              rw [← List.take_append_drop front keys, List.pairwise_append] at hp
              exact hp.2.2 target h b (by rw [hrest]; simp)
            omega
          · exact h
        obtain ⟨i, hi⟩ := searchSlice_complete hback hin
        exact ⟨i + front, by rw [hi]; rfl⟩
      · rw [if_neg hlt]
        refine searchSlice_complete hfront ?_
        rcases hmem with h | h
        · exact h
        · have hle : b ≤ target := by
            rw [hrest] at h hback
            rcases List.mem_cons.mp h with h | h
            · exact le_of_eq h.symm
            · exact (List.pairwise_cons.mp hback).1 target h
          omega

end Lib
