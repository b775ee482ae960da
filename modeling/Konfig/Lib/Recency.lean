import Mathlib.Data.List.Induction
import Mathlib.Data.List.Pairwise
import Mathlib.Order.Bounds.Basic
import Mathlib.Tactic.Linarith

/-!
# Entries in the order of their last use

A cache that evicts what was used least recently is a list of entries, each a key and its
cost, the least recent first.  A use of a key moves it to the end with the cost of now;
`shed` drops entries from the front until the cost fits a budget or one entry is left.

* `latest_snoc`: using keys one by one keeps of each key its latest use, in that order.
* `shed_eq_drop`: what is dropped is the shortest part from the front that will do.
* `toList_insert_last`, `toList_erase`: the order may be kept in a tree map whose keys
  are the ticks of a clock.
-/

namespace Lib

variable {K : Type*}

/-! ### The list -/

/-- What some entries cost. -/
def cost (l : List (K × ℕ)) : ℕ := (l.map Prod.snd).sum

@[simp] theorem cost_nil : cost ([] : List (K × ℕ)) = 0 := rfl

@[simp] theorem cost_cons (e : K × ℕ) (l : List (K × ℕ)) : cost (e :: l) = e.2 + cost l := rfl

@[simp] theorem cost_append (l l' : List (K × ℕ)) : cost (l ++ l') = cost l + cost l' := by
  simp [cost]

/-- Within the budget, or down to one entry. -/
def Fits (budget : ℕ) (l : List (K × ℕ)) : Prop := cost l ≤ budget ∨ l.length ≤ 1

instance (budget : ℕ) (l : List (K × ℕ)) : Decidable (Fits budget l) :=
  inferInstanceAs (Decidable (_ ∨ _))

/-- Drop entries from the front until the rest fits. -/
def shed (budget : ℕ) : List (K × ℕ) → List (K × ℕ)
  | [] => []
  | e :: l => if Fits budget (e :: l) then e :: l else shed budget l

/-- **The least number of entries that will do.** -/
theorem shed_eq_drop (budget : ℕ) (l : List (K × ℕ)) :
    ∃ n, shed budget l = l.drop n ∧ IsLeast {m | Fits budget (l.drop m)} n := by
  induction l with
  | nil => exact ⟨0, rfl, Or.inr (Nat.zero_le _), fun m _ => Nat.zero_le m⟩
  | cons e l ih =>
    by_cases h : Fits budget (e :: l)
    · exact ⟨0, by rw [shed, if_pos h, List.drop_zero], h, fun m _ => Nat.zero_le m⟩
    · obtain ⟨n, hn, hfits, hleast⟩ := ih
      refine ⟨n + 1, by rw [shed, if_neg h, hn, List.drop_succ_cons], hfits, fun m hm => ?_⟩
      cases m with
      | zero => exact absurd hm h
      | succ m => exact Nat.succ_le_succ (hleast hm)

/-- The last entry stays. -/
theorem shed_snoc (budget : ℕ) (l : List (K × ℕ)) (e : K × ℕ) :
    ∃ n ≤ l.length, shed budget (l ++ [e]) = l.drop n ++ [e] ∧
      IsLeast {m | Fits budget (l.drop m ++ [e])} n := by
  obtain ⟨n, hn, hfits, hleast⟩ := shed_eq_drop budget (l ++ [e])
  have hdrop : ∀ m ≤ l.length, (l ++ [e]).drop m = l.drop m ++ [e] := fun m hm =>
    List.drop_append_of_le_length hm
  have hlast : Fits budget ((l ++ [e]).drop l.length) := by
    rw [List.drop_left]
    exact Or.inr le_rfl
  have hle : n ≤ l.length := hleast hlast
  refine ⟨n, hle, by rw [hn, hdrop n hle], ?_, fun m hm => ?_⟩
  · show Fits budget (l.drop n ++ [e])
    rw [← hdrop n hle]
    exact hfits
  · rcases le_total m l.length with hml | hml
    · exact hleast (show Fits budget ((l ++ [e]).drop m) by rw [hdrop m hml]; exact hm)
    · exact hle.trans hml

section Uses

variable [DecidableEq K]

/-- A use of a key. -/
def touch (l : List (K × ℕ)) (e : K × ℕ) : List (K × ℕ) := l.filter (·.1 ≠ e.1) ++ [e]

/-- Of each key the latest use. -/
def latest (uses : List (K × ℕ)) : List (K × ℕ) := uses.pwFilter fun a b => a.1 ≠ b.1

theorem touch_suffix {l l' : List (K × ℕ)} (h : l <:+ l') (e : K × ℕ) : touch l e <:+ touch l' e := by
  obtain ⟨pre, rfl⟩ := h
  refine ⟨pre.filter (·.1 ≠ e.1), ?_⟩
  rw [touch, touch, List.filter_append, List.append_assoc]

theorem latest_cons (e : K × ℕ) (uses : List (K × ℕ)) :
    latest (e :: uses) = if e.1 ∈ (latest uses).map Prod.fst then latest uses else e :: latest uses := by
  unfold latest
  split
  · rename_i h
    obtain ⟨b, hb, hkey⟩ := List.mem_map.mp h
    exact List.pwFilter_cons_of_neg fun hall => hall b hb hkey.symm
  · rename_i h
    exact List.pwFilter_cons_of_pos fun b hb hkey => h (List.mem_map.mpr ⟨b, hb, hkey.symm⟩)

/-- **One more use.** -/
theorem latest_snoc (uses : List (K × ℕ)) (e : K × ℕ) : latest (uses ++ [e]) = touch (latest uses) e := by
  induction uses with
  | nil => rfl
  | cons a uses ih =>
    rw [List.cons_append, latest_cons, latest_cons, ih]
    by_cases hae : a.1 = e.1
    · -- the new use takes the place of `a`
      have hmem : a.1 ∈ (touch (latest uses) e).map Prod.fst := by simp [touch, hae]
      rw [if_pos hmem]
      split
      · rfl
      · rw [touch, touch, List.filter_cons_of_neg (by simpa using hae)]
    · have hmem : a.1 ∈ (touch (latest uses) e).map Prod.fst ↔ a.1 ∈ (latest uses).map Prod.fst := by
        simp only [touch, List.map_append, List.mem_append, List.mem_map, List.mem_filter]
        constructor
        · rintro (⟨b, ⟨hb, _⟩, hkey⟩ | ⟨b, hb, hkey⟩)
          · exact ⟨b, hb, hkey⟩
          · rw [List.mem_singleton] at hb
            rw [hb] at hkey
            exact absurd hkey.symm hae
        · rintro ⟨b, hb, hkey⟩
          exact Or.inl ⟨b, ⟨hb, by simpa [hkey] using hae⟩, hkey⟩
      by_cases ha : a.1 ∈ (latest uses).map Prod.fst
      · rw [if_pos (hmem.mpr ha), if_pos ha]
      · rw [if_neg (mt hmem.mp ha), if_neg ha, touch, touch, List.filter_cons_of_pos (by simpa using hae),
          List.cons_append]

theorem mem_latest {uses : List (K × ℕ)} {e : K × ℕ} (h : e ∈ latest uses) :
    ∃ pre post, uses = pre ++ e :: post ∧ ∀ e' ∈ post, e'.1 ≠ e.1 := by
  induction uses using List.reverseRecOn with
  | nil => cases h
  | append_singleton uses a ih =>
    rw [latest_snoc, touch, List.mem_append, List.mem_filter, List.mem_singleton] at h
    rcases h with ⟨he, hne⟩ | rfl
    · obtain ⟨pre, post, rfl, hpost⟩ := ih he
      refine ⟨pre, post ++ [a], by simp, fun e' he' => ?_⟩
      rw [List.mem_append, List.mem_singleton] at he'
      rcases he' with he' | rfl
      · exact hpost e' he'
      · have hkey : e.1 ≠ e'.1 := by simpa using hne
        exact hkey.symm
    · exact ⟨uses, [], rfl, nofun⟩

/-- The cost of an entry among others with other keys. -/
theorem cost_filter_ne {l : List (K × ℕ)} {e : K × ℕ} (hl : (l.map Prod.fst).Nodup) (he : e ∈ l) :
    cost (l.filter (·.1 ≠ e.1)) + e.2 = cost l := by
  induction l with
  | nil => cases he
  | cons a l ih =>
    rw [List.map_cons, List.nodup_cons] at hl
    rcases List.mem_cons.mp he with rfl | he
    · have hrest : l.filter (·.1 ≠ e.1) = l :=
        List.filter_eq_self.mpr fun b hb => by
          simpa using fun heq => hl.1 (List.mem_map.mpr ⟨b, hb, heq⟩)
      rw [List.filter_cons_of_neg (by simp), hrest, cost_cons, add_comm]
    · have hkey : a.1 ≠ e.1 := fun heq => hl.1 (List.mem_map.mpr ⟨e, he, heq.symm⟩)
      rw [List.filter_cons_of_pos (by simpa using hkey), cost_cons, cost_cons, add_assoc, ih hl.2 he]

end Uses

/-! ### The order in a tree map -/

section Ticks

variable {V : Type*} {t : Std.TreeMap ℕ V}

/-- Lists in the order of their ticks are equal if they have the same elements. -/
theorem eq_of_ticks {l l' : List (ℕ × V)} (hl : l.Pairwise (·.1 < ·.1)) (hl' : l'.Pairwise (·.1 < ·.1))
    (h : ∀ e, e ∈ l ↔ e ∈ l') : l = l' := by
  have hirrefl : ∀ m : List (ℕ × V), m.Pairwise (·.1 < ·.1) → m.Nodup := fun m hm =>
    hm.imp fun hlt heq => absurd hlt (by rw [heq]; exact lt_irrefl _)
  refine List.Perm.eq_of_pairwise (fun a b _ _ hab hba => absurd hab (lt_asymm hba)) hl hl' ?_
  exact (List.perm_ext_iff_of_nodup (hirrefl l hl) (hirrefl l' hl')).mpr h

theorem toList_ticks (t : Std.TreeMap ℕ V) : t.toList.Pairwise (·.1 < ·.1) :=
  Std.TreeMap.ordered_keys_toList.imp fun h => Nat.compare_eq_lt.mp h

/-- A tick after all others. -/
theorem toList_insert_last {tick : ℕ} {v : V} (h : ∀ e ∈ t.toList, e.1 < tick) :
    (t.insert tick v).toList = t.toList ++ [(tick, v)] := by
  refine eq_of_ticks (toList_ticks _) ?_ fun e => ?_
  · rw [List.pairwise_append]
    refine ⟨toList_ticks t, List.pairwise_singleton _ _, fun a ha b hb => ?_⟩
    rw [List.mem_singleton.mp hb]
    exact h a ha
  · obtain ⟨s, w⟩ := e
    rw [List.mem_append, List.mem_singleton, Std.TreeMap.mem_toList_iff_getElem?_eq_some,
      Std.TreeMap.mem_toList_iff_getElem?_eq_some, Std.TreeMap.getElem?_insert]
    by_cases hs : tick = s
    · subst hs
      have hnone : t[tick]? ≠ some w := fun hw =>
        absurd (h (tick, w) (Std.TreeMap.mem_toList_iff_getElem?_eq_some.mpr hw)) (lt_irrefl _)
      simp [hnone, eq_comm]
    · simp [hs, Ne.symm hs]

theorem toList_erase (t : Std.TreeMap ℕ V) (tick : ℕ) :
    (t.erase tick).toList = t.toList.filter (·.1 ≠ tick) := by
  refine eq_of_ticks (toList_ticks _) ((toList_ticks t).filter _) fun e => ?_
  obtain ⟨s, w⟩ := e
  rw [List.mem_filter, Std.TreeMap.mem_toList_iff_getElem?_eq_some,
    Std.TreeMap.mem_toList_iff_getElem?_eq_some, Std.TreeMap.getElem?_erase]
  by_cases hs : tick = s
  · simp [hs]
  · simp [hs, Ne.symm hs]

end Ticks

end Lib
