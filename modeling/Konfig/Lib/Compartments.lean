import Mathlib.Data.List.Forall2

/-!
# Machines with many owners

A machine that many owners share: every label belongs to one of them and is answered to it.
It is made of compartments when a label moves only what its owner sees, and the answer
depends on nothing else.

* `Compartments`: what one label does to what each owner sees.
* `Compartments.alone`: an owner is answered as if its labels were the only ones.
* `Compartments.indistinguishable`: two runs in which an owner asks the same answer it the
  same, whatever the others do in each.
-/

namespace Lib

variable {σ α β κ ν : Type}

/-- A run, and the answer to each label. -/
def answers (step : σ → α → β × σ) : σ → List α → List (α × β)
  | _, [] => []
  | s, a :: as => (a, (step s a).1) :: answers step (step s a).2 as

/-- The state after a run. -/
def after (step : σ → α → β × σ) (s : σ) (as : List α) : σ := as.foldl (fun s a => (step s a).2) s

section

variable [DecidableEq κ]

/-- The answers to one owner. -/
def answersTo (step : σ → α → β × σ) (owner : α → κ) (k : κ) (s : σ) (as : List α) : List β :=
  ((answers step s as).filter fun p => owner p.1 = k).map Prod.snd

/-- The labels of one owner. -/
def labelsOf (owner : α → κ) (k : κ) (as : List α) : List α := as.filter fun a => owner a = k

end

/-- A label moves only what its owner sees, as told by that and by what it asks. -/
structure Compartments (step : σ → α → β × σ) (owner : α → κ) (view : σ → κ → ν) (asks : κ → α → α → Prop) :
    Prop where
  refl : ∀ {k a}, owner a = k → asks k a a
  own : ∀ {k s s' a a'}, owner a = k → owner a' = k → view s k = view s' k → asks k a a' →
    (step s a).1 = (step s' a').1 ∧ view (step s a).2 k = view (step s' a').2 k
  others : ∀ {k s a}, owner a ≠ k → view (step s a).2 k = view s k

namespace Compartments

variable {step : σ → α → β × σ} {owner : α → κ} {view : σ → κ → ν} {asks : κ → α → α → Prop}
  [DecidableEq κ] {k : κ}

theorem answersTo_cons_self {s : σ} {a : α} {as : List α} (h : owner a = k) :
    answersTo step owner k s (a :: as) = (step s a).1 :: answersTo step owner k (step s a).2 as := by
  rw [answersTo, answers, List.filter_cons_of_pos (by simpa using h), List.map_cons]
  rfl

theorem answersTo_cons_ne {s : σ} {a : α} {as : List α} (h : owner a ≠ k) :
    answersTo step owner k s (a :: as) = answersTo step owner k (step s a).2 as := by
  rw [answersTo, answers, List.filter_cons_of_neg (by simpa using h)]
  rfl

/-- **An owner is answered as if it were alone.** -/
theorem alone (h : Compartments step owner view asks) (as : List α) : ∀ {s s' : σ}, view s k = view s' k →
    answersTo step owner k s as = answersTo step owner k s' (labelsOf owner k as) ∧
      view (after step s as) k = view (after step s' (labelsOf owner k as)) k := by
  induction as with
  | nil => intro s s' hs; exact ⟨rfl, hs⟩
  | cons a as ih =>
    intro s s' hs
    by_cases ha : owner a = k
    · have hown := h.own ha ha hs (h.refl ha)
      have hcons : labelsOf owner k (a :: as) = a :: labelsOf owner k as :=
        List.filter_cons_of_pos (by simpa using ha)
      rw [hcons, answersTo_cons_self ha, answersTo_cons_self ha, hown.1, (ih hown.2).1]
      exact ⟨rfl, (ih hown.2).2⟩
    · have hcons : labelsOf owner k (a :: as) = labelsOf owner k as :=
        List.filter_cons_of_neg (by simpa using ha)
      rw [hcons, answersTo_cons_ne ha]
      exact ih ((h.others ha).trans hs)

/-- Runs of one owner that asks the same in both. -/
theorem same {as as' : List α} (h : Compartments step owner view asks) (has : ∀ a ∈ as, owner a = k)
    (has' : ∀ a ∈ as', owner a = k) (hasks : List.Forall₂ (asks k) as as') : ∀ {s s' : σ}, view s k = view s' k →
    answersTo step owner k s as = answersTo step owner k s' as' ∧
      view (after step s as) k = view (after step s' as') k := by
  induction hasks with
  | nil => intro s s' hs; exact ⟨rfl, hs⟩
  | @cons a a' as as' hask _ ih =>
    intro s s' hs
    rw [List.forall_mem_cons] at has has'
    have hown := h.own has.1 has'.1 hs hask
    have hrest := ih has.2 has'.2 hown.2
    rw [answersTo_cons_self has.1, answersTo_cons_self has'.1, hown.1, hrest.1]
    exact ⟨rfl, hrest.2⟩

theorem mem_labelsOf {a : α} {as : List α} (h : a ∈ labelsOf owner k as) : owner a = k :=
  of_decide_eq_true (List.mem_filter.mp h).2

/-- **Runs in which an owner asks the same are the same to it.** -/
theorem indistinguishable (h : Compartments step owner view asks) {as as' : List α} {s s' : σ}
    (hs : view s k = view s' k) (hasks : List.Forall₂ (asks k) (labelsOf owner k as) (labelsOf owner k as')) :
    answersTo step owner k s as = answersTo step owner k s' as' ∧
      view (after step s as) k = view (after step s' as') k := by
  obtain ⟨halone, hview⟩ := h.alone as hs
  obtain ⟨halone', hview'⟩ := h.alone as' (rfl : view s' k = view s' k)
  obtain ⟨hsame, hsameView⟩ := h.same (fun a ha => mem_labelsOf ha) (fun a ha => mem_labelsOf ha) hasks
    (rfl : view s' k = view s' k)
  exact ⟨halone.trans (hsame.trans halone'.symm), hview.trans (hsameView.trans hview'.symm)⟩

end Compartments

end Lib
