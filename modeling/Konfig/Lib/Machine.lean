import Mathlib.Data.List.Basic
import Mathlib.Data.List.Induction

/-!
# Machines and their runs

A machine is a partial step function `step : σ → α → Option σ`.  All
nondeterminism sits in the label: `step s a = none` says that `a` cannot happen
in `s`.  `run` folds the step over a list of labels, so an interleaving of
several actors is a list of labels and a statement about every interleaving is
a statement about every list with `run step s₀ as = some s`.

* `run_append`, `run_snoc`: runs compose.
* `run_induction`: a predicate of the labels so far and the state, kept by each
  step, holds at the end of every run.
* `Along C`: every step of the run meets the condition `C` on the labels so
  far, the state before the step and the step's label.
  `run_induction_along` is the induction rule that may use it, and
  `always_iff_along` the rule for a property that holds exactly under it.
* `Reaches`: some run leads there, in steps that meet a condition.
* `Lawful Allowed`: each label is one that is allowed after the labels before it;
  `run_isSome_iff` tells the runs of a machine by their labels alone.
-/

namespace Lib

variable {σ α : Type*} {step : σ → α → Option σ}

/-- Run a machine over a list of labels. -/
def run (step : σ → α → Option σ) : σ → List α → Option σ
  | s, [] => some s
  | s, a :: as => (step s a).bind fun s' => run step s' as

@[simp] theorem run_nil (s : σ) : run step s [] = some s := rfl

@[simp] theorem run_cons (s : σ) (a : α) (as : List α) :
    run step s (a :: as) = (step s a).bind fun s' => run step s' as := rfl

theorem run_singleton (s : σ) (a : α) : run step s [a] = step s a := by
  simp

theorem run_append : ∀ (as bs : List α) (s : σ),
    run step s (as ++ bs) = (run step s as).bind fun s' => run step s' bs := by
  intro as
  induction as with
  | nil => intro bs s; simp
  | cons a as ih =>
    intro bs s
    cases h : step s a with
    | none => simp [h]
    | some s' => simp [h, ih]

theorem run_append_some {as bs : List α} {s t : σ} (h : run step s (as ++ bs) = some t) :
    ∃ m, run step s as = some m ∧ run step m bs = some t := by
  rw [run_append] at h
  exact Option.bind_eq_some_iff.mp h

theorem run_snoc {as : List α} {a : α} {s t : σ} :
    run step s (as ++ [a]) = some t ↔ ∃ m, run step s as = some m ∧ step m a = some t := by
  rw [run_append, Option.bind_eq_some_iff]
  simp

theorem run_append_cons {as bs : List α} {a : α} {s t : σ} :
    run step s (as ++ a :: bs) = some t ↔
      ∃ m m', run step s as = some m ∧ step m a = some m' ∧ run step m' bs = some t := by
  rw [run_append, Option.bind_eq_some_iff]
  simp only [run_cons, Option.bind_eq_some_iff]
  constructor
  · rintro ⟨m, hm, m', hm', ht⟩
    exact ⟨m, m', hm, hm', ht⟩
  · rintro ⟨m, m', hm, hm', ht⟩
    exact ⟨m, hm, m', hm', ht⟩

/-! ### Invariants of runs -/

/-- **Induction over a run.**  `Inv` may mention the labels taken so far. -/
theorem run_induction {s₀ : σ} (Inv : List α → σ → Prop) (h0 : Inv [] s₀)
    (hstep : ∀ as s a t, run step s₀ as = some s → Inv as s → step s a = some t →
      Inv (as ++ [a]) t) :
    ∀ as s, run step s₀ as = some s → Inv as s := by
  intro as
  induction as using List.reverseRecOn with
  | nil =>
    intro s h
    simp only [run_nil, Option.some.injEq] at h
    subst h
    exact h0
  | append_singleton as a ih =>
    intro t h
    obtain ⟨s, hs, ha⟩ := run_snoc.mp h
    exact hstep as s a t hs (ih s hs) ha

/-- What every step with a label of `C` keeps, a run with such labels keeps. -/
theorem run_invariant {s₀ s : σ} {as : List α} {C : α → Prop} {Inv : σ → Prop} (h0 : Inv s₀)
    (hstep : ∀ s a t, Inv s → C a → step s a = some t → Inv t) (hC : ∀ a ∈ as, C a)
    (hrun : run step s₀ as = some s) : Inv s := by
  refine run_induction (fun as s => (∀ a ∈ as, C a) → Inv s) (fun _ => h0) ?_ as s hrun hC
  intro as s a t _ hs hat hC
  refine hstep s a t (hs fun b hb => hC b (List.mem_append_left _ hb)) (hC a ?_) hat
  exact List.mem_append_right _ (List.mem_singleton_self a)

/-- Every step of the run `as` from `s₀` meets `C`: `C` sees the labels before
the step, the state before it and its label. -/
def Along (step : σ → α → Option σ) (C : List α → σ → α → Prop) (s₀ : σ) (as : List α) : Prop :=
  ∀ pre a post s, as = pre ++ a :: post → run step s₀ pre = some s → C pre s a

theorem Along.last {C : List α → σ → α → Prop} {s₀ s : σ} {as : List α} {a : α}
    (h : Along step C s₀ (as ++ [a])) (hs : run step s₀ as = some s) : C as s a :=
  h as a [] s rfl hs

theorem Along.left {C : List α → σ → α → Prop} {s₀ : σ} {as bs : List α}
    (h : Along step C s₀ (as ++ bs)) : Along step C s₀ as := by
  intro pre a post s he hs
  exact h pre a (post ++ bs) s (by rw [he]; simp) hs

theorem Along.right {P : σ → α → Prop} {s₀ s : σ} {as bs : List α}
    (h : Along step (fun _ => P) s₀ (as ++ bs)) (hs : run step s₀ as = some s) :
    Along step (fun _ => P) s bs := by
  intro pre a post t he ht
  refine h (as ++ pre) a post t (by rw [he]; simp) ?_
  rw [run_append, hs, Option.bind_some, ht]

/-- The condition on one more step. -/
theorem along_snoc_iff {C : List α → σ → α → Prop} {s₀ s : σ} {as : List α} {a : α}
    (hs : run step s₀ as = some s) :
    Along step C s₀ (as ++ [a]) ↔ Along step C s₀ as ∧ C as s a := by
  constructor
  · intro h
    exact ⟨h.left, h.last hs⟩
  · rintro ⟨h, ha⟩ pre b post t he ht
    rcases List.eq_nil_or_concat post with rfl | ⟨post', c, rfl⟩
    · obtain ⟨rfl, hb⟩ := List.append_inj' he rfl
      rw [List.cons.injEq] at hb
      rw [hs, Option.some.injEq] at ht
      rw [← hb.1, ← ht]
      exact ha
    · rw [List.concat_eq_append, ← List.cons_append, ← List.append_assoc] at he
      obtain ⟨he, _⟩ := List.append_inj' he rfl
      exact h pre b post' t he ht

theorem along_nil (C : List α → σ → α → Prop) (s : σ) : Along step C s [] := by
  intro pre a post t he _
  simp at he

/-- For a condition on the state and the label only. -/
theorem along_cons {P : σ → α → Prop} {s : σ} {a : α} {as : List α} (h : P s a)
    (hrest : ∀ t, step s a = some t → Along step (fun _ => P) t as) :
    Along step (fun _ => P) s (a :: as) := by
  intro pre b post t he hrun
  cases pre with
  | nil =>
    rw [List.nil_append, List.cons.injEq] at he
    rw [run_nil, Option.some.injEq] at hrun
    rw [← he.1, ← hrun]
    exact h
  | cons c pre =>
    rw [List.cons_append, List.cons.injEq] at he
    obtain ⟨rfl, he⟩ := he
    rw [run_cons] at hrun
    obtain ⟨m, hm, hrun⟩ := Option.bind_eq_some_iff.mp hrun
    exact hrest m hm pre b post t he hrun

theorem along_cons_iff {P : σ → α → Prop} {s : σ} {a : α} {as : List α} :
    Along step (fun _ => P) s (a :: as) ↔
      P s a ∧ ∀ t ∈ step s a, Along step (fun _ => P) t as := by
  refine ⟨fun h => ?_, fun h => ?_⟩
  · refine ⟨h [] a as s rfl rfl, fun t ht pre b post u he hu => ?_⟩
    refine h (a :: pre) b post u (by rw [he]; rfl) ?_
    rw [run_cons, Option.mem_def.mp ht, Option.bind_some, hu]
  · exact along_cons h.1 h.2

/-- Two runs whose steps meet a condition, one after the other. -/
theorem Along.append {P : σ → α → Prop} {s t : σ} {as bs : List α}
    (ha : Along step (fun _ => P) s as) (hs : run step s as = some t)
    (hb : Along step (fun _ => P) t bs) : Along step (fun _ => P) s (as ++ bs) := by
  induction as generalizing s with
  | nil =>
    rw [run_nil, Option.some.injEq] at hs
    rw [hs]
    exact hb
  | cons a as ih =>
    obtain ⟨hP, hrest⟩ := along_cons_iff.mp ha
    obtain ⟨m, hm, hs⟩ := Option.bind_eq_some_iff.mp hs
    refine along_cons hP fun m' hm' => ?_
    obtain rfl : m = m' := Option.some.inj (hm.symm.trans hm')
    exact ih (hrest m hm) hs

/-- `t` can be reached from `s` in steps that meet a condition. -/
def Reaches (step : σ → α → Option σ) (P : σ → α → Prop) (s t : σ) : Prop :=
  ∃ as, run step s as = some t ∧ Along step (fun _ => P) s as

theorem Reaches.refl (P : σ → α → Prop) (s : σ) : Reaches step P s s := ⟨[], rfl, along_nil _ s⟩

theorem Reaches.single {P : σ → α → Prop} {s t : σ} {a : α} (h : step s a = some t) (hP : P s a) :
    Reaches step P s t :=
  ⟨[a], by rw [run_singleton, h], along_cons hP fun _ _ => along_nil _ _⟩

theorem Reaches.trans {P : σ → α → Prop} {s t u : σ} (hst : Reaches step P s t)
    (htu : Reaches step P t u) : Reaches step P s u := by
  obtain ⟨as, hs, ha⟩ := hst
  obtain ⟨bs, ht, hb⟩ := htu
  refine ⟨as ++ bs, ?_, ha.append hs hb⟩
  rw [run_append, hs, Option.bind_some, ht]

theorem Reaches.mono {P Q : σ → α → Prop} {s t : σ} (h : Reaches step P s t) (hPQ : ∀ s a, P s a → Q s a) :
    Reaches step Q s t := by
  obtain ⟨as, hs, hP⟩ := h
  exact ⟨as, hs, fun pre a post m he hm => hPQ m a (hP pre a post m he hm)⟩

/-- A decidable condition can be checked along a given run. -/
instance decidableAlong {P : σ → α → Prop} [∀ s a, Decidable (P s a)] :
    ∀ (as : List α) (s : σ), Decidable (Along step (fun _ => P) s as)
  | [], s => isTrue (along_nil _ s)
  | _ :: as, _ =>
    haveI : ∀ t, Decidable (Along step (fun _ => P) t as) := decidableAlong as
    decidable_of_iff _ along_cons_iff.symm

/-- **Induction over a run whose steps all meet a condition.** -/
theorem run_induction_along {s₀ : σ} (C : List α → σ → α → Prop) (Inv : List α → σ → Prop)
    (h0 : Inv [] s₀)
    (hstep : ∀ as s a t, run step s₀ as = some s → Inv as s → C as s a → step s a = some t →
      Inv (as ++ [a]) t) :
    ∀ as s, run step s₀ as = some s → Along step C s₀ as → Inv as s := by
  intro as
  induction as using List.reverseRecOn with
  | nil =>
    intro s h _
    simp only [run_nil, Option.some.injEq] at h
    subst h
    exact h0
  | append_singleton as a ih =>
    intro t h hC
    obtain ⟨s, hs, ha⟩ := run_snoc.mp h
    exact hstep as s a t hs (ih s hs hC.left) (hC.last hs) ha

/-- **When a property holds all along.**  If every step keeps it exactly under a
condition, it holds in each state of a run iff each step meets the condition. -/
theorem always_iff_along {s₀ : σ} (C : σ → α → Prop) (Inv : σ → Prop) (h0 : Inv s₀)
    (hstep : ∀ as s a t, run step s₀ as = some s → Inv s → step s a = some t → (Inv t ↔ C s a)) :
    ∀ as s, run step s₀ as = some s →
      ((∀ pre post t, as = pre ++ post → run step s₀ pre = some t → Inv t) ↔
        Along step (fun _ => C) s₀ as) := by
  intro as s hrun
  refine ⟨fun hall pre a post t he ht => ?_, fun hC pre post t he ht => ?_⟩
  · obtain ⟨t', u, ht', hu, _⟩ := run_append_cons.mp (he ▸ hrun)
    obtain rfl : t = t' := Option.some.inj (ht.symm.trans ht')
    have hbefore := hall pre (a :: post) t he ht
    have hafter := hall (pre ++ [a]) post u (by rw [he]; simp) (run_snoc.mpr ⟨t, ht, hu⟩)
    exact (hstep pre t a u ht hbefore hu).mp hafter
  · refine run_induction_along (fun _ => C) (fun _ => Inv) h0 ?_ pre t ht (Along.left (he ▸ hC))
    intro as s a t hs hinv hcond ha
    exact (hstep as s a t hs hinv ha).mpr hcond

/-! ### Runs told by their labels -/

section Lawful

variable {β : Type*} {Allowed : List α → α → Prop}

/-- Every label is one that is allowed after the labels before it. -/
def Lawful (Allowed : List α → α → Prop) (as : List α) : Prop :=
  ∀ pre a post, as = pre ++ a :: post → Allowed pre a

theorem lawful_nil (Allowed : List α → α → Prop) : Lawful Allowed [] := by
  intro pre a post he
  simp at he

theorem lawful_snoc {as : List α} {a : α} :
    Lawful Allowed (as ++ [a]) ↔ Lawful Allowed as ∧ Allowed as a := by
  constructor
  · intro h
    exact ⟨fun pre b post he => h pre b (post ++ [a]) (by rw [he]; simp), h as a [] rfl⟩
  · rintro ⟨h, ha⟩ pre b post he
    rcases List.eq_nil_or_concat post with rfl | ⟨post', c, rfl⟩
    · obtain ⟨rfl, hb⟩ := List.append_inj' he rfl
      rw [List.cons.injEq] at hb
      rw [← hb.1]
      exact ha
    · rw [List.concat_eq_append, ← List.cons_append, ← List.append_assoc] at he
      exact h pre b post' (List.append_inj' he rfl).1

/-- What is allowed may depend on a part of the labels only. -/
theorem lawful_map {f : β → α} {bs : List β} :
    Lawful (fun pre b => Allowed (pre.map f) (f b)) bs ↔ Lawful Allowed (bs.map f) := by
  induction bs using List.reverseRecOn with
  | nil => exact ⟨fun _ => lawful_nil _, fun _ => lawful_nil _⟩
  | append_singleton bs b ih => rw [lawful_snoc, ih, List.map_append, List.map_singleton, lawful_snoc]

/-- **A machine runs on the labels that are allowed**, if it steps on them from every state
that it has after the labels before them. -/
theorem run_isSome_iff {s₀ : σ} (Inv : List α → σ → Prop) (h0 : Inv [] s₀)
    (hallowed : ∀ as s a, Inv as s → ((step s a).isSome ↔ Allowed as a))
    (hstep : ∀ as s a t, Inv as s → step s a = some t → Inv (as ++ [a]) t) (as : List α) :
    (run step s₀ as).isSome ↔ Lawful Allowed as := by
  induction as using List.reverseRecOn with
  | nil => exact ⟨fun _ => lawful_nil _, fun _ => rfl⟩
  | append_singleton as a ih =>
    rw [lawful_snoc, ← ih, run_append]
    cases hs : run step s₀ as with
    | none => simp
    | some s =>
      have hinv := run_induction Inv h0 (fun as s a t _ h ha => hstep as s a t h ha) as s hs
      rw [Option.bind_some, run_singleton, hallowed as s a hinv]
      simp

end Lawful

end Lib
