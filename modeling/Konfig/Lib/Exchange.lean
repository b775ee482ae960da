import Konfig.Lib.Proc

/-!
# Completed exchanges of one process

`Ends x tr r`: the fallible process `x` runs to its end, having exchanged the operations
and responses `tr`, and its outcome is `r`.  Nothing is said about where the responses
come from.  That is `Answered env s tr s'`: the environment gives these responses one after
the other and goes from `s` to `s'`.

A program is inverted once and for all: `ends_bind` splits a completed exchange where the
program does, and `ends_op`, `ends_pure`, `ends_throw` and `ends_liftExcept` are its
leaves.  `play` runs a process against a sequence of answers.  `ends_total` says that an
environment that answers everything lets every process end, so that a statement about
completed exchanges is not empty.
-/

namespace Lib

namespace Proc

variable {Op : Type} {Resp : Op → Type} {α β ε : Type}

/-- A completed process, split at a `bind`. -/
theorem steps_bind {f : α → Proc Op Resp β} {b : β} : ∀ {p : Proc Op Resp α}
    {tr : List ((o : Op) × Resp o)}, (p >>= f).Steps tr (.ret b) ↔
      ∃ tr₁ tr₂ a, tr = tr₁ ++ tr₂ ∧ p.Steps tr₁ (.ret a) ∧ (f a).Steps tr₂ (.ret b) := by
  intro p
  induction p with
  | ret a =>
    intro tr
    constructor
    · intro h
      exact ⟨[], tr, a, rfl, .nil _, h⟩
    · rintro ⟨tr₁, tr₂, a', rfl, h₁, h₂⟩
      obtain ⟨rfl, ha⟩ := steps_ret h₁
      cases ha
      exact h₂
  | call o k ih =>
    intro tr
    constructor
    · intro h
      cases h with
      | cons h =>
        obtain ⟨tr₁, tr₂, a, rfl, h₁, h₂⟩ := (ih _).mp h
        exact ⟨_ :: tr₁, tr₂, a, rfl, .cons h₁, h₂⟩
    · rintro ⟨tr₁, tr₂, a, rfl, h₁, h₂⟩
      cases h₁ with
      | cons h₁ => exact .cons ((ih _).mpr ⟨_, tr₂, a, rfl, h₁, h₂⟩)

/-- A completed process over a larger set of operations exchanged what the process
itself did. -/
theorem steps_embed {Op' : Type} {Resp' : Op' → Type} {f : Op → Op'}
    {back : ∀ o, Resp' (f o) → Resp o} {fwd : ∀ o, Resp o → Resp' (f o)}
    (hfwd : ∀ o r, fwd o (back o r) = r) {a : α} : ∀ {p : Proc Op Resp α}
    {tr : List ((o : Op') × Resp' o)}, (p.embed f back).Steps tr (.ret a) →
      ∃ tr₀, tr = tr₀.map (fun e => ⟨f e.1, fwd e.1 e.2⟩) ∧ p.Steps tr₀ (.ret a) := by
  intro p
  induction p with
  | ret b =>
    intro tr h
    obtain ⟨rfl, hb⟩ := steps_ret h
    cases hb
    exact ⟨[], rfl, .nil _⟩
  | call o k ih =>
    intro tr h
    cases h with
    | @cons _ _ r tr _ h =>
      obtain ⟨tr₀, rfl, h₀⟩ := ih _ h
      refine ⟨⟨o, back o r⟩ :: tr₀, ?_, .cons h₀⟩
      rw [List.map_cons, hfwd]

/-- The other direction. -/
theorem steps_embed_of {Op' : Type} {Resp' : Op' → Type} {f : Op → Op'}
    {back : ∀ o, Resp' (f o) → Resp o} {fwd : ∀ o, Resp o → Resp' (f o)}
    (hback : ∀ o r, back o (fwd o r) = r) {a : α} {p : Proc Op Resp α} {tr : List ((o : Op) × Resp o)}
    (h : p.Steps tr (.ret a)) :
    (p.embed f back).Steps (tr.map fun e => ⟨f e.1, fwd e.1 e.2⟩) (.ret a) := by
  generalize hq : (Proc.ret a : Proc Op Resp α) = q at h
  induction h with
  | nil => subst hq; exact .nil _
  | @cons o k r tr q _ ih =>
    refine .cons ?_
    rw [hback]
    exact ih hq

/-! ### Fallible processes -/

/-- The process runs to its end with these exchanges and this outcome. -/
def Ends (x : ExceptT ε (Proc Op Resp) α) (tr : List ((o : Op) × Resp o)) (r : Except ε α) : Prop :=
  x.run.Steps tr (.ret r)

variable {tr : List ((o : Op) × Resp o)} {r : Except ε α}

@[simp] theorem ends_pure {a : α} :
    Ends (pure a : ExceptT ε (Proc Op Resp) α) tr r ↔ tr = [] ∧ r = .ok a := by
  constructor
  · intro h
    obtain ⟨rfl, hr⟩ := steps_ret h
    cases hr
    exact ⟨rfl, rfl⟩
  · rintro ⟨rfl, rfl⟩
    exact .nil _

@[simp] theorem ends_throw {e : ε} :
    Ends (throw e : ExceptT ε (Proc Op Resp) α) tr r ↔ tr = [] ∧ r = .error e := by
  constructor
  · intro h
    obtain ⟨rfl, hr⟩ := steps_ret h
    cases hr
    exact ⟨rfl, rfl⟩
  · rintro ⟨rfl, rfl⟩
    exact .nil _

@[simp] theorem ends_liftExcept {x : Except ε α} :
    Ends (liftM x : ExceptT ε (Proc Op Resp) α) tr r ↔ tr = [] ∧ r = x := by
  cases x with
  | ok a => exact ends_pure
  | error e => exact ends_throw

@[simp] theorem ends_op {o : Op} {r : Except ε (Resp o)} :
    Ends (ExceptT.lift (op o) : ExceptT ε (Proc Op Resp) (Resp o)) tr r ↔
      ∃ a, tr = [⟨o, a⟩] ∧ r = .ok a := by
  constructor
  · intro h
    cases h with
    | cons h =>
      obtain ⟨rfl, hr⟩ := steps_ret h
      cases hr
      exact ⟨_, rfl, rfl⟩
  · rintro ⟨a, rfl, rfl⟩
    exact .cons (.nil _)

/-- **A sequence of two fallible processes**: the first one fails, or the second one takes
over where it succeeds. -/
theorem ends_bind {x : ExceptT ε (Proc Op Resp) α} {f : α → ExceptT ε (Proc Op Resp) β}
    {r : Except ε β} : Ends (x >>= f) tr r ↔
      (∃ e, r = .error e ∧ Ends x tr (.error e)) ∨
        ∃ tr₁ tr₂ a, tr = tr₁ ++ tr₂ ∧ Ends x tr₁ (.ok a) ∧ Ends (f a) tr₂ r := by
  unfold Ends
  rw [ExceptT.run_bind, steps_bind]
  constructor
  · rintro ⟨tr₁, tr₂, a, rfl, h₁, h₂⟩
    cases a with
    | ok a => exact .inr ⟨tr₁, tr₂, a, rfl, h₁, h₂⟩
    | error e =>
      obtain ⟨rfl, hr⟩ := steps_ret h₂
      cases hr
      exact .inl ⟨e, rfl, by rwa [List.append_nil]⟩
  · rintro (⟨e, rfl, h⟩ | ⟨tr₁, tr₂, a, rfl, h₁, h₂⟩)
    · exact ⟨tr, [], .error e, (List.append_nil _).symm, h, .nil _⟩
    · exact ⟨tr₁, tr₂, .ok a, rfl, h₁, h₂⟩

/-- A decision before the process. -/
theorem ends_liftExcept_bind {x : Except ε α} {f : α → ExceptT ε (Proc Op Resp) β}
    {r : Except ε β} : Ends ((liftM x : ExceptT ε (Proc Op Resp) α) >>= f) tr r ↔
      (∃ e, x = .error e ∧ tr = [] ∧ r = .error e) ∨ ∃ a, x = .ok a ∧ Ends (f a) tr r := by
  cases x with
  | ok a =>
    constructor
    · intro h
      exact .inr ⟨a, rfl, h⟩
    · rintro (⟨e, he, _⟩ | ⟨b, hb, h⟩)
      · cases he
      · cases hb
        exact h
  | error e =>
    constructor
    · intro h
      obtain ⟨rfl, rfl⟩ := ends_throw.mp h
      exact .inl ⟨e, rfl, rfl, rfl⟩
    · rintro (⟨e', he, rfl, rfl⟩ | ⟨b, hb, _⟩)
      · cases he
        exact ends_throw.mpr ⟨rfl, rfl⟩
      · cases hb

/-- An operation before the process. -/
theorem ends_op_bind {o : Op} {f : Resp o → ExceptT ε (Proc Op Resp) β} {r : Except ε β} :
    Ends ((ExceptT.lift (op o) : ExceptT ε (Proc Op Resp) (Resp o)) >>= f) tr r ↔
      ∃ a tr', tr = ⟨o, a⟩ :: tr' ∧ Ends (f a) tr' r := by
  rw [ends_bind]
  constructor
  · rintro (⟨e, _, h⟩ | ⟨tr₁, tr₂, a, rfl, h₁, h₂⟩)
    · obtain ⟨a, _, ha⟩ := ends_op.mp h
      cases ha
    · obtain ⟨a', rfl, ha⟩ := ends_op.mp h₁
      cases ha
      exact ⟨a, tr₂, rfl, h₂⟩
  · rintro ⟨a, tr', rfl, h⟩
    exact .inr ⟨[⟨o, a⟩], tr', a, rfl, ends_op.mpr ⟨a, rfl, rfl⟩, h⟩

/-- The result of a process that succeeds, rewrapped. -/
theorem ends_bind_pure {x : ExceptT ε (Proc Op Resp) α} {f : α → β} {r : Except ε β} :
    Ends (x >>= fun a => pure (f a)) tr r ↔ ∃ r', r = r'.map f ∧ Ends x tr r' := by
  rw [ends_bind]
  constructor
  · rintro (⟨e, rfl, h⟩ | ⟨tr₁, tr₂, a, rfl, h₁, h₂⟩)
    · exact ⟨.error e, rfl, h⟩
    · obtain ⟨rfl, rfl⟩ := ends_pure.mp h₂
      exact ⟨.ok a, rfl, by rwa [List.append_nil]⟩
  · rintro ⟨r', rfl, h⟩
    cases r' with
    | error e => exact .inl ⟨e, rfl, h⟩
    | ok a => exact .inr ⟨tr, [], a, (List.append_nil _).symm, h, ends_pure.mpr ⟨rfl, rfl⟩⟩

/-- An exchange, split. -/
theorem steps_split {q : Proc Op Resp α} : ∀ {tr₁ tr₂ : List ((o : Op) × Resp o)} {p : Proc Op Resp α},
    p.Steps (tr₁ ++ tr₂) q → ∃ m, p.Steps tr₁ m ∧ m.Steps tr₂ q := by
  intro tr₁
  induction tr₁ with
  | nil => exact fun h => ⟨_, .nil _, h⟩
  | cons e tr₁ ih =>
    intro tr₂ p h
    cases h with
    | cons h =>
      obtain ⟨m, h₁, h₂⟩ := ih h
      exact ⟨m, .cons h₁, h₂⟩

/-- A process that waits on an operation goes on with its answer. -/
theorem Steps.snoc {p q : Proc Op Resp α} {o : Op} {k : Resp o → Proc Op Resp α} (h : p.Steps tr q)
    (hq : q = .call o k) (a : Resp o) : p.Steps (tr ++ [⟨o, a⟩]) (k a) := by
  induction h with
  | nil p =>
    subst hq
    exact .cons (.nil _)
  | cons _ ih => exact .cons (ih hq)

/-! ### A process against given answers -/

/-- The operations of a process and its result, where the `i`-th operation is given the
`i`-th answer. -/
def play (answers : ℕ → (o : Op) → Resp o) : Proc Op Resp α → ℕ → List Op × α
  | .ret a, _ => ([], a)
  | .call o k, i => (o :: (play answers (k (answers i o)) (i + 1)).1,
      (play answers (k (answers i o)) (i + 1)).2)

end Proc

/-! ### One process of a pool -/

section Own

variable {Op : Type} {Resp : Op → Type} {α S : Type} {env : S → (o : Op) → Resp o → S → Prop}
  {c₀ c : S × List (Proc Op Resp α)} {tr : List (Event Op Resp)}

/-- What one process of a pool exchanged. -/
def own (i : ℕ) (tr : List (Event Op Resp)) : List ((o : Op) × Resp o) :=
  tr.filterMap fun e => if e.pid = i then some ⟨e.op, e.resp⟩ else none

theorem own_snoc (i : ℕ) (tr : List (Event Op Resp)) (e : Event Op Resp) :
    own i (tr ++ [e]) = own i tr ++ (if e.pid = i then [⟨e.op, e.resp⟩] else []) := by
  unfold own
  rw [List.filterMap_append]
  by_cases h : e.pid = i <;> simp [h]

theorem mem_own {i : ℕ} {x : (o : Op) × Resp o} :
    x ∈ own i tr ↔ (⟨i, x.1, x.2⟩ : Event Op Resp) ∈ tr := by
  unfold own
  rw [List.mem_filterMap]
  constructor
  · rintro ⟨e, he, hx⟩
    split at hx
    · next hpid =>
      cases hx
      subst hpid
      exact he
    · cases hx
  · intro h
    exact ⟨_, h, if_pos rfl⟩

theorem pairwise_own {R : ((o : Op) × Resp o) → ((o : Op) × Resp o) → Prop} (i : ℕ)
    (h : tr.Pairwise fun a b => R ⟨a.op, a.resp⟩ ⟨b.op, b.resp⟩) : (own i tr).Pairwise R := by
  refine h.filterMap _ fun a b hab x hx y hy => ?_
  split at hx
  · split at hy
    · cases hx
      cases hy
      exact hab
    · cases hy
  · cases hx

/-- **In every interleaving** a process goes on as it does on its own, with the answers
it gets. -/
theorem Run.steps_own (h : Run env c₀ tr c) {i : ℕ} {p : Proc Op Resp α} (h₀ : c₀.2[i]? = some p) :
    ∃ q, c.2[i]? = some q ∧ p.Steps (own i tr) q := by
  induction h with
  | nil => exact ⟨p, h₀, .nil _⟩
  | snoc _ hs ih =>
    obtain ⟨q, hq, hsteps⟩ := ih
    cases hs with
    | @call s s' ps j o k r hj he =>
      rw [own_snoc]
      by_cases hij : j = i
      · subst hij
        obtain rfl : q = .call o k := Option.some.inj (hq.symm.trans hj)
        refine ⟨k r, List.getElem?_set_self (List.getElem?_eq_some_iff.mp hj).1, ?_⟩
        rw [if_pos rfl]
        exact hsteps.snoc rfl r
      · refine ⟨q, (List.getElem?_set_ne hij).trans hq, ?_⟩
        rw [if_neg hij, List.append_nil]
        exact hsteps

end Own

/-! ### The environment's side -/

section Answered

variable {Op : Type} {Resp : Op → Type} {S : Type} {env : S → (o : Op) → Resp o → S → Prop}

/-- The environment gives these responses, one after the other. -/
inductive Answered (env : S → (o : Op) → Resp o → S → Prop) : S → List ((o : Op) × Resp o) → S → Prop
  | nil (s : S) : Answered env s [] s
  | cons {s s' s'' : S} {o : Op} {r : Resp o} {tr : List ((o : Op) × Resp o)} :
      env s o r s' → Answered env s' tr s'' → Answered env s (⟨o, r⟩ :: tr) s''

variable {s s' : S} {tr tr₁ tr₂ : List ((o : Op) × Resp o)}

@[simp] theorem answered_nil : Answered env s [] s' ↔ s' = s := by
  constructor
  · intro h
    cases h
    rfl
  · rintro rfl
    exact .nil _

@[simp] theorem answered_cons {o : Op} {r : Resp o} :
    Answered env s (⟨o, r⟩ :: tr) s' ↔ ∃ m, env s o r m ∧ Answered env m tr s' := by
  constructor
  · intro h
    cases h with
    | cons h₁ h₂ => exact ⟨_, h₁, h₂⟩
  · rintro ⟨m, h₁, h₂⟩
    exact .cons h₁ h₂

theorem answered_append : Answered env s (tr₁ ++ tr₂) s' ↔ ∃ m, Answered env s tr₁ m ∧ Answered env m tr₂ s' := by
  induction tr₁ generalizing s with
  | nil => simp
  | cons e tr₁ ih =>
    obtain ⟨o, r⟩ := e
    rw [List.cons_append, answered_cons]
    constructor
    · rintro ⟨m, h₁, h₂⟩
      obtain ⟨n, h₃, h₄⟩ := ih.mp h₂
      exact ⟨n, .cons h₁ h₃, h₄⟩
    · rintro ⟨n, h₁, h₂⟩
      obtain ⟨m, h₃, h₄⟩ := answered_cons.mp h₁
      exact ⟨m, h₃, ih.mpr ⟨n, h₄, h₂⟩⟩

/-- What every answer keeps, the exchange keeps. -/
theorem Answered.invariant {I : S → Prop} {P : (o : Op) × Resp o → Prop} (h : Answered env s tr s')
    (hI : ∀ s o r s', I s → P ⟨o, r⟩ → env s o r s' → I s') (hP : ∀ e ∈ tr, P e) (hs : I s) : I s' := by
  induction h with
  | nil => exact hs
  | cons h₁ _ ih =>
    exact ih (fun e he => hP e (List.mem_cons_of_mem _ he)) (hI _ _ _ _ hs (hP _ List.mem_cons_self) h₁)

/-- **An environment that answers everything lets every process end.** -/
theorem ends_total {α : Type} (henv : ∀ s o, ∃ r s', env s o r s') (p : Proc Op Resp α) :
    ∀ s, ∃ tr a s', p.Steps tr (.ret a) ∧ Answered env s tr s' := by
  induction p with
  | ret a => intro s; exact ⟨[], a, s, .nil _, .nil s⟩
  | call o k ih =>
    intro s
    obtain ⟨r, m, hr⟩ := henv s o
    obtain ⟨tr, a, s', h₁, h₂⟩ := ih r m
    exact ⟨⟨o, r⟩ :: tr, a, s', .cons h₁, .cons hr h₂⟩

/-- What one process of a pool exchanges, while the others wait. -/
theorem run_of_steps_at {α : Type} {p q : Proc Op Resp α} (h : p.Steps tr q) {c₀ : S × List (Proc Op Resp α)}
    {i : ℕ} : ∀ {s s' : S} {ps : List (Proc Op Resp α)} {tr₀ : List (Event Op Resp)}, ps[i]? = some p →
      Run env c₀ tr₀ (s, ps) → Answered env s tr s' →
      Run env c₀ (tr₀ ++ tr.map fun e => ⟨i, e.1, e.2⟩) (s', ps.set i q) := by
  induction h with
  | nil p =>
    intro s s' ps tr₀ hp hrun hanswered
    cases answered_nil.mp hanswered
    obtain ⟨hlt, rfl⟩ := List.getElem?_eq_some_iff.mp hp
    rwa [List.map_nil, List.append_nil, List.set_getElem_self]
  | @cons o k r tr q _ ih =>
    intro s s' ps tr₀ hp hrun hanswered
    obtain ⟨m, hm, hrest⟩ := answered_cons.mp hanswered
    obtain ⟨hlt, _⟩ := List.getElem?_eq_some_iff.mp hp
    have hnext := ih (List.getElem?_set_self hlt) (.snoc hrun (.call hp hm)) hrest
    rwa [List.append_assoc, List.set_set] at hnext

/-- A process on its own is a pool of one. -/
theorem run_of_steps {α : Type} {p q : Proc Op Resp α} (h : p.Steps tr q) {c₀ : S × List (Proc Op Resp α)}
    {s s' : S} {tr₀ : List (Event Op Resp)} (hrun : Run env c₀ tr₀ (s, [p])) (hs : Answered env s tr s') :
    Run env c₀ (tr₀ ++ tr.map fun e => ⟨0, e.1, e.2⟩) (s', [q]) :=
  run_of_steps_at (i := 0) h rfl hrun hs

end Answered

end Lib
