import Mathlib.Data.List.Basic
import Mathlib.Data.List.Induction

/-!
# Interactive processes and their interleavings

A `Proc Op Resp α` is a computation that talks to a shared environment: it has
ended (`ret`), or it issues one operation and goes on with the response
(`call`).  Between two operations of a process the others may run, so a system
of concurrent calls is a pool of processes and one `Step` lets the environment
answer one of them.

What a process does is proved process by process with a weakest precondition
over a *private* ghost state: `upd` says how the ghost follows the process's own
operations and `pre` what must hold of it when an operation is issued.
`Steps` is one process on its own, `pre_of_steps` what its operations meet.
`Run.pre_of_step` carries this to pools: in every interleaving every operation
is issued with `pre` of the ghost computed from that process's own part of the
trace.
-/

namespace Lib

/-- An interactive computation over the operations `Op`. -/
inductive Proc (Op : Type) (Resp : Op → Type) (α : Type) : Type
  | ret (a : α)
  | call (o : Op) (k : Resp o → Proc Op Resp α)

namespace Proc

variable {Op : Type} {Resp : Op → Type} {α β ε : Type}

/-- Sequencing: `f` takes over where the process ends. -/
protected def bind : Proc Op Resp α → (α → Proc Op Resp β) → Proc Op Resp β
  | .ret a, f => f a
  | .call o k, f => .call o fun r => (k r).bind f

instance : Monad (Proc Op Resp) where
  pure := .ret
  bind := Proc.bind

theorem bind_ret_id : ∀ p : Proc Op Resp α, Proc.bind p .ret = p := by
  intro p
  induction p with
  | ret a => rfl
  | call o k ih => exact congrArg (Proc.call o) (funext ih)

protected theorem bind_assoc {γ : Type} (f : α → Proc Op Resp β) (g : β → Proc Op Resp γ) :
    ∀ p : Proc Op Resp α, (p.bind f).bind g = p.bind fun a => (f a).bind g := by
  intro p
  induction p with
  | ret a => rfl
  | call o k ih => exact congrArg (Proc.call o) (funext ih)

instance : LawfulMonad (Proc Op Resp) :=
  LawfulMonad.mk' _ bind_ret_id (fun _ _ => rfl) fun p f g => Proc.bind_assoc f g p

/-- The process that issues one operation and returns its response. -/
def op (o : Op) : Proc Op Resp (Resp o) := .call o .ret

/-! ### Weakest preconditions over a private ghost state -/

variable {G : Type} (upd : G → (o : Op) → Resp o → G) (pre : G → Op → Prop)

/-- Every operation `p` issues from ghost `g` on meets `pre`, and `Q` holds of
the ghost and the result where `p` ends. -/
def wp : Proc Op Resp α → (G → α → Prop) → G → Prop
  | .ret a, Q, g => Q g a
  | .call o k, Q, g => pre g o ∧ ∀ r, (k r).wp Q (upd g o r)

theorem wp_mono {Q Q' : G → α → Prop} (h : ∀ g a, Q g a → Q' g a) :
    ∀ (p : Proc Op Resp α) (g : G), p.wp upd pre Q g → p.wp upd pre Q' g := by
  intro p
  induction p with
  | ret a => intro g hp; exact h g a hp
  | call o k ih => intro g hp; exact ⟨hp.1, fun r => ih r _ (hp.2 r)⟩

theorem wp_bind {Q : G → β → Prop} (f : α → Proc Op Resp β) :
    ∀ (p : Proc Op Resp α) (g : G), p.wp upd pre (fun g a => (f a).wp upd pre Q g) g →
      (p >>= f).wp upd pre Q g := by
  intro p
  induction p with
  | ret a => intro g hp; exact hp
  | call o k ih => intro g hp; exact ⟨hp.1, fun r => ih r _ (hp.2 r)⟩

/-- What comes first is safe on its own. -/
theorem wp_of_bind {Q : G → β → Prop} {f : α → Proc Op Resp β} :
    ∀ (p : Proc Op Resp α) (g : G), (p >>= f).wp upd pre Q g → p.wp upd pre (fun _ _ => True) g := by
  intro p
  induction p with
  | ret a => intro g _; exact trivial
  | call o k ih => intro g hp; exact ⟨hp.1, fun r => ih r _ (hp.2 r)⟩

/-- `wp` for a fallible process: `Q` is owed only where it succeeds. -/
def wpOk (x : ExceptT ε (Proc Op Resp) α) (Q : G → α → Prop) (g : G) : Prop :=
  x.run.wp upd pre (fun g r => ∀ a, r = .ok a → Q g a) g

theorem wpOk_mono {Q Q' : G → α → Prop} (h : ∀ g a, Q g a → Q' g a)
    {x : ExceptT ε (Proc Op Resp) α} {g : G} (hx : wpOk upd pre x Q g) : wpOk upd pre x Q' g :=
  wp_mono upd pre (fun g _ hr a he => h g a (hr a he)) _ g hx

theorem wpOk_pure {Q : G → α → Prop} {a : α} {g : G} (h : Q g a) :
    wpOk upd pre (pure a : ExceptT ε (Proc Op Resp) α) Q g := by
  intro b hb
  cases hb
  exact h

theorem wpOk_throw {Q : G → α → Prop} {e : ε} {g : G} :
    wpOk upd pre (throw e : ExceptT ε (Proc Op Resp) α) Q g := by
  intro b hb
  cases hb

theorem wpOk_bind {Q : G → β → Prop} {x : ExceptT ε (Proc Op Resp) α}
    {f : α → ExceptT ε (Proc Op Resp) β} {g : G}
    (h : wpOk upd pre x (fun g a => wpOk upd pre (f a) Q g) g) : wpOk upd pre (x >>= f) Q g := by
  refine wp_bind upd pre _ x.run g (wp_mono upd pre ?_ _ g h)
  intro g r hr
  cases r with
  | ok a => exact hr a rfl
  | error e => intro b hb; cases hb

/-- Sequencing when the continuation is safe from every ghost and result. -/
theorem wpOk_seq {P : G → α → Prop} {Q : G → β → Prop} {x : ExceptT ε (Proc Op Resp) α}
    {f : α → ExceptT ε (Proc Op Resp) β} {g : G} (hx : wpOk upd pre x P g)
    (hf : ∀ g a, P g a → wpOk upd pre (f a) Q g) : wpOk upd pre (x >>= f) Q g :=
  wpOk_bind upd pre (wpOk_mono upd pre hf hx)

theorem wpOk_op {o : Op} {Q : G → Resp o → Prop} {g : G} (hpre : pre g o)
    (h : ∀ r, Q (upd g o r) r) :
    wpOk upd pre (ExceptT.lift (op o) : ExceptT ε (Proc Op Resp) (Resp o)) Q g := by
  refine ⟨hpre, fun r b hb => ?_⟩
  cases hb
  exact h r

theorem wpOk_liftExcept {Q : G → α → Prop} {r : Except ε α} {g : G}
    (h : ∀ a, r = .ok a → Q g a) :
    wpOk upd pre (liftM r : ExceptT ε (Proc Op Resp) α) Q g := by
  cases r with
  | ok a => exact wpOk_pure upd pre (h a rfl)
  | error e => exact wpOk_throw upd pre

/-! ### What a process issues -/

/-- Every operation of the process meets `P`. -/
def Issues (P : Op → Prop) (p : Proc Op Resp α) : Prop :=
  p.wp (fun (_ : Unit) _ _ => ()) (fun _ => P) (fun _ _ => True) ()

theorem issues_of_wpOk {P : Op → Prop} {Q : Unit → α → Prop} {x : ExceptT ε (Proc Op Resp) α}
    (h : wpOk (fun (_ : Unit) _ _ => ()) (fun _ => P) x Q ()) : x.run.Issues P :=
  wp_mono _ _ (fun _ _ _ => trivial) _ _ h

theorem issues_true : ∀ p : Proc Op Resp α, p.Issues fun _ => True := by
  intro p
  induction p with
  | ret a => exact trivial
  | call o k ih => exact ⟨trivial, ih⟩

/-- What every such operation keeps, the process keeps. -/
theorem Issues.wp {P : Op → Prop} (I : G → Prop)
    (hI : ∀ g o, I g → P o → pre g o ∧ ∀ r, I (upd g o r)) :
    ∀ {p : Proc Op Resp α}, p.Issues P → ∀ g, I g → p.wp upd pre (fun g _ => I g) g := by
  intro p
  induction p with
  | ret a => intro _ g hg; exact hg
  | call o k ih =>
    intro hp g hg
    obtain ⟨hpre, hupd⟩ := hI g o hg hp.1
    exact ⟨hpre, fun r => ih r (hp.2 r) _ (hupd r)⟩

/-! ### Processes over a larger set of operations -/

variable {Op' : Type} {Resp' : Op' → Type}

/-- The same process, its operations among those of a larger set. -/
def embed (f : Op → Op') (back : ∀ o, Resp' (f o) → Resp o) : Proc Op Resp α → Proc Op' Resp' α
  | .ret a => .ret a
  | .call o k => .call (f o) fun r => (k (back o r)).embed f back

theorem wp_embed {upd' : G → (o : Op') → Resp' o → G} {pre' : G → Op' → Prop} (f : Op → Op')
    (back : ∀ o, Resp' (f o) → Resp o) (hupd : ∀ g o r, upd' g (f o) r = upd g o (back o r))
    (hpre : ∀ g o, pre g o → pre' g (f o)) {Q : G → α → Prop} :
    ∀ (p : Proc Op Resp α) (g : G), p.wp upd pre Q g → (p.embed f back).wp upd' pre' Q g := by
  intro p
  induction p with
  | ret a => intro g hp; exact hp
  | call o k ih =>
    intro g hp
    refine ⟨hpre g o hp.1, fun r => ?_⟩
    rw [hupd]
    exact ih _ _ (hp.2 (back o r))

/-! ### One process on its own -/

/-- `p` issues operations with the given responses and goes on as `q`. -/
inductive Steps : Proc Op Resp α → List ((o : Op) × Resp o) → Proc Op Resp α → Prop
  | nil (p : Proc Op Resp α) : Steps p [] p
  | cons {o : Op} {k : Resp o → Proc Op Resp α} {r : Resp o} {tr : List ((o : Op) × Resp o)}
      {q : Proc Op Resp α} (h : Steps (k r) tr q) : Steps (.call o k) (⟨o, r⟩ :: tr) q

/-- A process that has ended does nothing more. -/
theorem steps_ret {a : α} {tr : List ((o : Op) × Resp o)} {q : Proc Op Resp α}
    (h : (Proc.ret a).Steps tr q) : tr = [] ∧ q = .ret a := by
  cases h
  exact ⟨rfl, rfl⟩

variable {upd pre}

/-- A condition on the operations alone holds of all that are issued. -/
theorem pre_of_steps {P : Op → Prop} {Q : G → α → Prop} {p q : Proc Op Resp α}
    {tr : List ((o : Op) × Resp o)} (h : p.Steps tr q) :
    ∀ g, p.wp upd (fun _ => P) Q g → ∀ e ∈ tr, P e.1 := by
  induction h with
  | nil p => intro g _ e he; simp at he
  | cons _ ih =>
    intro g hp e he
    rcases List.mem_cons.mp he with rfl | he
    · exact hp.1
    · exact ih _ (hp.2 _) e he

/-- Every operation that is issued meets its precondition in some ghost state. -/
theorem exists_pre_of_steps {Q : G → α → Prop} {p q : Proc Op Resp α}
    {tr : List ((o : Op) × Resp o)} (h : p.Steps tr q) :
    ∀ g, p.wp upd pre Q g → ∀ e ∈ tr, ∃ g, pre g e.1 := by
  induction h with
  | nil p => intro g _ e he; simp at he
  | cons _ ih =>
    intro g hp e he
    rcases List.mem_cons.mp he with rfl | he
    · exact ⟨g, hp.1⟩
    · exact ih _ (hp.2 _) e he

end Proc

/-! ### Pools -/

/-- One answered operation: who issued it, what it was, what came back. -/
structure Event (Op : Type) (Resp : Op → Type) where
  pid : Nat
  op : Op
  resp : Resp op

section Pool

variable {Op : Type} {Resp : Op → Type} {α S G : Type}

/-- One scheduling step: the environment answers the operation process `i`
waits on. -/
inductive Step (env : S → (o : Op) → Resp o → S → Prop) :
    S × List (Proc Op Resp α) → Event Op Resp → S × List (Proc Op Resp α) → Prop
  | call {s s' : S} {ps : List (Proc Op Resp α)} {i : Nat} {o : Op}
      {k : Resp o → Proc Op Resp α} {r : Resp o} :
      ps[i]? = some (.call o k) → env s o r s' → Step env (s, ps) ⟨i, o, r⟩ (s', ps.set i (k r))

/-- The interleavings of a pool, with their traces. -/
inductive Run (env : S → (o : Op) → Resp o → S → Prop) (c₀ : S × List (Proc Op Resp α)) :
    List (Event Op Resp) → S × List (Proc Op Resp α) → Prop
  | nil : Run env c₀ [] c₀
  | snoc {tr : List (Event Op Resp)} {c c' : S × List (Proc Op Resp α)} {e : Event Op Resp} :
      Run env c₀ tr c → Step env c e c' → Run env c₀ (tr ++ [e]) c'

/-- The ghost state of process `i` after the trace `tr`: only its own
operations count. -/
def ghost (upd : G → (o : Op) → Resp o → G) (g₀ : G) (i : Nat) (tr : List (Event Op Resp)) : G :=
  tr.foldl (fun g e => if e.pid = i then upd g e.op e.resp else g) g₀

variable {upd : G → (o : Op) → Resp o → G} {pre : G → Op → Prop} {g₀ : G}

@[simp] theorem ghost_nil (i : Nat) : ghost upd g₀ i ([] : List (Event Op Resp)) = g₀ := rfl

@[simp] theorem ghost_snoc (i : Nat) (tr : List (Event Op Resp)) (e : Event Op Resp) :
    ghost upd g₀ i (tr ++ [e]) =
      if e.pid = i then upd (ghost upd g₀ i tr) e.op e.resp else ghost upd g₀ i tr := by
  simp [ghost, List.foldl_append]

variable {env : S → (o : Op) → Resp o → S → Prop} {c₀ c c' : S × List (Proc Op Resp α)}
  {tr : List (Event Op Resp)} {e : Event Op Resp}

/-- A process of the pool is safe from its own ghost state on. -/
theorem Run.wp_at {i : Nat}
    (h₀ : ∀ p, c₀.2[i]? = some p → p.wp upd pre (fun _ _ => True) g₀) (h : Run env c₀ tr c) :
    ∀ p, c.2[i]? = some p → p.wp upd pre (fun _ _ => True) (ghost upd g₀ i tr) := by
  induction h with
  | nil => exact h₀
  | snoc _ hs ih =>
    cases hs with
    | @call s s' ps j o k r hj he =>
      intro p hp
      rw [ghost_snoc]
      by_cases hij : j = i
      · subst hij
        rw [if_pos rfl]
        rw [List.getElem?_set_self (by rw [List.getElem?_eq_some_iff] at hj; exact hj.1)] at hp
        cases hp
        exact (ih _ hj).2 r
      · rw [if_neg hij]
        rw [List.getElem?_set_ne hij] at hp
        exact ih p hp

/-- **Operations are issued under `pre`**, in every interleaving. -/
theorem Run.pre_at (h₀ : ∀ p, c₀.2[e.pid]? = some p → p.wp upd pre (fun _ _ => True) g₀)
    (h : Run env c₀ tr c) (hs : Step env c e c') : pre (ghost upd g₀ e.pid tr) e.op := by
  cases hs with
  | @call s s' ps j o k r hj he => exact (h.wp_at h₀ _ hj).1

theorem Run.pre_of_step
    (h₀ : ∀ (i : Nat) p, c₀.2[i]? = some p → p.wp upd pre (fun _ _ => True) g₀)
    (h : Run env c₀ tr c) (hs : Step env c e c') : pre (ghost upd g₀ e.pid tr) e.op :=
  h.pre_at (h₀ e.pid) hs

/-- Where an operation of a trace was issued. -/
theorem Run.split {tr₁ tr₂ : List (Event Op Resp)} (h : Run env c₀ tr c) (htr : tr = tr₁ ++ e :: tr₂) :
    ∃ c₁ c₂, Run env c₀ tr₁ c₁ ∧ Step env c₁ e c₂ := by
  induction h generalizing tr₂ with
  | nil => simp at htr
  | @snoc tr c c' e' hrun hs ih =>
    cases tr₂ using List.reverseRecOn with
    | nil =>
      obtain ⟨rfl, he⟩ := List.append_inj' htr rfl
      cases he
      exact ⟨c, c', hrun, hs⟩
    | append_singleton tr₂ e'' _ =>
      rw [← List.cons_append, ← List.append_assoc] at htr
      exact ih (List.append_inj' htr rfl).1

/-- An operation is issued by a process of the pool. -/
theorem Step.pid_lt (hs : Step env c e c') : e.pid < c.2.length := by
  cases hs with
  | @call s s' ps j o k r hj he => exact (List.getElem?_eq_some_iff.mp hj).1

theorem Run.length_eq (h : Run env c₀ tr c) : c.2.length = c₀.2.length := by
  induction h with
  | nil => rfl
  | snoc _ hs ih =>
    cases hs with
    | call _ _ => rw [List.length_set]; exact ih

end Pool

end Lib
