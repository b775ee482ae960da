import Mathlib.Algebra.BigOperators.Group.Finset.Piecewise
import Mathlib.Algebra.Ring.Nat
import Konfig.Lib.Machine

/-!
# Readers with a mailbox each

What a broadcast is for: every reader has a mailbox of its own, and a message that
is sent goes into the mailbox of each reader that is attached.  A reader that takes
from a mailbox with more than `capacity` messages loses the oldest ones and learns
that it has lagged.

* `Mailboxes.step`: readers come and go, messages are sent and taken.
* `sentAfter n`: what was sent after the `n`-th reader came.
* `Mailboxes.Kept.step`, `Mailboxes.kept`: a reader that has not lagged has taken, or
  has waiting, exactly what was sent after it came.
-/

namespace Lib

variable {α : Type}

/-- One reader.  `taken` and `lagged` are history variables. -/
structure Mailbox (α : Type) where
  live : Bool
  taken : List α
  queue : List α
  lagged : Bool
  deriving DecidableEq, Repr

def Mailbox.new : Mailbox α := { live := true, taken := [], queue := [], lagged := false }

def Mailbox.deliver (a : α) (m : Mailbox α) : Mailbox α :=
  if m.live then { m with queue := m.queue ++ [a] } else m

def Mailbox.close (m : Mailbox α) : Option (Mailbox α) :=
  if m.live then some { m with live := false, queue := [] } else none

/-- A lag is noticed by the next read, which returns no message. -/
def Mailbox.take (capacity : Nat) (m : Mailbox α) : Option (Mailbox α) :=
  if m.live then
    if capacity < m.queue.length then
      some { m with queue := m.queue.drop (m.queue.length - capacity), lagged := true }
    else
      match m.queue with
      | [] => none
      | a :: rest => some { m with taken := m.taken ++ [a], queue := rest }
  else none

inductive MailLabel (α : Type)
  | attach
  | detach (i : Nat)
  | send (a : α)
  | recv (i : Nat)
  deriving DecidableEq, Repr

/-- Change one reader, if it can make the change. -/
def onReader {ρ : Type} (readers : List ρ) (i : Nat) (f : ρ → Option ρ) : Option (List ρ) :=
  (readers[i]?.bind f).map fun r => readers.set i r

theorem onReader_some {ρ : Type} {readers readers' : List ρ} {i : Nat} {f : ρ → Option ρ}
    (h : onReader readers i f = some readers') :
    ∃ r r', readers[i]? = some r ∧ f r = some r' ∧ readers' = readers.set i r' := by
  obtain ⟨r', hr', rfl⟩ := Option.map_eq_some_iff.mp h
  obtain ⟨r, hr, hf⟩ := Option.bind_eq_some_iff.mp hr'
  exact ⟨r, r', hr, hf, rfl⟩

/-- A change of one reader, seen through `g`. -/
theorem onReader_map {ρ τ : Type} {readers : List ρ} {g : ρ → τ} {f : ρ → Option ρ} {f' : τ → Option τ}
    (h : ∀ r ∈ readers, (f r).map g = f' (g r)) (i : Nat) :
    (onReader readers i f).map (List.map g) = onReader (readers.map g) i f' := by
  unfold onReader
  rw [List.getElem?_map]
  cases hr : readers[i]? with
  | none => rfl
  | some r =>
    rw [Option.bind_some, Option.map_some, Option.bind_some, ← h r (List.mem_of_getElem? hr)]
    cases f r with
    | none => rfl
    | some r' => exact congrArg some List.map_set

def Mailboxes.step (capacity : Nat) (ms : List (Mailbox α)) : MailLabel α → Option (List (Mailbox α))
  | .attach => some (ms ++ [.new])
  | .detach i => onReader ms i Mailbox.close
  | .send a => some (ms.map (Mailbox.deliver a))
  | .recv i => onReader ms i (Mailbox.take capacity)

/-- Every reader that counts stands at one of `n` places. -/
theorem sum_countP_places {ρ : Type} (p : ρ → Bool) (place : ρ → Nat) (n : Nat) : ∀ readers : List ρ,
    (∀ r ∈ readers, p r = true → place r < n) →
      ((List.range n).map fun k => readers.countP fun r => p r && place r == k).sum =
        readers.countP p := by
  intro readers
  induction readers with
  | nil => intro _; simp
  | cons r readers ih =>
    intro h
    have hone : ((List.range n).map fun k => if (p r && place r == k) = true then 1 else 0).sum =
        if p r = true then 1 else 0 := by
      cases hp : p r with
      | false => simp
      | true =>
        have hlt : place r < n := h r List.mem_cons_self hp
        simp only [Bool.true_and, beq_iff_eq, if_true]
        exact (Finset.sum_ite_eq (Finset.range n) (place r) fun _ => 1).trans
          (if_pos (Finset.mem_range.mpr hlt))
    simp only [List.countP_cons]
    rw [List.sum_map_add, ih fun r hr => h r (List.mem_cons_of_mem _ hr), hone]

/-! ### What was sent since a reader came -/

/-- The message a label sends. -/
def MailLabel.message : MailLabel α → Option α
  | .send a => some a
  | _ => none

/-- Everything that was sent. -/
def sentIn (ls : List (MailLabel α)) : List α := ls.filterMap MailLabel.message

/-- What was sent after `n` readers had come. -/
def sentAfter : Nat → List (MailLabel α) → List α
  | 0, ls => sentIn ls
  | _ + 1, [] => []
  | n + 1, .attach :: ls => sentAfter n ls
  | n + 1, _ :: ls => sentAfter (n + 1) ls

/-- How many readers came. -/
def attaches : List (MailLabel α) → Nat
  | [] => 0
  | .attach :: ls => attaches ls + 1
  | _ :: ls => attaches ls

theorem attaches_snoc_attach (ls : List (MailLabel α)) :
    attaches (ls ++ [.attach]) = attaches ls + 1 := by
  induction ls with
  | nil => rfl
  | cons l ls ih =>
    cases l with
    | attach => rw [List.cons_append, attaches, ih, attaches]
    | detach i => exact ih
    | send a => exact ih
    | recv i => exact ih

theorem attaches_snoc {l : MailLabel α} (hl : l ≠ .attach) (ls : List (MailLabel α)) :
    attaches (ls ++ [l]) = attaches ls := by
  induction ls with
  | nil =>
    cases l with
    | attach => exact absurd rfl hl
    | detach i => rfl
    | send a => rfl
    | recv i => rfl
  | cons x ls ih =>
    cases x with
    | attach => rw [List.cons_append, attaches, ih, attaches]
    | detach i => exact ih
    | send a => exact ih
    | recv i => exact ih

/-- A reader that is there sees what the next step sends. -/
theorem sentAfter_snoc (l : MailLabel α) : ∀ (ls : List (MailLabel α)) (n : Nat), n ≤ attaches ls →
    sentAfter n (ls ++ [l]) = sentAfter n ls ++ l.message.toList := by
  intro ls
  induction ls with
  | nil =>
    intro n hn
    obtain rfl : n = 0 := Nat.le_zero.mp hn
    cases l <;> rfl
  | cons x ls ih =>
    intro n hn
    cases n with
    | zero =>
      rw [sentAfter, sentAfter, sentIn, List.filterMap_append, ← sentIn]
      cases l <;> rfl
    | succ n =>
      cases x with
      | attach => exact ih n (Nat.le_of_succ_le_succ hn)
      | detach i => exact ih (n + 1) hn
      | send a => exact ih (n + 1) hn
      | recv i => exact ih (n + 1) hn

/-- Nothing was sent since a reader that has only come now. -/
theorem sentAfter_now : ∀ ls : List (MailLabel α), sentAfter (attaches ls + 1) (ls ++ [.attach]) = [] := by
  intro ls
  induction ls with
  | nil => rfl
  | cons x ls ih =>
    cases x with
    | attach => exact ih
    | detach i => exact ih
    | send a => exact ih
    | recv i => exact ih

/-! ### What a reader has -/

/-- What a reader has, when `sent` was sent since it came. -/
def Mailbox.Keeps (m : Mailbox α) (sent : List α) : Prop :=
  m.lagged = false → m.taken <+: sent ∧ (m.live = true → m.taken ++ m.queue = sent)

theorem Mailbox.keeps_new : (Mailbox.new : Mailbox α).Keeps [] := fun _ => ⟨List.prefix_rfl, fun _ => rfl⟩

theorem Mailbox.Keeps.deliver {m : Mailbox α} {sent : List α} (h : m.Keeps sent) (a : α) :
    (m.deliver a).Keeps (sent ++ [a]) := by
  intro hlag
  unfold Mailbox.deliver at hlag ⊢
  split at hlag
  · rename_i hlive
    obtain ⟨hpre, hall⟩ := h hlag
    rw [if_pos hlive]
    refine ⟨hpre.trans (List.prefix_append _ _), fun _ => ?_⟩
    rw [← List.append_assoc, hall hlive]
  · rename_i hlive
    rw [if_neg hlive]
    exact ⟨(h hlag).1.trans (List.prefix_append _ _), fun h' => absurd h' hlive⟩

theorem Mailbox.Keeps.close {m m' : Mailbox α} {sent : List α} (h : m.Keeps sent)
    (hm : m.close = some m') : m'.Keeps sent := by
  unfold Mailbox.close at hm
  split at hm
  · cases hm
    exact fun hlag => ⟨(h hlag).1, fun h' => absurd h' Bool.false_ne_true⟩
  · cases hm

theorem Mailbox.Keeps.take {capacity : Nat} {m m' : Mailbox α} {sent : List α} (h : m.Keeps sent)
    (hm : m.take capacity = some m') : m'.Keeps sent := by
  unfold Mailbox.take at hm
  split at hm
  · rename_i hlive
    split at hm
    · cases hm
      exact fun hlag => absurd hlag.symm Bool.false_ne_true
    · split at hm
      · cases hm
      · rename_i a rest hqueue
        cases hm
        intro hlag
        have hall : m.taken ++ [a] ++ rest = sent := by
          rw [List.append_assoc, List.singleton_append, ← hqueue]
          exact (h hlag).2 hlive
        exact ⟨⟨rest, hall⟩, fun _ => hall⟩
  · cases hm

/-- Every reader has what it should; the `i`-th one came with the `i + 1`-st attach. -/
structure Mailboxes.Kept (ls : List (MailLabel α)) (ms : List (Mailbox α)) : Prop where
  length : ms.length = attaches ls
  keeps : ∀ (i : Nat) (m : Mailbox α), ms[i]? = some m → m.Keeps (sentAfter (i + 1) ls)

theorem Mailboxes.kept_nil : Mailboxes.Kept [] ([] : List (Mailbox α)) := ⟨rfl, nofun⟩

/-- One reader changes, and nothing is sent. -/
theorem Mailboxes.Kept.onReader {ls : List (MailLabel α)} {l : MailLabel α} {ms ms' : List (Mailbox α)}
    {i : Nat} {f : Mailbox α → Option (Mailbox α)} (hk : Mailboxes.Kept ls ms) (hl : l ≠ .attach)
    (hmsg : l.message = none)
    (hf : ∀ m m' sent, f m = some m' → m.Keeps sent → m'.Keeps sent)
    (h : Lib.onReader ms i f = some ms') : Mailboxes.Kept (ls ++ [l]) ms' := by
  obtain ⟨m, m', hm, hm', rfl⟩ := onReader_some h
  refine ⟨by rw [List.length_set, attaches_snoc hl, hk.length], fun j x hx => ?_⟩
  have hj : j < ms.length := by
    have hlt := (List.getElem?_eq_some_iff.mp hx).1
    rwa [List.length_set] at hlt
  rw [sentAfter_snoc l ls (j + 1) (hk.length ▸ hj), hmsg, Option.toList_none, List.append_nil]
  rcases eq_or_ne i j with rfl | hij
  · rw [List.getElem?_set_self hj, Option.some.injEq] at hx
    exact hx ▸ hf m m' _ hm' (hk.keeps i m hm)
  · rw [List.getElem?_set_ne hij] at hx
    exact hk.keeps j x hx

theorem Mailboxes.Kept.step {capacity : Nat} {ls : List (MailLabel α)} {l : MailLabel α}
    {ms ms' : List (Mailbox α)} (hk : Mailboxes.Kept ls ms)
    (h : Mailboxes.step capacity ms l = some ms') : Mailboxes.Kept (ls ++ [l]) ms' := by
  cases l with
  | attach =>
    cases h
    refine ⟨by rw [List.length_append, attaches_snoc_attach, hk.length]; rfl, fun i m hm => ?_⟩
    rcases Nat.lt_or_ge i ms.length with hi | hi
    · rw [List.getElem?_append_left hi] at hm
      rw [sentAfter_snoc _ ls (i + 1) (hk.length ▸ hi)]
      exact (List.append_nil _).symm ▸ hk.keeps i m hm
    · rw [List.getElem?_append_right hi, List.getElem?_singleton] at hm
      split at hm
      · obtain rfl : i = attaches ls := by
          rw [← hk.length]
          omega
        rw [sentAfter_now, ← Option.some.inj hm]
        exact Mailbox.keeps_new
      · cases hm
  | detach i => exact hk.onReader (by simp) rfl (fun m m' sent hm hs => hs.close hm) h
  | send a =>
    cases h
    refine ⟨by rw [List.length_map, attaches_snoc (by simp), hk.length], fun i m hm => ?_⟩
    rw [List.getElem?_map, Option.map_eq_some_iff] at hm
    obtain ⟨m₀, hm₀, rfl⟩ := hm
    have hi : i < ms.length := (List.getElem?_eq_some_iff.mp hm₀).1
    rw [sentAfter_snoc _ ls (i + 1) (hk.length ▸ hi)]
    exact (hk.keeps i m₀ hm₀).deliver a
  | recv i => exact hk.onReader (by simp) rfl (fun m m' sent hm hs => hs.take hm) h

/-- **A reader that has not lagged has what was sent since it came.** -/
theorem Mailboxes.kept {capacity : Nat} {ls : List (MailLabel α)} {ms : List (Mailbox α)}
    (h : run (Mailboxes.step capacity) [] ls = some ms) : Mailboxes.Kept ls ms :=
  run_induction Mailboxes.Kept Mailboxes.kept_nil (fun _ _ _ _ _ hk ha => hk.step ha) ls ms h

end Lib
