import Mathlib.Logic.Function.Basic
import Mathlib.Logic.Relation
import Mathlib.Order.Basic
import Konfig.Lib.Revisions
import Konfig.Lib.WatchConnection

/-!
# Lists, watches, and those who follow them

A stream over a store with revisions first lists what there is, as of one revision, and then
tells every change after it, in order.  A follower writes down what it can read of what it is
told.  It forgets nothing: what was deleted or can no longer be read keeps its last value.
It may hold back a list until it is complete.  When the stream is lost, the next one lists anew.

* `Settles`: whatever is done, it comes to an end, and only where it should.
* `Delivers`: what a stream may deliver next.
* `Position.Told.tells_all`, `Position.Told.next`: a stream that is left alone comes to the last
  revision, and stops nowhere else (`Position.acc_next`).
* `Follower.Inv`: what a follower has written down, by the position of its stream.
* `Follower.Inv.current`: while it watches, everything that can be read is read as it is.
* `Follower.Inv.run`: nothing that is shown is ever replaced by something older.
-/

namespace Lib

/-! ### Runs that settle -/

section Settles

variable {α : Type} {step : α → α → Prop} {goal : α → Prop} {x : α}

/-- Some run reaches the goal, no run goes on for ever, and a run that cannot go on has reached it. -/
structure Settles (step : α → α → Prop) (goal : α → Prop) (x : α) : Prop where
  comes : ∃ y, Relation.ReflTransGen step x y ∧ goal y
  stops : ∀ run : ℕ → α, run 0 = x → ¬ ∀ i, step (run i) (run (i + 1))
  ends : ∀ y, Relation.ReflTransGen step x y → (∀ z, ¬ step y z) → goal y

theorem not_forever (h : Acc (fun b a => step a b) x) :
    ∀ run : ℕ → α, run 0 = x → ¬ ∀ i, step (run i) (run (i + 1)) := by
  induction h with
  | intro x _ ih =>
    rintro run rfl hsteps
    exact ih (run 1) (hsteps 0) (fun i => run (i + 1)) rfl fun i => hsteps (i + 1)

/-- **It settles** where it is well-founded and can go on until the goal. -/
theorem Settles.of_acc (h : Acc (fun b a => step a b) x)
    (hgo : ∀ y, Relation.ReflTransGen step x y → goal y ∨ ∃ z, step y z) : Settles step goal x := by
  refine ⟨?_, not_forever h, fun y hy hstuck => (hgo y hy).resolve_right (not_exists.mpr hstuck)⟩
  induction h with
  | intro x _ ih =>
    rcases hgo x .refl with hgoal | ⟨z, hz⟩
    · exact ⟨x, .refl, hgoal⟩
    · obtain ⟨y, hy, hgoal⟩ := ih z hz fun y hy => hgo y (.head hz hy)
      exact ⟨y, .head hz hy, hgoal⟩

end Settles

variable {K V W : Type}

/-! ### The stream -/

/-- Where a stream stands. -/
inductive Position (K : Type)
  | lost
  | begun
  /-- It lists a revision; these keys are still to come. -/
  | listing (rev : ℕ) (left : List K)
  /-- It has told every change up to a revision. -/
  | watching (rev : ℕ)

/-- What a selector finds under a key as of a revision. -/
def Revisions.selected [DecidableEq K] (s : Revisions K V) (sel : K → V → Bool) (n : ℕ) (key : K) : Option V :=
  (s.asOf n key).filter (sel key)

/-- What a stream delivers next, if anything, and where it stands then.  What is no longer
selected is told as deleted, with any object. -/
inductive Delivers [DecidableEq K] (s : Revisions K V) (sel : K → V → Bool) :
    Position K → Option (WatchEvent V) → Position K → Prop
  | init : Delivers s sel .lost (some .init) .begun
  | list {left : List K} : (∀ k, k ∈ left ↔ ∃ v, s.selected sel s.rev k = some v) →
      Delivers s sel .begun none (.listing s.rev left)
  | initApply {r : ℕ} {k : K} {left : List K} {v : V} : s.selected sel r k = some v →
      Delivers s sel (.listing r (k :: left)) (some (.initApply v)) (.listing r left)
  | initDone {r : ℕ} : Delivers s sel (.listing r []) (some .initDone) (.watching r)
  | apply {r : ℕ} {k : K} {v : V} : r < s.rev → s.selected sel (r + 1) k = some v →
      (∀ k', k' ≠ k → s.asOf (r + 1) k' = s.asOf r k') →
      Delivers s sel (.watching r) (some (.apply v)) (.watching (r + 1))
  | delete {r : ℕ} {k : K} {v old : V} : r < s.rev → s.selected sel r k = some old →
      s.selected sel (r + 1) k = none → (∀ k', k' ≠ k → s.asOf (r + 1) k' = s.asOf r k') →
      Delivers s sel (.watching r) (some (.delete v)) (.watching (r + 1))
  /-- A change of what is not selected. -/
  | skip {r : ℕ} : r < s.rev → (∀ k, s.selected sel (r + 1) k = s.selected sel r k) →
      Delivers s sel (.watching r) none (.watching (r + 1))

theorem Revisions.selected_eq_some [DecidableEq K] {s : Revisions K V} {sel : K → V → Bool} {n : ℕ} {key : K}
    {v : V} : s.selected sel n key = some v ↔ s.asOf n key = some v ∧ sel key v = true := Option.filter_eq_some_iff

theorem Revisions.selected_congr [DecidableEq K] {s s' : Revisions K V} {sel : K → V → Bool} {n m : ℕ} {key : K}
    (h : s.asOf n key = s'.asOf m key) : s.selected sel n key = s'.selected sel m key :=
  congrArg (Option.filter (sel key)) h

/-- The revision beyond which nothing was delivered; a new stream may list any. -/
def Position.frontier (s : Revisions K V) : Position K → ℕ
  | .lost | .begun => s.rev
  | .listing r _ | .watching r => r

/-! ### Reading -/

/-- How a follower reads: under which key, and what of it; what the loss of a stream does to
what is written down; and the revision that it is of. -/
structure Reader (K V W : Type) where
  read : V → Option (K × W)
  mark : W → W
  plain : W → W
  rank : W → ℕ
  plain_mark : ∀ w, plain (mark w) = plain w
  rank_plain : ∀ w, rank (plain w) = rank w

namespace Reader

variable (R : Reader K V W)

/-- What the one has, the other has as well, and not of an older revision. -/
def Before (m m' : K → Option W) : Prop := ∀ k w, m k = some w → ∃ w', m' k = some w' ∧ R.rank w ≤ R.rank w'

theorem rank_mark (w : W) : R.rank (R.mark w) = R.rank w := by
  rw [← R.rank_plain, R.plain_mark, R.rank_plain]

variable [DecidableEq K]

/-- An event is written down. -/
def absorb (m : K → Option W) : Option (WatchEvent V) → K → Option W
  | some (.apply v) | some (.initApply v) =>
    match R.read v with
    | some (k, w) => Function.update m k (some w)
    | none => m
  | some (.delete _) | some .init | some .initDone | none => m

/-- Everything in the store is read under its key, and since the revision that it is of it was
not written again. -/
def Ordered (s : Revisions K V) : Prop :=
  ∀ n k v p, s.asOf n k = some v → R.read v = some p →
    p.1 = k ∧ R.rank p.2 ≤ n ∧ ∀ j, R.rank p.2 ≤ j → j ≤ n → s.asOf j k = some v

/-- A value was read of a selected revision up to the bound, but for marks. -/
def ReadBy (s : Revisions K V) (sel : K → V → Bool) (bound : ℕ) (k : K) (w : W) : Prop :=
  ∃ n ≤ bound, ∃ v w₀, s.selected sel n k = some v ∧ R.read v = some (k, w₀) ∧ R.plain w₀ = R.plain w

/-- What is left to come aside, whatever can be read of a revision is written down. -/
def Covers (s : Revisions K V) (sel : K → V → Bool) (r : ℕ) (left : List K) (m : K → Option W) : Prop :=
  ∀ k v w, k ∉ left → s.selected sel r k = some v → R.read v = some (k, w) → m k = some w

end Reader

namespace Reader

variable {R : Reader K V W}

theorem Before.refl (m : K → Option W) : R.Before m m := fun _ w hw => ⟨w, hw, le_rfl⟩

theorem Before.trans {m m' m'' : K → Option W} (h : R.Before m m') (h' : R.Before m' m'') : R.Before m m'' := by
  intro k w hw
  obtain ⟨w', hw', hle⟩ := h k w hw
  obtain ⟨w'', hw'', hle'⟩ := h' k w' hw'
  exact ⟨w'', hw'', hle.trans hle'⟩

theorem Before.mark (m : K → Option W) : R.Before m fun k => (m k).map R.mark := by
  intro k w hw
  exact ⟨R.mark w, congrArg (Option.map R.mark) hw, (R.rank_mark w).ge⟩

variable [DecidableEq K] {s s' : Revisions K V} {sel : K → V → Bool} {n r : ℕ} {k : K} {w w' : W} {v : V}

theorem ReadBy.mono (h : n ≤ r) (hw : R.ReadBy s sel n k w) : R.ReadBy s sel r k w := by
  obtain ⟨j, hj, hw⟩ := hw
  exact ⟨j, hj.trans h, hw⟩

theorem ReadBy.extends (h : s.Extends s') (hn : n ≤ s.rev) (hw : R.ReadBy s sel n k w) : R.ReadBy s' sel n k w := by
  obtain ⟨j, hj, v, w₀, hat, hread⟩ := hw
  exact ⟨j, hj, v, w₀, (Revisions.selected_congr (h.asOf (hj.trans hn) k)).trans hat, hread⟩

theorem ReadBy.mark (hw : R.ReadBy s sel n k w) : R.ReadBy s sel n k (R.mark w) := by
  obtain ⟨j, hj, v, w₀, hat, hread, hplain⟩ := hw
  exact ⟨j, hj, v, w₀, hat, hread, hplain.trans (R.plain_mark w).symm⟩

theorem Covers.extends (h : s.Extends s') (hr : r ≤ s.rev) {left : List K} {m : K → Option W}
    (hm : R.Covers s sel r left m) : R.Covers s' sel r left m := by
  intro k v w hleft hat hread
  rw [Revisions.selected_congr (h.asOf hr k)] at hat
  exact hm k v w hleft hat hread

/-- **What is read later is not older.** -/
theorem ReadBy.rank_le (hord : R.Ordered s) (hnr : n ≤ r) (hw : R.ReadBy s sel n k w) (hat : s.asOf r k = some v)
    (hread : R.read v = some (k, w')) : R.rank w ≤ R.rank w' := by
  obtain ⟨j, hj, old, w₀, hselected, hreadOld, hplain⟩ := hw
  have hold := (Revisions.selected_eq_some.mp hselected).1
  have hrank : R.rank w₀ = R.rank w := by rw [← R.rank_plain, hplain, R.rank_plain]
  obtain ⟨-, hle, -⟩ := hord j k old _ hold hreadOld
  obtain ⟨-, -, hsame⟩ := hord r k v _ hat hread
  rcases le_total (R.rank w') j with h | h
  · -- the value was there already
    have hboth : some v = some old := (hsame j h (hj.trans hnr)).symm.trans hold
    obtain rfl := Option.some.inj hboth
    obtain rfl : w' = w₀ := congrArg Prod.snd (Option.some.inj (hread.symm.trans hreadOld))
    exact hrank.ge
  · exact hrank.ge.trans (hle.trans h)

/-- What can be read of an object that is delivered is written down. -/
theorem absorb_applied {event : WatchEvent V} (hevent : event.applied = some v) (m : K → Option W) :
    R.absorb m (some event) = ((R.read v).map fun p => Function.update m p.1 (some p.2)).getD m := by
  cases event <;> cases hevent <;> simp only [absorb] <;> cases R.read v <;> rfl

/-- It is written down under its key. -/
theorem absorb_at (hord : R.Ordered s) (hat : s.asOf r k = some v) {event : WatchEvent V}
    (hevent : event.applied = some v) (m : K → Option W) :
    (∃ w, R.read v = some (k, w) ∧ R.absorb m (some event) = Function.update m k (some w)) ∨
      R.read v = none ∧ R.absorb m (some event) = m := by
  rw [absorb_applied hevent]
  cases hread : R.read v with
  | none => exact .inr ⟨rfl, rfl⟩
  | some p =>
    obtain ⟨rfl, -⟩ := hord r k v p hat hread
    exact .inl ⟨p.2, rfl, rfl⟩

end Reader

/-- Up to where a stream stands, what it has told is written down. -/
structure Position.Told [DecidableEq K] (R : Reader K V W) (s : Revisions K V) (sel : K → V → Bool)
    (pos : Position K) (m : K → Option W) : Prop where
  reached : pos.frontier s ≤ s.rev
  read : ∀ k w, m k = some w → R.ReadBy s sel (pos.frontier s) k w
  listed : ∀ r left, pos = .listing r left → R.Covers s sel r left m
  live : ∀ r left, pos = .listing r left → ∀ k ∈ left, ∃ v, s.selected sel r k = some v
  watched : ∀ r, pos = .watching r → R.Covers s sel r [] m

section

variable {R : Reader K V W} [DecidableEq K] {s s' : Revisions K V} {sel : K → V → Bool} {pos pos' : Position K}
  {m : K → Option W}

/-- An object of a revision is written down. -/
theorem absorb_object (hord : R.Ordered s) {n r : ℕ} (hnr : n ≤ r) {k₀ : K} {v₀ : V}
    (hselected : s.selected sel r k₀ = some v₀) {event : WatchEvent V} (hevent : event.applied = some v₀)
    (hread : ∀ k w, m k = some w → R.ReadBy s sel n k w) {left : List K}
    (hrest : ∀ k v w, k ≠ k₀ → k ∉ left → s.selected sel r k = some v → R.read v = some (k, w) → m k = some w) :
    R.Before m (R.absorb m (some event)) ∧
      (∀ k w, R.absorb m (some event) k = some w → R.ReadBy s sel r k w) ∧
      R.Covers s sel r left (R.absorb m (some event)) := by
  have hat := (Revisions.selected_eq_some.mp hselected).1
  rcases Reader.absorb_at hord hat hevent m with ⟨w₀, hw₀, habsorb⟩ | ⟨hnone, habsorb⟩
  · rw [habsorb]
    refine ⟨fun k w hw => ?_, fun k w hw => ?_, fun k v w hleft hkat hkread => ?_⟩
    · by_cases hk : k = k₀
      · subst hk
        exact ⟨w₀, Function.update_self _ _ _, (hread k w hw).rank_le hord hnr hat hw₀⟩
      · exact ⟨w, (Function.update_of_ne hk _ _).trans hw, le_rfl⟩
    · by_cases hk : k = k₀
      · subst hk
        rw [Function.update_self, Option.some.injEq] at hw
        subst hw
        exact ⟨r, le_rfl, v₀, w₀, hselected, hw₀, rfl⟩
      · rw [Function.update_of_ne hk] at hw
        exact (hread k w hw).mono hnr
    · by_cases hk₀ : k = k₀
      · subst hk₀
        obtain rfl := Option.some.inj (hat.symm.trans (Revisions.selected_eq_some.mp hkat).1)
        obtain rfl : w₀ = w := congrArg Prod.snd (Option.some.inj (hw₀.symm.trans hkread))
        exact Function.update_self _ _ _
      · rw [Function.update_of_ne hk₀]
        exact hrest k v w hk₀ hleft hkat hkread
  · rw [habsorb]
    refine ⟨.refl m, fun k w hw => (hread k w hw).mono hnr, fun k v w hleft hkat hkread => ?_⟩
    have hne : k ≠ k₀ := by
      rintro rfl
      obtain rfl := Option.some.inj (hat.symm.trans (Revisions.selected_eq_some.mp hkat).1)
      cases hnone.symm.trans hkread
    exact hrest k v w hne hleft hkat hkread

namespace Position

theorem told_lost (hread : ∀ k w, m k = some w → R.ReadBy s sel s.rev k w) : lost.Told R s sel m where
  reached := le_rfl
  read := hread
  listed _ _ heq := by cases heq
  live _ _ heq := by cases heq
  watched _ heq := by cases heq

theorem told_begun (hread : ∀ k w, m k = some w → R.ReadBy s sel s.rev k w) : begun.Told R s sel m where
  reached := le_rfl
  read := hread
  listed _ _ heq := by cases heq
  live _ _ heq := by cases heq
  watched _ heq := by cases heq

theorem told_listing {r : ℕ} {left : List K} (hr : r ≤ s.rev) (hread : ∀ k w, m k = some w → R.ReadBy s sel r k w)
    (hcovers : R.Covers s sel r left m) (hlive : ∀ k ∈ left, ∃ v, s.selected sel r k = some v) :
    (listing r left).Told R s sel m where
  reached := hr
  read := hread
  listed _ _ heq := by
    cases heq
    exact hcovers
  live _ _ heq := by
    cases heq
    exact hlive
  watched _ heq := by cases heq

theorem told_watching {r : ℕ} (hr : r ≤ s.rev) (hread : ∀ k w, m k = some w → R.ReadBy s sel r k w)
    (hcovers : R.Covers s sel r [] m) : (watching r).Told R s sel m where
  reached := hr
  read := hread
  listed _ _ heq := by cases heq
  live _ _ heq := by cases heq
  watched _ heq := by
    cases heq
    exact hcovers

/-- **What is told next is written down**, and takes nothing back. -/
theorem Told.step {event : Option (WatchEvent V)} (hord : R.Ordered s) (h : pos.Told R s sel m)
    (hdel : Delivers s sel pos event pos') :
    R.Before m (R.absorb m event) ∧ pos'.Told R s sel (R.absorb m event) := by
  have hnext : ∀ r, ∀ k w, R.ReadBy s sel r k w → R.ReadBy s sel (r + 1) k w :=
    fun r _ _ hw => hw.mono (Nat.le_succ r)
  cases hdel with
  | init => exact ⟨.refl m, told_begun h.read⟩
  | list hleft =>
    refine ⟨.refl m, told_listing le_rfl h.read (fun k v w hk hat _ => ?_) fun k hk => (hleft k).mp hk⟩
    exact absurd ((hleft k).mpr ⟨v, hat⟩) hk
  | @initApply r k₀ left v₀ hat =>
    have hrest : ∀ k v w, k ≠ k₀ → k ∉ left → s.selected sel r k = some v → R.read v = some (k, w) →
        m k = some w :=
      fun k v w hne hleft => h.listed _ _ rfl k v w (List.not_mem_cons_of_ne_of_not_mem hne hleft)
    obtain ⟨hbefore, hread, hcovers⟩ := absorb_object hord le_rfl hat
      (rfl : (WatchEvent.initApply v₀).applied = some v₀) h.read hrest
    exact ⟨hbefore, told_listing h.reached hread hcovers fun k hk => h.live _ _ rfl k (List.mem_cons_of_mem _ hk)⟩
  | initDone => exact ⟨.refl m, told_watching h.reached h.read (h.listed _ _ rfl)⟩
  | @apply r k₀ v₀ hlt hat hothers =>
    have hrest : ∀ k v w, k ≠ k₀ → k ∉ [] → s.selected sel (r + 1) k = some v → R.read v = some (k, w) →
        m k = some w :=
      fun k v w hne hleft hkat =>
        h.watched _ rfl k v w hleft ((Revisions.selected_congr (hothers k hne)).symm.trans hkat)
    obtain ⟨hbefore, hread, hcovers⟩ := absorb_object hord (Nat.le_succ r) hat
      (rfl : (WatchEvent.apply v₀).applied = some v₀) h.read hrest
    exact ⟨hbefore, told_watching hlt hread hcovers⟩
  | @delete r k₀ v₀ old hlt _ hgone hothers =>
    refine ⟨.refl m, told_watching hlt (fun k w hw => hnext r k w (h.read k w hw)) fun k v w hleft hkat => ?_⟩
    have hne : k ≠ k₀ := by
      rintro rfl
      cases hgone.symm.trans hkat
    exact h.watched _ rfl k v w hleft ((Revisions.selected_congr (hothers k hne)).symm.trans hkat)
  | @skip r hlt hsame =>
    refine ⟨.refl m, told_watching hlt (fun k w hw => hnext r k w (h.read k w hw)) fun k v w hleft hkat => ?_⟩
    exact h.watched _ rfl k v w hleft ((hsame k).symm.trans hkat)

theorem frontier_extends (hext : s.Extends s') (hreached : pos.frontier s ≤ s.rev) :
    pos.frontier s ≤ pos.frontier s' ∧ pos.frontier s' ≤ s'.rev := by
  cases pos with
  | lost | begun => exact ⟨hext.rev, le_rfl⟩
  | listing r left | watching r => exact ⟨le_rfl, hreached.trans hext.rev⟩

theorem frontier_le {event : Option (WatchEvent V)} (hdel : Delivers s sel pos event pos') :
    pos.frontier s ≤ pos'.frontier s := by
  cases hdel with
  | init | list _ | initApply _ | initDone => exact le_rfl
  | apply _ _ _ | delete _ _ _ _ | skip _ _ => exact Nat.le_succ _

theorem Told.extends (h : pos.Told R s sel m) (hext : s.Extends s') : pos.Told R s' sel m := by
  obtain ⟨hle, hreached⟩ := frontier_extends hext h.reached
  refine ⟨hreached, fun k w hw => ((h.read k w hw).extends hext h.reached).mono hle, fun r left heq => ?_,
    fun r left heq k hk => ?_, fun r heq => ?_⟩
  · subst heq
    exact (h.listed r left rfl).extends hext h.reached
  · subst heq
    obtain ⟨v, hv⟩ := h.live r left rfl k hk
    exact ⟨v, (Revisions.selected_congr (hext.asOf h.reached k)).trans hv⟩
  · subst heq
    exact (h.watched r rfl).extends hext h.reached

/-- The next position of a stream. -/
def Next (s : Revisions K V) (sel : K → V → Bool) (pos pos' : Position K) : Prop :=
  ∃ event, Delivers s sel pos event pos'

/-- A change can always be told. -/
theorem next_watching (hseq : s.Sequential) {r : ℕ} (hr : r < s.rev) :
    Next s sel (.watching r) (.watching (r + 1)) := by
  obtain ⟨k, hothers⟩ := hseq r hr
  cases hnew : s.selected sel (r + 1) k with
  | some v => exact ⟨_, .apply hr hnew hothers⟩
  | none =>
    cases hold : s.selected sel r k with
    | some old => exact ⟨_, .delete (v := old) hr hold hnew hothers⟩
    | none =>
      refine ⟨none, .skip hr fun k' => ?_⟩
      by_cases hk : k' = k
      · rw [hk, hnew, hold]
      · exact Revisions.selected_congr (hothers k' hk)

/-- There is a list of what is selected. -/
theorem next_begun : ∃ left, Next s sel .begun (.listing s.rev left) := by
  refine ⟨(s.log.map Logged.key).filter fun k => (s.selected sel s.rev k).isSome, none, .list fun k => ?_⟩
  rw [List.mem_filter, Option.isSome_iff_exists]
  refine ⟨fun h => h.2, fun h => ⟨?_, h⟩⟩
  obtain ⟨v, hv⟩ := h
  exact Revisions.mem_of_asOf (Revisions.selected_eq_some.mp hv).1

theorem nexts_listing {r : ℕ} : ∀ left : List K, (∀ k ∈ left, ∃ v, s.selected sel r k = some v) →
    Relation.ReflTransGen (Next s sel) (.listing r left) (.watching r) := by
  intro left
  induction left with
  | nil => intro _; exact .single ⟨_, .initDone⟩
  | cons k left ih =>
    intro hlive
    obtain ⟨v, hv⟩ := hlive k List.mem_cons_self
    exact .head ⟨_, .initApply hv⟩ (ih fun k' hk' => hlive k' (List.mem_cons_of_mem _ hk'))

theorem nexts_watching (hseq : s.Sequential) {r : ℕ} (hr : r ≤ s.rev) :
    Relation.ReflTransGen (Next s sel) (.watching r) (.watching s.rev) := by
  obtain ⟨d, hd⟩ := Nat.exists_eq_add_of_le hr
  induction d generalizing r with
  | zero =>
    rw [hd]
    exact .refl
  | succ d ih => exact .head (next_watching hseq (by omega)) (ih (by omega) (by omega))

/-- **A stream that is not lost catches up**, once nobody writes. -/
theorem Told.tells_all (hseq : s.Sequential) (h : pos.Told R s sel m) :
    Relation.ReflTransGen (Next s sel) pos (.watching s.rev) := by
  have hbegun : Relation.ReflTransGen (Next s sel) .begun (.watching s.rev) := by
    obtain ⟨left, event, hlist⟩ : ∃ left, Next s sel .begun (.listing s.rev left) := next_begun
    cases hlist with
    | list hleft => exact .head ⟨_, .list hleft⟩ (nexts_listing left fun k hk => (hleft k).mp hk)
  cases pos with
  | lost => exact .head ⟨_, .init⟩ hbegun
  | begun => exact hbegun
  | listing r left => exact (nexts_listing left (h.live r left rfl)).trans (nexts_watching hseq h.reached)
  | watching r => exact nexts_watching hseq h.reached

/-- It goes on until then. -/
theorem Told.next (hseq : s.Sequential) (h : pos.Told R s sel m) :
    pos = .watching s.rev ∨ ∃ pos', Next s sel pos pos' := by
  rcases (h.tells_all hseq).cases_head with hpos | ⟨pos', hnext, -⟩
  · exact .inl hpos
  · exact .inr ⟨pos', hnext⟩

theorem acc_of_delivers (h : ∀ event pos', Delivers s sel pos event pos' → Acc (fun b a => Next s sel a b) pos') :
    Acc (fun b a => Next s sel a b) pos :=
  .intro _ fun pos' hnext => hnext.elim fun event hdel => h event pos' hdel

theorem acc_watching (s : Revisions K V) (sel : K → V → Bool) :
    ∀ d r, s.rev - r ≤ d → Acc (fun b a => Next s sel a b) (.watching r) := by
  intro d
  induction d with
  | zero =>
    intro r hr
    refine acc_of_delivers fun event pos hdel => ?_
    cases hdel <;> omega
  | succ d ih =>
    intro r hr
    refine acc_of_delivers fun event pos hdel => ?_
    cases hdel <;> exact ih _ (by omega)

theorem acc_listing (s : Revisions K V) (sel : K → V → Bool) (r : ℕ) :
    ∀ left, Acc (fun b a => Next s sel a b) (.listing r left) := by
  intro left
  induction left with
  | nil =>
    refine acc_of_delivers fun event pos hdel => ?_
    cases hdel
    exact acc_watching s sel _ r le_rfl
  | cons k left ih =>
    refine acc_of_delivers fun event pos hdel => ?_
    cases hdel
    exact ih

/-- **It does not go on for ever.**  How long it goes on is not known until it lists. -/
theorem acc_next (s : Revisions K V) (sel : K → V → Bool) (pos : Position K) :
    Acc (fun b a => Next s sel a b) pos := by
  have hbegun : Acc (fun b a => Next s sel a b) .begun := by
    refine acc_of_delivers fun event pos hdel => ?_
    cases hdel
    exact acc_listing s sel _ _
  cases pos with
  | lost =>
    refine acc_of_delivers fun event pos hdel => ?_
    cases hdel
    exact hbegun
  | begun => exact hbegun
  | listing r left => exact acc_listing s sel r left
  | watching r => exact acc_watching s sel _ r le_rfl

end Position

end

/-! ### Followers -/

/-- The store, the stream, what is shown, and what is written down. -/
structure Follower (K V W : Type) where
  store : Revisions K V
  pos : Position K
  shown : K → Option W
  staged : K → Option W

namespace Follower

variable [DecidableEq K]

/-- The step of a follower. -/
inductive Step (R : Reader K V W) (sel : K → V → Bool) : Follower K V W → Follower K V W → Prop
  /-- Somebody writes to the store. -/
  | stores {f : Follower K V W} {s' : Revisions K V} : f.store.Extends s' → R.Ordered s' →
      Step R sel f { f with store := s' }
  /-- What is delivered is written down, and shown at once. -/
  | shows {f : Follower K V W} {event : Option (WatchEvent V)} {pos' : Position K} :
      Delivers f.store sel f.pos event pos' →
      Step R sel f ⟨f.store, pos', R.absorb f.staged event, R.absorb f.staged event⟩
  /-- It is held back until the list is complete. -/
  | stages {f : Follower K V W} {event : Option (WatchEvent V)} {pos' : Position K} :
      Delivers f.store sel f.pos event pos' → (∀ r, pos' ≠ .watching r) →
      Step R sel f ⟨f.store, pos', f.shown, R.absorb f.staged event⟩
  /-- The stream is lost, and what was held back with it. -/
  | loses {f : Follower K V W} :
      Step R sel f ⟨f.store, .lost, fun k => (f.shown k).map R.mark, fun k => (f.shown k).map R.mark⟩

/-- What is shown was read of a revision that was reached, is not newer than what is written
down, and is all that is written down while the stream watches. -/
structure Inv (R : Reader K V W) (sel : K → V → Bool) (f : Follower K V W) : Prop where
  ordered : R.Ordered f.store
  told : f.pos.Told R f.store sel f.staged
  shown : ∀ k w, f.shown k = some w → R.ReadBy f.store sel (f.pos.frontier f.store) k w
  before : R.Before f.shown f.staged
  agree : ∀ r, f.pos = .watching r → f.shown = f.staged

variable {R : Reader K V W} {sel : K → V → Bool} {f f' : Follower K V W}

/-- A follower that has seen nothing. -/
theorem inv_start {s : Revisions K V} (hord : R.Ordered s) :
    Inv R sel ⟨s, .lost, fun _ => none, fun _ => none⟩ where
  ordered := hord
  told := Position.told_lost fun _ _ hw => by cases hw
  shown _ _ hw := by cases hw
  before := .refl _
  agree _ heq := by cases heq

/-- **A step keeps the invariant, and takes back nothing that is shown.** -/
theorem Inv.step (h : f.Inv R sel) (hstep : f.Step R sel f') :
    f'.Inv R sel ∧ R.Before f.shown f'.shown := by
  cases hstep with
  | stores hext hord =>
    refine ⟨⟨hord, h.told.extends hext, fun k w hw => ?_, h.before, h.agree⟩, .refl _⟩
    exact ((h.shown k w hw).extends hext h.told.reached).mono (Position.frontier_extends hext h.told.reached).1
  | shows hdel =>
    obtain ⟨hbefore, htold⟩ := h.told.step h.ordered hdel
    exact ⟨⟨h.ordered, htold, htold.read, .refl _, fun _ _ => rfl⟩, h.before.trans hbefore⟩
  | stages hdel hpos =>
    obtain ⟨hbefore, htold⟩ := h.told.step h.ordered hdel
    have hshown := fun k w hw => (h.shown k w hw).mono (Position.frontier_le hdel)
    exact ⟨⟨h.ordered, htold, hshown, h.before.trans hbefore, fun r hr => absurd hr (hpos r)⟩, .refl _⟩
  | loses =>
    have hread : ∀ k w, (f.shown k).map R.mark = some w → R.ReadBy f.store sel f.store.rev k w := by
      intro k w hw
      obtain ⟨w₀, hw₀, rfl⟩ := Option.map_eq_some_iff.mp hw
      exact ((h.shown k w₀ hw₀).mono h.told.reached).mark
    exact ⟨⟨h.ordered, Position.told_lost hread, hread, .refl _, fun _ heq => by cases heq⟩, .mark _⟩

/-- **What can be read is shown as it is**, while the stream watches. -/
theorem Inv.current (h : f.Inv R sel) {r : ℕ} (hpos : f.pos = .watching r) {k : K} {v : V} {w : W}
    (hat : f.store.selected sel r k = some v) (hread : R.read v = some (k, w)) : f.shown k = some w := by
  rw [h.agree r hpos]
  exact h.told.watched r hpos k v w List.not_mem_nil hat hread

/-- **Nothing that is shown is ever replaced by something older.** -/
theorem Inv.run (h : f.Inv R sel) (hrun : Relation.ReflTransGen (Step R sel) f f') :
    f'.Inv R sel ∧ R.Before f.shown f'.shown := by
  induction hrun with
  | refl => exact ⟨h, .refl _⟩
  | tail _ hstep ih =>
    obtain ⟨hinv, hbefore⟩ := ih.1.step hstep
    exact ⟨hinv, ih.2.trans hbefore⟩

end Follower

end Lib
