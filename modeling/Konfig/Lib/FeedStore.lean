import Mathlib.Data.List.Induction
import Konfig.Lib.WatchMirror

/-!
# Stores that outlive their feeds

A store holds one value under each key, and the values come in over feeds.  When
a feed loses its connection nothing is removed: the values are marked with the
instant of the loss, until they are written again.  A journal lists what happened
to a store, and `entryAfter` is what it does to one entry.

* `FeedOp.applyTo`: one operation on a store, and `lookup_foldl_applyTo`, what is then found.
* `since`: the part of a journal after the last write of a key.
* `entryAfter_eq`: an entry is what was written last, marked by each loss since.
* `stale_last`: where a mark replaces the one before it, an entry shows the last
  loss since it was written.
* `stale_first`: where a marked entry is left alone, it shows the first.
-/

namespace Lib

/-- What can happen to a store. -/
inductive FeedOp (K V F T : Type)
  | write (key : K) (value : V)
  | lose (feed : F) (now : T)

/-- The instants at which a connection was lost. -/
def losses {K V F T : Type} (journal : List (FeedOp K V F T)) : List T :=
  journal.filterMap fun
    | .write _ _ => none
    | .lose _ now => some now

/-- The instants at which a feed lost its connection. -/
def lossesOf {K V F T : Type} [DecidableEq F] (feed : F) (journal : List (FeedOp K V F T)) : List T :=
  journal.filterMap fun
    | .write _ _ => none
    | .lose f now => if f = feed then some now else none

section

variable {K V F T : Type}

theorem losses_append (a b : List (FeedOp K V F T)) : losses (a ++ b) = losses a ++ losses b :=
  List.filterMap_append

theorem lossesOf_append [DecidableEq F] (feed : F) (a b : List (FeedOp K V F T)) :
    lossesOf feed (a ++ b) = lossesOf feed a ++ lossesOf feed b := List.filterMap_append

/-- The operations are all writes. -/
def OnlyWrites (ops : List (FeedOp K V F T)) : Prop := ∀ op ∈ ops, ∃ key value, op = .write key value

theorem OnlyWrites.losses {ops : List (FeedOp K V F T)} (h : OnlyWrites ops) : losses ops = [] := by
  refine List.filterMap_eq_nil_iff.mpr fun op hop => ?_
  obtain ⟨k, v, rfl⟩ := h op hop
  rfl

theorem OnlyWrites.lossesOf [DecidableEq F] {ops : List (FeedOp K V F T)} (h : OnlyWrites ops)
    (feed : F) : lossesOf feed ops = [] := by
  refine List.filterMap_eq_nil_iff.mpr fun op hop => ?_
  obtain ⟨k, v, rfl⟩ := h op hop
  rfl

variable [DecidableEq K]

/-- The operation writes the entry of a key. -/
def FeedOp.writes (key : K) : FeedOp K V F T → Bool
  | .write k _ => k = key
  | .lose _ _ => false

/-- One operation on the entry of a key; `mark` is what a loss does to a value. -/
def FeedOp.applyAt (mark : T → V → V) (key : K) (entry : Option V) : FeedOp K V F T → Option V
  | .write k value => if k = key then some value else entry
  | .lose _ now => entry.map (mark now)

/-- One operation on a store. -/
def FeedOp.applyTo (mark : T → V → V) (store : Map K V) : FeedOp K V F T → Map K V
  | .write key value => store.insert key value
  | .lose _ now => store.mapVals (mark now)

/-- The entry of a key after a journal. -/
def entryAfter (mark : T → V → V) (key : K) (initial : Option V) (journal : List (FeedOp K V F T)) :
    Option V := journal.foldl (FeedOp.applyAt mark key) initial

/-- What was written last under a key. -/
def lastWritten (key : K) (initial : Option V) (journal : List (FeedOp K V F T)) : Option V :=
  entryAfter (fun _ v => v) key initial journal

/-- What happened after the last write of a key. -/
def since (key : K) (journal : List (FeedOp K V F T)) : List (FeedOp K V F T) :=
  (journal.reverse.takeWhile fun op => !op.writes key).reverse

/-! ### One more operation -/

theorem since_snoc_of_writes {key : K} {op : FeedOp K V F T} (journal : List (FeedOp K V F T))
    (h : op.writes key = true) : since key (journal ++ [op]) = [] := by
  simp [since, h]

theorem since_snoc_of_not_writes {key : K} {op : FeedOp K V F T} (journal : List (FeedOp K V F T))
    (h : op.writes key = false) : since key (journal ++ [op]) = since key journal ++ [op] := by
  simp [since, h]

theorem since_append_of_not_writes {key : K} (journal : List (FeedOp K V F T)) :
    ∀ ops : List (FeedOp K V F T), (∀ op ∈ ops, op.writes key = false) →
      since key (journal ++ ops) = since key journal ++ ops := by
  intro ops
  induction ops using List.reverseRecOn with
  | nil => intro _; simp
  | append_singleton ops op ih =>
    intro h
    rw [← List.append_assoc, since_snoc_of_not_writes _ (h op (by simp)),
      ih fun o ho => h o (by simp [ho]), List.append_assoc]

theorem entryAfter_snoc (mark : T → V → V) (key : K) (initial : Option V)
    (journal : List (FeedOp K V F T)) (op : FeedOp K V F T) :
    entryAfter mark key initial (journal ++ [op]) =
      op.applyAt mark key (entryAfter mark key initial journal) := by
  simp [entryAfter]

theorem entryAfter_append (mark : T → V → V) (key : K) (initial : Option V)
    (journal ops : List (FeedOp K V F T)) :
    entryAfter mark key initial (journal ++ ops) =
      entryAfter mark key (entryAfter mark key initial journal) ops := List.foldl_append

theorem lookup_applyTo (mark : T → V → V) (key : K) (store : Map K V) (op : FeedOp K V F T) :
    (op.applyTo mark store).lookup key = op.applyAt mark key (store.lookup key) := by
  cases op with
  | lose feed now => exact Map.lookup_mapVals _ _ _
  | write k value =>
    change (store.insert k value).lookup key = if k = key then some value else store.lookup key
    by_cases hk : k = key
    · rw [if_pos hk, ← hk, AList.lookup_insert]
    · rw [if_neg hk, AList.lookup_insert_ne (Ne.symm hk)]

/-- **What is found in a store after some operations.** -/
theorem lookup_foldl_applyTo (mark : T → V → V) (key : K) : ∀ (ops : List (FeedOp K V F T))
    (store : Map K V), (ops.foldl (FeedOp.applyTo mark) store).lookup key =
      entryAfter mark key (store.lookup key) ops := by
  intro ops
  induction ops with
  | nil => intro store; rfl
  | cons op ops ih =>
    intro store
    rw [List.foldl_cons, ih, lookup_applyTo]
    rfl

/-- Without a write of the key the last one stays. -/
theorem lastWritten_append (key : K) (initial : Option V) (journal : List (FeedOp K V F T)) :
    ∀ ops : List (FeedOp K V F T), (∀ op ∈ ops, op.writes key = false) →
      lastWritten key initial (journal ++ ops) = lastWritten key initial journal := by
  intro ops
  induction ops using List.reverseRecOn with
  | nil => intro _; rw [List.append_nil]
  | append_singleton ops op ih =>
    intro h
    rw [← List.append_assoc, lastWritten, entryAfter_snoc, ← lastWritten,
      ih fun o ho => h o (by simp [ho])]
    cases op with
    | write k value => exact if_neg (of_decide_eq_false (h (.write k value) (by simp)))
    | lose feed now => exact Option.map_id'

/-! ### Writes -/

/-- Some writes either leave a key alone, or nothing was lost since its last write. -/
theorem since_append_writes (key : K) (journal : List (FeedOp K V F T)) :
    ∀ ops : List (FeedOp K V F T), OnlyWrites ops →
      OnlyWrites (since key (journal ++ ops)) ∨ ∀ op ∈ ops, op.writes key = false := by
  intro ops
  induction ops using List.reverseRecOn with
  | nil => intro _; exact Or.inr (by simp)
  | append_singleton ops op ih =>
    intro h
    rw [← List.append_assoc]
    cases hop : op.writes key with
    | true =>
      rw [since_snoc_of_writes _ hop]
      exact Or.inl (by simp [OnlyWrites])
    | false =>
      rw [since_snoc_of_not_writes _ hop]
      refine (ih fun o ho => h o (by simp [ho])).imp (fun honly o ho => ?_) (fun hnot o ho => ?_)
      · rw [List.mem_append, List.mem_singleton] at ho
        rcases ho with ho | rfl
        · exact honly o ho
        · exact h o (by simp)
      · rw [List.mem_append, List.mem_singleton] at ho
        rcases ho with ho | rfl
        · exact hnot o ho
        · exact hop

/-! ### What an entry shows -/

/-- **An entry is what was written last, marked by each loss since.** -/
theorem entryAfter_eq (mark : T → V → V) (key : K) (initial : Option V) :
    ∀ journal : List (FeedOp K V F T), entryAfter mark key initial journal =
      (lastWritten key initial journal).map fun v =>
        (losses (since key journal)).foldl (fun v now => mark now v) v := by
  intro journal
  induction journal using List.reverseRecOn with
  | nil => cases initial <;> rfl
  | append_singleton journal op ih =>
    rw [entryAfter_snoc, lastWritten, entryAfter_snoc, ← lastWritten, ih]
    cases op with
    | write k value =>
      by_cases hk : k = key
      · rw [since_snoc_of_writes _ (by simp [FeedOp.writes, hk])]
        simp [FeedOp.applyAt, hk, losses]
      · rw [since_snoc_of_not_writes _ (by simp [FeedOp.writes, hk])]
        simp [FeedOp.applyAt, hk, losses]
    | lose feed now =>
      rw [since_snoc_of_not_writes _ rfl, losses_append]
      simp [FeedOp.applyAt, losses, Function.comp_def]

/-- What is written is not marked. -/
def FreshWrites (stale : V → Option T) (journal : List (FeedOp K V F T)) : Prop :=
  ∀ key value, FeedOp.write key value ∈ journal → stale value = none

theorem stale_lastWritten {stale : V → Option T} {key : K} {initial : Option V}
    (hinitial : ∀ v ∈ initial, stale v = none) : ∀ journal : List (FeedOp K V F T),
      FreshWrites stale journal → ∀ v ∈ lastWritten key initial journal, stale v = none := by
  intro journal
  induction journal using List.reverseRecOn with
  | nil => intro _; exact hinitial
  | append_singleton journal op ih =>
    intro hfresh v hv
    have hbefore := ih fun k w hw => hfresh k w (by simp [hw])
    rw [lastWritten, entryAfter_snoc, ← lastWritten] at hv
    cases op with
    | write k value =>
      by_cases hk : k = key
      · rw [FeedOp.applyAt, if_pos hk, Option.mem_def, Option.some.injEq] at hv
        rw [← hv]
        exact hfresh k value (by simp)
      · rw [FeedOp.applyAt, if_neg hk] at hv
        exact hbefore v hv
    | lose feed now =>
      rw [FeedOp.applyAt, Option.map_id'] at hv
      exact hbefore v hv

theorem stale_foldl_replaced {stale : V → Option T} {mark : T → V → V}
    (hmark : ∀ now v, stale (mark now v) = some now) : ∀ (instants : List T) (v : V),
      stale (instants.foldl (fun v now => mark now v) v) = instants.getLast?.or (stale v) := by
  intro instants
  induction instants using List.reverseRecOn with
  | nil => intro v; rfl
  | append_singleton instants now ih =>
    intro v
    rw [List.foldl_append, List.foldl_cons, List.foldl_nil, hmark, List.getLast?_concat]
    rfl

theorem stale_foldl_kept {stale : V → Option T} {mark : T → V → V}
    (hmark : ∀ now v, stale (mark now v) = (stale v).or (some now)) : ∀ (instants : List T) (v : V),
      stale (instants.foldl (fun v now => mark now v) v) = (stale v).or instants.head? := by
  intro instants
  induction instants with
  | nil => intro v; simp
  | cons now instants ih =>
    intro v
    rw [List.foldl_cons, ih, hmark, List.head?_cons]
    cases stale v <;> rfl

/-- **A mark that is replaced shows the last loss** since the entry was written. -/
theorem stale_last {stale : V → Option T} {mark : T → V → V}
    (hmark : ∀ now v, stale (mark now v) = some now) {key : K} {initial : Option V}
    (hinitial : ∀ v ∈ initial, stale v = none) {journal : List (FeedOp K V F T)}
    (hfresh : FreshWrites stale journal) {v : V} (hv : entryAfter mark key initial journal = some v) :
    stale v = (losses (since key journal)).getLast? := by
  rw [entryAfter_eq, Option.map_eq_some_iff] at hv
  obtain ⟨written, hw, rfl⟩ := hv
  rw [stale_foldl_replaced hmark, stale_lastWritten hinitial journal hfresh written hw, Option.or_none]

/-- **Writes keep a law** between what an entry shows and what happened since it
was written, if the law allows an entry nothing was lost of to be fresh, and does
not look at writes. -/
theorem law_of_writes {stale : V → Option T} {mark : T → V → V}
    (hmark : ∀ now v, stale (mark now v) = some now) {key : K} {initial : Option V}
    (hinitial : ∀ v ∈ initial, stale v = none) (law : Option T → List (FeedOp K V F T) → Prop)
    (hfreshLaw : ∀ ops, OnlyWrites ops → law none ops)
    (happend : ∀ shown ops writes, OnlyWrites writes → law shown ops → law shown (ops ++ writes))
    {journal writes : List (FeedOp K V F T)} (hwrites : OnlyWrites writes)
    (hfresh : FreshWrites stale (journal ++ writes))
    (h : ∀ v, entryAfter mark key initial journal = some v → law (stale v) (since key journal)) (v : V)
    (hv : entryAfter mark key initial (journal ++ writes) = some v) :
    law (stale v) (since key (journal ++ writes)) := by
  rcases since_append_writes key journal writes hwrites with honly | hnot
  · rw [stale_last hmark hinitial hfresh hv, honly.losses]
    exact hfreshLaw _ honly
  · rw [since_append_of_not_writes journal writes hnot]
    refine happend _ _ writes hwrites (h v ?_)
    rw [entryAfter_eq, lastWritten_append key initial journal writes hnot,
      since_append_of_not_writes journal writes hnot, losses_append, hwrites.losses, List.append_nil] at hv
    rw [entryAfter_eq, hv]

/-- **A mark that is kept shows the first loss** since the entry was written. -/
theorem stale_first {stale : V → Option T} {mark : T → V → V}
    (hmark : ∀ now v, stale (mark now v) = (stale v).or (some now)) {key : K} {initial : Option V}
    (hinitial : ∀ v ∈ initial, stale v = none) {journal : List (FeedOp K V F T)}
    (hfresh : FreshWrites stale journal) {v : V} (hv : entryAfter mark key initial journal = some v) :
    stale v = (losses (since key journal)).head? := by
  rw [entryAfter_eq, Option.map_eq_some_iff] at hv
  obtain ⟨written, hw, rfl⟩ := hv
  rw [stale_foldl_kept hmark, stale_lastWritten hinitial journal hfresh written hw, Option.none_or]

end

end Lib
