import Mathlib.Data.List.AList
import Konfig.Policy.Quota

/-!
# Subscriber slots

`SubscriberCounts` of `quota.rs`: one counter per identity in a shared map, a
guard per admitted stream, and the `konfig_tenant_subscribers` gauge beside it.

`Tenants.step` interleaves any number of streams.  One step is one access to
the map or to the gauge: an admission increments the entry and sets the gauge
later; a release decrements the entry, and then either removes it and clears
the gauge, or reads the entry again and sets the gauge.

* `Account`: what the map and the slots say about one identity, and the four
  things a step can do to it (`account_step`).
* `Account.Balanced`: the entry is the number of live guards, and a zero entry
  still has a release that is about to remove it.
* `subscriber_accounting`: the accounting of every run.
-/

namespace Konfig

open Lib

/-! ### The map -/

/-- `Admit`, without the guard. -/
inductive Admit
  | allowed (current limit : UInt32) (overBudget : Bool)
  | denied (current limit : UInt32)
  deriving DecidableEq, Repr

/-- `SubscriberCounts`: a `DashMap<String, u32>`. -/
abbrev SubscriberCounts := Map String UInt32

namespace SubscriberCounts

def current (c : SubscriberCounts) (identity : String) : UInt32 := (c.lookup identity).getD 0

/-- `entry(identity).or_insert(0)`. -/
def orInsertZero (c : SubscriberCounts) (identity : String) : SubscriberCounts :=
  if (c.lookup identity).isSome then c else c.insert identity 0

/-- `*e += 1` on the entry; the release build wraps. -/
def increment (c : SubscriberCounts) (identity : String) : UInt32 × SubscriberCounts :=
  let n := c.current identity + 1
  (n, c.insert identity n)

/-- `try_increment`, up to the drop of the entry lock. -/
def tryIncrement (c : SubscriberCounts) (identity : String) (limit : UInt32) :
    Except UInt32 UInt32 × SubscriberCounts :=
  let c := c.orInsertZero identity
  let e := c.current identity
  if limit ≠ 0 ∧ e ≥ limit then (.error e, c)
  else
    let (n, c) := c.increment identity
    (.ok n, c)

/-- `increment_unchecked`, up to the drop of the entry lock. -/
def incrementUnchecked (c : SubscriberCounts) (identity : String) : UInt32 × SubscriberCounts :=
  (c.orInsertZero identity).increment identity

/-- `admit`. -/
def admitOne (c : SubscriberCounts) (identity : String) (mode : QuotaMode) (limit : UInt32) :
    Admit × SubscriberCounts :=
  match mode with
  | .enforce =>
    match c.tryIncrement identity limit with
    | (.ok current, c) => (.allowed current limit false, c)
    | (.error current, c) => (.denied current limit, c)
  | .permissive | .disabled =>
    let (current, c) := c.incrementUnchecked identity
    (.allowed current limit (mode = .permissive ∧ limit ≠ 0 ∧ current > limit), c)

/-- The `get_mut` of `release`: decrement the entry, and say whether it is now zero. -/
def decrement (c : SubscriberCounts) (identity : String) : Bool × SubscriberCounts :=
  match c.lookup identity with
  | some e =>
    let e' := UInt32.ofNat (e.toNat - 1)
    (e' = 0, c.insert identity e')
  | none => (false, c)

/-- `remove_if(identity, |_, &v| v == 0)`. -/
def removeIfZero (c : SubscriberCounts) (identity : String) : SubscriberCounts :=
  if c.lookup identity = some 0 then c.erase identity else c

end SubscriberCounts

/-- `admit_subscriber`: no accounting when quotas are disabled. -/
def admitSubscriber (c : SubscriberCounts) (table : QuotaTable) (synced : Bool) (mode : QuotaMode)
    (defaultMaxSubscribers : UInt32) (identity : String) :
    Except Status (Option Admit) × SubscriberCounts :=
  if mode = .disabled then (.ok none, c)
  else
    let limit := effectiveSubscriberLimit table synced defaultMaxSubscribers identity
    match c.admitOne identity mode limit with
    | (.allowed current limit overBudget, c) => (.ok (some (.allowed current limit overBudget)), c)
    | (.denied current limit, c) =>
      (.error ⟨.resourceExhausted,
        s!"tenant subscriber quota exhausted ({current.toNat}/{limit.toNat})"⟩, c)

/-! ### The streams -/

/-- Where an admitted stream stands. -/
inductive SlotStage
  /-- The entry is incremented to `n`, the gauge not yet set. -/
  | admitted (n : UInt32)
  /-- `admit` has returned; the RPC holds the guard while its handler runs. -/
  | handling
  /-- The guard rides the response stream. -/
  | streaming
  /-- The release took the entry to zero; `remove_if` is next. -/
  | reaping
  /-- `remove_if` is done; the gauge is cleared next. -/
  | clearing
  /-- The release left a count; `current` is next. -/
  | rereading
  /-- `current` read `n`; the gauge is set next. -/
  | republishing (n : UInt32)
  | released
  deriving DecidableEq, Repr

/-- The guard is there and has not been released. -/
def SlotStage.isAlive : SlotStage → Bool
  | .admitted _ | .handling | .streaming => true
  | _ => false

/-- The stage is between the map update of an operation and its gauge write. -/
def SlotStage.inProgress : SlotStage → Bool
  | .admitted _ | .reaping | .clearing | .rereading | .republishing _ => true
  | _ => false

def SlotStage.isReaping : SlotStage → Bool
  | .reaping => true
  | _ => false

/-- One admitted stream.  `overtaken` is a history variable: since this stream's
last map update another one of the identity has taken place. -/
structure Slot where
  identity : String
  stage : SlotStage
  overtaken : Bool
  deriving DecidableEq, Repr

structure Tenants where
  counts : SubscriberCounts
  gauge : Map String UInt32
  slots : List Slot

def Tenants.new : Tenants := { counts := ∅, gauge := ∅, slots := [] }

inductive TenantLabel
  | admission (identity : String) (mode : QuotaMode) (limit : UInt32)
  /-- The handler of stream `k` answers: the guard moves into the stream. -/
  | respond (k : Nat)
  /-- The handler of stream `k` fails, which drops the guard. -/
  | fail (k : Nat)
  /-- The response stream `k` is dropped. -/
  | drop (k : Nat)
  /-- Stream `k` takes the next step of the admission or the release it is in. -/
  | advance (k : Nat)
  deriving DecidableEq, Repr

/-- A map update of `identity` has just happened. -/
def overtake (identity : String) (slots : List Slot) : List Slot :=
  slots.map fun x => if x.identity = identity then { x with overtaken := true } else x

/-- `SubscriberGuard::drop` of stream `k`, up to the decrement. -/
def Tenants.beginRelease (s : Tenants) (k : Nat) (identity : String) : Tenants :=
  let (nowZero, counts) := s.counts.decrement identity
  let stage := if nowZero then .reaping else .rereading
  { s with counts, slots := (overtake identity s.slots).set k ⟨identity, stage, false⟩ }

def Tenants.step (s : Tenants) : TenantLabel → Option Tenants
  | .admission identity mode limit =>
    match s.counts.admitOne identity mode limit with
    | (.allowed current _ _, counts) =>
      some { s with counts, slots := overtake identity s.slots ++ [⟨identity, .admitted current, false⟩] }
    | (.denied _ _, counts) => some { s with counts }
  | .respond k =>
    match s.slots[k]? with
    | some ⟨i, .handling, o⟩ => some { s with slots := s.slots.set k ⟨i, .streaming, o⟩ }
    | _ => none
  | .fail k =>
    match s.slots[k]? with
    | some ⟨i, .handling, _⟩ => some (s.beginRelease k i)
    | _ => none
  | .drop k =>
    match s.slots[k]? with
    | some ⟨i, .streaming, _⟩ => some (s.beginRelease k i)
    | _ => none
  | .advance k =>
    match s.slots[k]? with
    | some ⟨i, .admitted n, o⟩ =>
      some { s with gauge := s.gauge.insert i n, slots := s.slots.set k ⟨i, .handling, o⟩ }
    | some ⟨i, .reaping, o⟩ =>
      some { s with counts := s.counts.removeIfZero i, slots := s.slots.set k ⟨i, .clearing, o⟩ }
    | some ⟨i, .clearing, o⟩ =>
      some { s with gauge := s.gauge.erase i, slots := s.slots.set k ⟨i, .released, o⟩ }
    | some ⟨i, .rereading, o⟩ =>
      some { s with slots := s.slots.set k ⟨i, .republishing (s.counts.current i), o⟩ }
    | some ⟨i, .republishing n, o⟩ =>
      some { s with gauge := s.gauge.insert i n, slots := s.slots.set k ⟨i, .released, o⟩ }
    | _ => none

/-! ### The map, one access at a time -/

namespace SubscriberCounts

variable {c : SubscriberCounts} {i j : String}

theorem current_of_lookup {n : UInt32} (h : c.lookup i = some n) : c.current i = n := by
  rw [current, h, Option.getD_some]

theorem current_orInsertZero : (c.orInsertZero i).current j = c.current j := by
  unfold orInsertZero
  split
  · rfl
  · rename_i h
    rw [Bool.not_eq_true, Option.isSome_eq_false_iff, Option.isNone_iff_eq_none] at h
    by_cases hj : j = i
    · rw [hj, current, current, AList.lookup_insert, h]
      rfl
    · rw [current, current, AList.lookup_insert_ne hj]

theorem lookup_orInsertZero_of_ne (h : j ≠ i) : (c.orInsertZero i).lookup j = c.lookup j := by
  unfold orInsertZero
  split
  · rfl
  · exact AList.lookup_insert_ne h

theorem lookup_increment (h : j ≠ i) : (c.increment i).2.lookup j = c.lookup j :=
  AList.lookup_insert_ne h

/-- **An admission either adds one to the entry, and then it was below the limit
it enforces, or is denied and leaves the map as it is.** -/
theorem admitOne_cases (c : SubscriberCounts) (i : String) (mode : QuotaMode) (limit : UInt32) :
    (∃ ov c', c.admitOne i mode limit = (.allowed (c.current i + 1) limit ov, c') ∧
      c'.lookup i = some (c.current i + 1) ∧ (∀ j, j ≠ i → c'.lookup j = c.lookup j) ∧
      (mode = .enforce → limit ≠ 0 → c.current i < limit)) ∨
    c.admitOne i mode limit = (.denied (c.current i) limit, c) := by
  have hadd : ((c.orInsertZero i).increment i).1 = c.current i + 1 := by
    rw [increment, current_orInsertZero]
  have hi : ((c.orInsertZero i).increment i).2.lookup i = some (c.current i + 1) := by
    rw [increment, current_orInsertZero, AList.lookup_insert]
  have hj : ∀ j, j ≠ i → ((c.orInsertZero i).increment i).2.lookup j = c.lookup j := by
    intro j hne
    rw [lookup_increment hne, lookup_orInsertZero_of_ne hne]
  cases mode with
  | disabled =>
    refine Or.inl ⟨decide (QuotaMode.disabled = .permissive ∧ limit ≠ 0 ∧ c.current i + 1 > limit), _,
      ?_, hi, hj, by simp⟩
    rw [admitOne, incrementUnchecked, ← hadd]
  | permissive =>
    refine Or.inl ⟨decide (QuotaMode.permissive = .permissive ∧ limit ≠ 0 ∧ c.current i + 1 > limit), _,
      ?_, hi, hj, by simp⟩
    rw [admitOne, incrementUnchecked, ← hadd]
  | enforce =>
    by_cases h : limit ≠ 0 ∧ c.current i ≥ limit
    · right
      -- the entry is at least `limit > 0`, so `or_insert(0)` found one
      have hsome : (c.lookup i).isSome := by
        rw [Option.isSome_iff_ne_none]
        intro hnone
        have h0 : c.current i = 0 := by rw [current, hnone]; rfl
        rw [h0] at h
        exact h.1 (UInt32.le_zero_iff.mp h.2)
      have hz : c.orInsertZero i = c := if_pos hsome
      simp only [admitOne, tryIncrement, hz, if_pos h]
    · left
      have h' : ¬ (limit ≠ 0 ∧ (c.orInsertZero i).current i ≥ limit) := by
        rw [current_orInsertZero]
        exact h
      refine ⟨false, _, by simp only [admitOne, tryIncrement, if_neg h', hadd], hi, hj, ?_⟩
      intro _ hl
      exact UInt32.not_le.mp fun hge => h ⟨hl, hge⟩

theorem decrement_cases (c : SubscriberCounts) (i : String) :
    (c.lookup i = none ∧ c.decrement i = (false, c)) ∨
    (∃ e, c.lookup i = some e ∧ e.toNat ≤ 1 ∧ c.decrement i = (true, c.insert i 0)) ∨
    ∃ e, c.lookup i = some e ∧ 1 < e.toNat ∧
      c.decrement i = (false, c.insert i (UInt32.ofNat (e.toNat - 1))) := by
  cases he : c.lookup i with
  | none => exact Or.inl ⟨rfl, by simp only [decrement, he]⟩
  | some e =>
    right
    by_cases hle : e.toNat ≤ 1
    · left
      have h0 : UInt32.ofNat (e.toNat - 1) = 0 := by
        rw [Nat.sub_eq_zero_of_le hle]
        rfl
      exact ⟨e, rfl, hle, by simp only [decrement, he, h0, decide_true]⟩
    · right
      have h0 : UInt32.ofNat (e.toNat - 1) ≠ 0 := by
        intro h
        have h' := congrArg UInt32.toNat h
        rw [UInt32.toNat_ofNat', UInt32.toNat_zero] at h'
        have := e.toNat_lt
        omega
      exact ⟨e, rfl, by omega, by simp only [decrement, he, h0, decide_false]⟩

theorem lookup_decrement_of_ne (h : j ≠ i) : (c.decrement i).2.lookup j = c.lookup j := by
  rcases c.decrement_cases i with ⟨_, hd⟩ | ⟨e, _, _, hd⟩ | ⟨e, _, _, hd⟩
  · rw [hd]
  · rw [hd]
    exact AList.lookup_insert_ne h
  · rw [hd]
    exact AList.lookup_insert_ne h

theorem lookup_removeIfZero_of_ne (h : j ≠ i) : (c.removeIfZero i).lookup j = c.lookup j := by
  unfold removeIfZero
  split
  · exact AList.lookup_erase_ne h
  · rfl

theorem current_removeIfZero : (c.removeIfZero i).current j = c.current j := by
  unfold removeIfZero
  split
  · rename_i h0
    by_cases hj : j = i
    · rw [hj, current, current, AList.lookup_erase, h0]
      rfl
    · rw [current, current, AList.lookup_erase_ne hj]
  · rfl

end SubscriberCounts

/-! ### Counting slots -/

/-- The slots of an identity in the given stages. -/
def tally (p : SlotStage → Bool) (i : String) (slots : List Slot) : Nat :=
  slots.countP fun x => x.identity = i ∧ p x.stage

section Tally

variable {p : SlotStage → Bool} {i : String} {slots : List Slot} {x y : Slot} {k : Nat}

theorem tally_overtake (j : String) : tally p i (overtake j slots) = tally p i slots := by
  unfold tally overtake
  rw [List.countP_map]
  refine List.countP_congr fun x _ => ?_
  by_cases h : x.identity = j <;> simp [h]

theorem tally_snoc :
    tally p i (slots ++ [x]) = tally p i slots + if x.identity = i ∧ p x.stage then 1 else 0 := by
  unfold tally
  rw [List.countP_append, List.countP_singleton]
  simp only [decide_eq_true_eq]

theorem tally_set (h : slots[k]? = some x) :
    tally p i (slots.set k y) + (if x.identity = i ∧ p x.stage then 1 else 0) =
      tally p i slots + if y.identity = i ∧ p y.stage then 1 else 0 := by
  obtain ⟨hk, hx⟩ := List.getElem?_eq_some_iff.mp h
  unfold tally
  rw [List.countP_set hk, hx]
  simp only [decide_eq_true_eq]
  by_cases hp : x.identity = i ∧ p x.stage
  · have hpos : 0 < slots.countP fun x => x.identity = i ∧ p x.stage :=
      List.countP_pos_iff.mpr ⟨x, List.mem_of_getElem? h, by simpa using hp⟩
    rw [if_pos hp]
    omega
  · rw [if_neg hp]
    omega

theorem getElem?_overtake {j : String} (h : slots[k]? = some x) :
    (overtake j slots)[k]? = some (if x.identity = j then { x with overtaken := true } else x) := by
  rw [overtake, List.getElem?_map, h, Option.map_some]

/-- A map update by slot `k` that takes it to the stage `st'`. -/
theorem tally_release {j : String} {st : SlotStage} {o : Bool} (h : slots[k]? = some ⟨i, st, o⟩)
    (st' : SlotStage) :
    tally p j ((overtake i slots).set k ⟨i, st', false⟩) + (if i = j ∧ p st then 1 else 0) =
      tally p j slots + if i = j ∧ p st' then 1 else 0 := by
  have h1 := tally_set (p := p) (i := j) (y := ⟨i, st', false⟩) (getElem?_overtake (j := i) h)
  rw [tally_overtake] at h1
  simpa using h1

theorem tally_pos : 0 < tally p i slots ↔ ∃ x ∈ slots, x.identity = i ∧ p x.stage := by
  rw [tally, List.countP_pos_iff]
  simp only [decide_eq_true_eq]

end Tally

/-! ### One identity -/

/-- What the map and the slots say about one identity. -/
structure Account where
  entry : Option UInt32
  alive : Nat
  reaping : Nat

def Account.count (a : Account) : UInt32 := a.entry.getD 0

/-- What a step can do to an account. -/
inductive Account.Step : Account → Account → Prop
  | idle (a : Account) : Account.Step a a
  | grant (a : Account) :
      Account.Step a { a with entry := some (a.count + 1), alive := a.alive + 1 }
  /-- A release whose decrement finds no entry. -/
  | lost (n r : Nat) : Account.Step ⟨none, n + 1, r⟩ ⟨none, n, r⟩
  | toZero (e : UInt32) (n r : Nat) (h : e.toNat ≤ 1) :
      Account.Step ⟨some e, n + 1, r⟩ ⟨some 0, n, r + 1⟩
  | decrement (e : UInt32) (n r : Nat) (h : 1 < e.toNat) :
      Account.Step ⟨some e, n + 1, r⟩ ⟨some (UInt32.ofNat (e.toNat - 1)), n, r⟩
  | reap (n r : Nat) : Account.Step ⟨some 0, n, r + 1⟩ ⟨none, n, r⟩
  | spared (e : Option UInt32) (n r : Nat) (h : e ≠ some 0) : Account.Step ⟨e, n, r + 1⟩ ⟨e, n, r⟩

/-- **The books balance**: the entry counts the live guards, and an entry at zero
has a release that is about to remove it. -/
structure Account.Balanced (a : Account) : Prop where
  count : a.count.toNat = a.alive
  zero : a.entry = some 0 → 0 < a.reaping

theorem Account.Balanced.step {a b : Account} (ha : a.Balanced) (h : a.Step b)
    (hroom : a.alive + 1 < 2 ^ 32 ∨ b.alive ≤ a.alive) : b.Balanced := by
  obtain ⟨hc, hz⟩ := ha
  cases h with
  | idle => exact ⟨hc, hz⟩
  | grant =>
    have hlt : a.alive + 1 < 2 ^ 32 := by
      rcases hroom with h | h
      · exact h
      · simp only at h
        omega
    have hn : (a.count + 1).toNat = a.alive + 1 := by
      rw [UInt32.toNat_add, hc]
      exact Nat.mod_eq_of_lt hlt
    refine ⟨hn, fun h0 => ?_⟩
    rw [Option.some.injEq] at h0
    rw [h0] at hn
    simp at hn
  | lost n r => simp [Account.count] at hc
  | toZero e n r he =>
    refine ⟨?_, fun _ => Nat.succ_pos r⟩
    simp only [Account.count, Option.getD_some] at hc ⊢
    simp only [UInt32.toNat_zero]
    omega
  | decrement e n r he =>
    simp only [Account.count, Option.getD_some] at hc
    have hn : (UInt32.ofNat (e.toNat - 1)).toNat = n := by
      rw [UInt32.toNat_ofNat']
      have := e.toNat_lt
      omega
    refine ⟨hn, fun h0 => ?_⟩
    simp only [Option.some.injEq] at h0
    rw [h0, UInt32.toNat_zero] at hn
    omega
  | reap n r => exact ⟨hc, fun h => by simp at h⟩
  | spared e n r he => exact ⟨hc, fun h => absurd h he⟩

/-- Balanced books with no live guard and no removal outstanding have no entry. -/
theorem Account.Balanced.entry_none {a : Account} (ha : a.Balanced) (hlive : a.alive = 0)
    (hreap : a.reaping = 0) : a.entry = none := by
  cases he : a.entry with
  | none => rfl
  | some e =>
    have h0 : e = 0 := by
      have h := ha.count
      rw [Account.count, he, Option.getD_some, hlive] at h
      exact UInt32.toNat_inj.mp h
    have := ha.zero (by rw [he, h0])
    omega

/-! ### What a step can do -/

/-- The transitions of `Tenants.step`. -/
inductive Tenants.Move (s : Tenants) : TenantLabel → Tenants → Prop
  | denied (i : String) (mode : QuotaMode) (limit : UInt32)
      (h : s.counts.admitOne i mode limit = (.denied (s.counts.current i) limit, s.counts)) :
      s.Move (.admission i mode limit) s
  | admitted (i : String) (mode : QuotaMode) (limit : UInt32) (counts : SubscriberCounts)
      (hi : counts.lookup i = some (s.counts.current i + 1))
      (hne : ∀ j, j ≠ i → counts.lookup j = s.counts.lookup j)
      (hlimit : mode = .enforce → limit ≠ 0 → s.counts.current i < limit) :
      s.Move (.admission i mode limit)
        { s with
          counts
          slots := overtake i s.slots ++ [⟨i, .admitted (s.counts.current i + 1), false⟩] }
  | respond (k : Nat) (i : String) (o : Bool) (h : s.slots[k]? = some ⟨i, .handling, o⟩) :
      s.Move (.respond k) { s with slots := s.slots.set k ⟨i, .streaming, o⟩ }
  | fail (k : Nat) (i : String) (o : Bool) (h : s.slots[k]? = some ⟨i, .handling, o⟩) :
      s.Move (.fail k) (s.beginRelease k i)
  | drop (k : Nat) (i : String) (o : Bool) (h : s.slots[k]? = some ⟨i, .streaming, o⟩) :
      s.Move (.drop k) (s.beginRelease k i)
  | publish (k : Nat) (i : String) (n : UInt32) (o : Bool)
      (h : s.slots[k]? = some ⟨i, .admitted n, o⟩) :
      s.Move (.advance k)
        { s with gauge := s.gauge.insert i n, slots := s.slots.set k ⟨i, .handling, o⟩ }
  | reap (k : Nat) (i : String) (o : Bool) (h : s.slots[k]? = some ⟨i, .reaping, o⟩) :
      s.Move (.advance k)
        { s with
          counts := s.counts.removeIfZero i
          slots := s.slots.set k ⟨i, .clearing, o⟩ }
  | clear (k : Nat) (i : String) (o : Bool) (h : s.slots[k]? = some ⟨i, .clearing, o⟩) :
      s.Move (.advance k)
        { s with gauge := s.gauge.erase i, slots := s.slots.set k ⟨i, .released, o⟩ }
  | reread (k : Nat) (i : String) (o : Bool) (h : s.slots[k]? = some ⟨i, .rereading, o⟩) :
      s.Move (.advance k)
        { s with slots := s.slots.set k ⟨i, .republishing (s.counts.current i), o⟩ }
  | republish (k : Nat) (i : String) (n : UInt32) (o : Bool)
      (h : s.slots[k]? = some ⟨i, .republishing n, o⟩) :
      s.Move (.advance k)
        { s with gauge := s.gauge.insert i n, slots := s.slots.set k ⟨i, .released, o⟩ }

theorem Tenants.move_of_step {s t : Tenants} {a : TenantLabel} (h : s.step a = some t) :
    s.Move a t := by
  cases a with
  | admission i mode limit =>
    rcases s.counts.admitOne_cases i mode limit with ⟨ov, c', hc, hi, hne, hl⟩ | hd
    · simp only [Tenants.step, hc, Option.some.injEq] at h
      rw [← h]
      exact .admitted i mode limit c' hi hne hl
    · simp only [Tenants.step, hd, Option.some.injEq] at h
      rw [← h]
      exact .denied i mode limit hd
  | respond k =>
    simp only [Tenants.step] at h
    split at h
    · rename_i i o hk
      cases h
      exact .respond k i o hk
    · cases h
  | fail k =>
    simp only [Tenants.step] at h
    split at h
    · rename_i i o hk
      cases h
      exact .fail k i o hk
    · cases h
  | drop k =>
    simp only [Tenants.step] at h
    split at h
    · rename_i i o hk
      cases h
      exact .drop k i o hk
    · cases h
  | advance k =>
    simp only [Tenants.step] at h
    split at h
    · rename_i i n o hk
      cases h
      exact .publish k i n o hk
    · rename_i i o hk
      cases h
      exact .reap k i o hk
    · rename_i i o hk
      cases h
      exact .clear k i o hk
    · rename_i i o hk
      cases h
      exact .reread k i o hk
    · rename_i i n o hk
      cases h
      exact .republish k i n o hk
    · cases h

/-! ### The account of an identity along a run -/

def Tenants.account (s : Tenants) (i : String) : Account where
  entry := s.counts.lookup i
  alive := tally SlotStage.isAlive i s.slots
  reaping := tally SlotStage.isReaping i s.slots

/-- The guards of an identity that are alive. -/
def Tenants.alive (s : Tenants) (i : String) : Nat := (s.account i).alive

theorem Account.Step.of_eq {a b c : Account} (h : a.Step b) (hb : b = c) : a.Step c := hb ▸ h

/-- Moving a slot between stages that are neither alive nor reaping, or between
two live ones, leaves every account alone. -/
theorem Tenants.account_set {s : Tenants} {k : Nat} {i : String} {st : SlotStage} {o : Bool}
    (h : s.slots[k]? = some ⟨i, st, o⟩) (st' : SlotStage) (hl : st.isAlive = st'.isAlive)
    (hr : st.isReaping = st'.isReaping) (g : Map String UInt32) (j : String) :
    ({ s with gauge := g, slots := s.slots.set k ⟨i, st', o⟩ } : Tenants).account j =
      s.account j := by
  have h1 := tally_set (p := SlotStage.isAlive) (i := j) (y := ⟨i, st', o⟩) h
  have h2 := tally_set (p := SlotStage.isReaping) (i := j) (y := ⟨i, st', o⟩) h
  simp only [hl] at h1
  simp only [hr] at h2
  unfold Tenants.account
  rw [Nat.add_right_cancel h1, Nat.add_right_cancel h2]

/-- Slot `k` gives up its guard with a map update of its identity. -/
def Tenants.giveUp (s : Tenants) (k : Nat) (i : String) (counts : SubscriberCounts) (st : SlotStage) :
    Tenants :=
  { s with counts, slots := (overtake i s.slots).set k ⟨i, st, false⟩ }

theorem Tenants.account_giveUp {s : Tenants} {k : Nat} {i : String} {st : SlotStage} {o : Bool}
    (h : s.slots[k]? = some ⟨i, st, o⟩) (hl : st.isAlive) {st' : SlotStage} (hst' : st'.isAlive = false)
    (c : SubscriberCounts) :
    ∃ n r, s.account i = ⟨s.counts.lookup i, n + 1, r⟩ ∧
      (s.giveUp k i c st').account i = ⟨c.lookup i, n, r + if st'.isReaping then 1 else 0⟩ := by
  have hr : st.isReaping = false := by
    cases st <;> first | rfl | exact absurd hl (by decide)
  have h1 := tally_release (p := SlotStage.isAlive) (j := i) h st'
  have h2 := tally_release (p := SlotStage.isReaping) (j := i) h st'
  simp only [hl, hst', and_self, if_true, Bool.false_eq_true, and_false, if_false,
    Nat.add_zero] at h1
  simp only [hr, true_and, Bool.false_eq_true, if_false, Nat.add_zero] at h2
  refine ⟨((s.giveUp k i c st').account i).alive, (s.account i).reaping, ?_, ?_⟩
  · rw [Tenants.account, ← h1]
    rfl
  · rw [Tenants.account, Tenants.giveUp, h2]
    rfl

theorem Tenants.account_giveUp_of_ne {s : Tenants} {k : Nat} {i j : String} {st st' : SlotStage} {o : Bool}
    (h : s.slots[k]? = some ⟨i, st, o⟩) (hj : j ≠ i) {c : SubscriberCounts}
    (hc : c.lookup j = s.counts.lookup j) : (s.giveUp k i c st').account j = s.account j := by
  have h1 := tally_release (p := SlotStage.isAlive) (j := j) h st'
  have h2 := tally_release (p := SlotStage.isReaping) (j := j) h st'
  simp only [Ne.symm hj, false_and, if_false, Nat.add_zero] at h1 h2
  rw [Tenants.account, Tenants.account, Tenants.giveUp, hc, h1, h2]

/-- The decrement of a release takes one live guard off the account of its
identity and leaves the others alone. -/
theorem Tenants.account_beginRelease {s : Tenants} {k : Nat} {i : String} {st : SlotStage} {o : Bool}
    (h : s.slots[k]? = some ⟨i, st, o⟩) (hl : st.isAlive) :
    (s.account i).Step ((s.beginRelease k i).account i) ∧
    (s.beginRelease k i).alive i + 1 = s.alive i ∧
    ∀ j, j ≠ i → (s.beginRelease k i).account j = s.account j := by
  have hother : ∀ j, j ≠ i → (s.beginRelease k i).account j = s.account j := by
    intro j hj
    exact Tenants.account_giveUp_of_ne h hj (SubscriberCounts.lookup_decrement_of_ne hj)
  have hgive : ∀ c st', st'.isAlive = false → s.beginRelease k i = s.giveUp k i c st' →
      (∀ n r, (⟨s.counts.lookup i, n + 1, r⟩ : Account).Step
        ⟨c.lookup i, n, r + if st'.isReaping then 1 else 0⟩) →
      (s.account i).Step ((s.beginRelease k i).account i) ∧
      (s.beginRelease k i).alive i + 1 = s.alive i := by
    intro c st' hst' he hstep
    obtain ⟨n, r, hs, ht⟩ := Tenants.account_giveUp h hl hst' c
    rw [he, Tenants.alive, Tenants.alive, hs, ht]
    exact ⟨hstep n r, rfl⟩
  rw [← and_assoc]
  refine ⟨?_, hother⟩
  rcases s.counts.decrement_cases i with ⟨hn, hd⟩ | ⟨e, he, hle, hd⟩ | ⟨e, he, hlt, hd⟩
  · refine hgive s.counts .rereading rfl (by simp [Tenants.beginRelease, Tenants.giveUp, hd]) ?_
    intro n r
    rw [hn]
    exact .lost n r
  · refine hgive (s.counts.insert i 0) .reaping rfl (by simp [Tenants.beginRelease, Tenants.giveUp, hd]) ?_
    intro n r
    rw [he, AList.lookup_insert]
    exact .toZero e n r hle
  · refine hgive (s.counts.insert i (UInt32.ofNat (e.toNat - 1))) .rereading rfl
      (by simp [Tenants.beginRelease, Tenants.giveUp, hd]) ?_
    intro n r
    rw [he, AList.lookup_insert]
    exact .decrement e n r hlt

/-- An admission of `i` that is granted. -/
theorem Tenants.account_admitted {s : Tenants} {i : String} {counts : SubscriberCounts} {n : UInt32}
    (hi : counts.lookup i = some (s.counts.current i + 1))
    (hne : ∀ j, j ≠ i → counts.lookup j = s.counts.lookup j) (j : String) :
    let t : Tenants := { s with counts, slots := overtake i s.slots ++ [⟨i, .admitted n, false⟩] }
    (j = i ∧ t.account j = { s.account j with
        entry := some ((s.account j).count + 1), alive := (s.account j).alive + 1 }) ∨
      (j ≠ i ∧ t.account j = s.account j) := by
  intro t
  have h1 : tally SlotStage.isAlive j t.slots = tally SlotStage.isAlive j s.slots + if i = j then 1 else 0 := by
    show tally _ j (overtake i s.slots ++ [_]) = _
    rw [tally_snoc, tally_overtake]
    by_cases hij : i = j
    · rw [if_pos ⟨hij, rfl⟩, if_pos hij]
    · rw [if_neg fun h => hij h.1, if_neg hij]
  have h2 : tally SlotStage.isReaping j t.slots = tally SlotStage.isReaping j s.slots := by
    show tally _ j (overtake i s.slots ++ [_]) = _
    rw [tally_snoc, tally_overtake, if_neg fun h => Bool.false_ne_true h.2, Nat.add_zero]
  by_cases hj : j = i
  · left
    subst hj
    refine ⟨rfl, ?_⟩
    rw [if_pos rfl] at h1
    rw [Tenants.account, h1, h2, hi]
    rfl
  · right
    refine ⟨hj, ?_⟩
    rw [if_neg (Ne.symm hj), Nat.add_zero] at h1
    rw [Tenants.account, h1, h2, hne j hj]
    rfl

/-- The removal of a release. -/
theorem Tenants.account_reap {s : Tenants} {k : Nat} {i : String} {o : Bool}
    (h : s.slots[k]? = some ⟨i, .reaping, o⟩) (j : String) :
    let t : Tenants :=
      { s with counts := s.counts.removeIfZero i, slots := s.slots.set k ⟨i, .clearing, o⟩ }
    (s.account j).Step (t.account j) ∧ t.alive j = s.alive j := by
  intro t
  have h1 := tally_set (p := SlotStage.isAlive) (i := j) (y := ⟨i, .clearing, o⟩) h
  have h2 := tally_set (p := SlotStage.isReaping) (i := j) (y := ⟨i, .clearing, o⟩) h
  rw [if_neg fun h => Bool.false_ne_true h.2, if_neg fun h => Bool.false_ne_true h.2, Nat.add_zero,
    Nat.add_zero] at h1
  rw [if_neg fun h : i = j ∧ SlotStage.clearing.isReaping = true => Bool.false_ne_true h.2,
    Nat.add_zero (tally _ j s.slots)] at h2
  refine ⟨?_, h1⟩
  by_cases hj : j = i
  · subst hj
    rw [if_pos ⟨rfl, rfl⟩] at h2
    have hs : s.account j = ⟨s.counts.lookup j, (s.account j).alive, (t.account j).reaping + 1⟩ := by
      rw [Tenants.account, ← h2]
      rfl
    by_cases hz : s.counts.lookup j = some 0
    · rw [hs, hz]
      refine (Account.Step.reap _ _).of_eq ?_
      have he : t.counts.lookup j = none := by
        show (s.counts.removeIfZero j).lookup j = none
        rw [SubscriberCounts.removeIfZero, if_pos hz, AList.lookup_erase]
      rw [Tenants.account, Tenants.account, h1, he]
    · rw [hs]
      refine (Account.Step.spared _ _ _ hz).of_eq ?_
      have he : t.counts.lookup j = s.counts.lookup j := by
        show (s.counts.removeIfZero j).lookup j = s.counts.lookup j
        rw [SubscriberCounts.removeIfZero, if_neg hz]
      rw [Tenants.account, Tenants.account, h1, he]
  · rw [if_neg fun h => hj h.1.symm, Nat.add_zero] at h2
    have hs : t.account j = s.account j := by
      rw [Tenants.account, Tenants.account, h1, h2, SubscriberCounts.lookup_removeIfZero_of_ne hj]
    rw [hs]
    exact .idle _

/-- **Every step is a step of every account**, and only an admission of the
identity below the limit it enforces adds a live guard. -/
theorem Tenants.account_step {s t : Tenants} {a : TenantLabel} (h : s.step a = some t) (i : String) :
    (s.account i).Step (t.account i) ∧
    (t.alive i ≤ s.alive i ∨ ∃ mode limit, a = .admission i mode limit ∧
      t.counts.current i = s.counts.current i + 1 ∧
      (mode = .enforce → limit ≠ 0 → s.counts.current i < limit)) := by
  have same : ∀ {u : Tenants}, u.account i = s.account i →
      (s.account i).Step (u.account i) ∧ u.alive i ≤ s.alive i := by
    intro u hu
    rw [Tenants.alive, Tenants.alive, hu]
    exact ⟨.idle _, Nat.le_refl _⟩
  have release : ∀ {k j st o}, s.slots[k]? = some ⟨j, st, o⟩ → st.isAlive →
      (s.account i).Step ((s.beginRelease k j).account i) ∧
      (s.beginRelease k j).alive i ≤ s.alive i := by
    intro k j st o hk hl
    obtain ⟨hstep, halive, hother⟩ := Tenants.account_beginRelease hk hl
    by_cases hi : i = j
    · subst hi
      exact ⟨hstep, by omega⟩
    · exact same (hother i hi)
  cases Tenants.move_of_step h with
  | denied j mode limit hd => exact (same rfl).imp_right Or.inl
  | admitted j mode limit counts hj hne hl =>
    rcases Tenants.account_admitted (n := s.counts.current j + 1) hj hne i with ⟨rfl, ha⟩ | ⟨hi, ha⟩
    · rw [ha]
      refine ⟨.grant _, Or.inr ⟨mode, limit, rfl, ?_, hl⟩⟩
      exact SubscriberCounts.current_of_lookup hj
    · exact (same ha).imp_right Or.inl
  | respond k j o hk => exact (same (Tenants.account_set hk .streaming rfl rfl _ i)).imp_right Or.inl
  | fail k j o hk => exact (release hk rfl).imp_right Or.inl
  | drop k j o hk => exact (release hk rfl).imp_right Or.inl
  | publish k j n o hk => exact (same (Tenants.account_set hk .handling rfl rfl _ i)).imp_right Or.inl
  | reap k j o hk =>
    obtain ⟨hstep, halive⟩ := Tenants.account_reap hk i
    exact ⟨hstep, Or.inl (Nat.le_of_eq halive)⟩
  | clear k j o hk => exact (same (Tenants.account_set hk .released rfl rfl _ i)).imp_right Or.inl
  | reread k j o hk => exact (same (Tenants.account_set hk (.republishing (s.counts.current j)) rfl rfl _ i)).imp_right Or.inl
  | republish k j n o hk => exact (same (Tenants.account_set hk .released rfl rfl _ i)).imp_right Or.inl

/-! ### Accounting -/

/-- An admission of `i` finds fewer than `2^32 - 1` live guards. -/
def Tenants.Room (i : String) (s : Tenants) : TenantLabel → Prop
  | .admission j _ _ => j = i → s.alive i + 1 < 2 ^ 32
  | _ => True

instance decidableRoom (i : String) (s : Tenants) : ∀ a, Decidable (Tenants.Room i s a)
  | .admission j _ _ => inferInstanceAs (Decidable (j = i → s.alive i + 1 < 2 ^ 32))
  | .respond _ | .fail _ | .drop _ | .advance _ => isTrue trivial

theorem Tenants.balanced_new (i : String) : (Tenants.new.account i).Balanced :=
  ⟨rfl, fun h => by simp [Tenants.account, Tenants.new] at h⟩

theorem Tenants.balanced_step {s t : Tenants} {a : TenantLabel} {i : String}
    (hs : (s.account i).Balanced) (h : s.step a = some t) (hroom : Tenants.Room i s a) :
    (t.account i).Balanced := by
  obtain ⟨hstep, hle | ⟨mode, limit, rfl, _, _⟩⟩ := Tenants.account_step h i
  · exact hs.step hstep (Or.inr hle)
  · exact hs.step hstep (Or.inl (hroom rfl))

/-- **While there is room for the increments, the books balance.** -/
theorem Tenants.balanced_run {as : List TenantLabel} {s : Tenants} {i : String}
    (h : run Tenants.step .new as = some s) (hroom : Along Tenants.step (fun _ => Tenants.Room i) .new as) :
    (s.account i).Balanced :=
  run_induction_along (fun _ => Tenants.Room i) (fun _ s => (s.account i).Balanced)
    (Tenants.balanced_new i) (fun _ _ _ _ _ hs hr hstep => Tenants.balanced_step hs hstep hr) as s h hroom

/-- Every admission of `i` runs in `Enforce` with the limit `L`. -/
def EnforcedAt (i : String) (L : UInt32) (as : List TenantLabel) : Prop :=
  ∀ mode limit, .admission i mode limit ∈ as → mode = .enforce ∧ limit = L

/-- **Under one enforced limit the books balance and the limit is kept.** -/
theorem Tenants.balanced_enforced {i : String} {L : UInt32} (hL : L ≠ 0) :
    ∀ (as : List TenantLabel) (s : Tenants), run Tenants.step .new as = some s →
      EnforcedAt i L as → (s.account i).Balanced ∧ s.counts.current i ≤ L := by
  refine run_induction (fun as (s : Tenants) =>
    EnforcedAt i L as → (s.account i).Balanced ∧ s.counts.current i ≤ L) ?_ ?_
  · intro _
    exact ⟨Tenants.balanced_new i, UInt32.zero_le⟩
  · intro as s a t _ ih hstep hall
    obtain ⟨hb, hle⟩ := ih fun mode limit hm => hall mode limit (List.mem_append_left _ hm)
    obtain ⟨hacc, hmono | ⟨mode, limit, rfl, hcur, hlim⟩⟩ := Tenants.account_step hstep i
    · have hb' := hb.step hacc (Or.inr hmono)
      refine ⟨hb', ?_⟩
      -- the count follows the live guards down
      rw [UInt32.le_iff_toNat_le] at hle ⊢
      have h1 : (s.counts.current i).toNat = s.alive i := hb.count
      have h2 : (t.counts.current i).toNat = t.alive i := hb'.count
      omega
    · obtain ⟨hm, rfl⟩ := hall mode limit (by simp)
      have hlt := UInt32.lt_iff_toNat_lt.mp (hlim hm hL)
      have h1 : (s.counts.current i).toNat = s.alive i := hb.count
      have hL' := limit.toNat_lt
      refine ⟨hb.step hacc (Or.inl ?_), ?_⟩
      · change s.alive i + 1 < 2 ^ 32
        omega
      · rw [hcur, UInt32.le_iff_toNat_le, UInt32.toNat_add, UInt32.toNat_one]
        omega

/-- No guard of `i` is alive and no release of one is in progress. -/
def Tenants.Idle (s : Tenants) (i : String) : Prop :=
  ∀ x ∈ s.slots, x.identity = i → x.stage = .released

theorem Tenants.Idle.tally_eq_zero {s : Tenants} {i : String} (h : s.Idle i) {p : SlotStage → Bool}
    (hp : p .released = false) : tally p i s.slots = 0 := by
  by_contra hne
  obtain ⟨x, hx, hi, hst⟩ := tally_pos.mp (Nat.pos_of_ne_zero hne)
  rw [h x hx hi, hp] at hst
  cases hst

/-- What the accounting promises of an identity: the count is that of the live
guards, an idle identity has no entry, and a handler that fails gives its slot
back. -/
structure Tenants.Accounted (s : Tenants) (i : String) : Prop where
  count : (s.counts.current i).toNat = s.alive i
  idle : s.Idle i → s.counts.lookup i = none
  failed : ∀ k o, s.slots[k]? = some ⟨i, .handling, o⟩ → ∃ t, s.step (.fail k) = some t ∧
    t.alive i + 1 = s.alive i ∧ (t.counts.current i).toNat + 1 = (s.counts.current i).toNat

theorem Account.Balanced.accounted {s : Tenants} {i : String} (h : (s.account i).Balanced) :
    s.Accounted i := by
  refine ⟨h.count, fun hidle => ?_, fun k o hk => ?_⟩
  · exact h.entry_none (hidle.tally_eq_zero rfl) (hidle.tally_eq_zero rfl)
  · obtain ⟨hstep, halive, _⟩ := Tenants.account_beginRelease hk rfl
    refine ⟨s.beginRelease k i, by simp only [Tenants.step, hk], halive, ?_⟩
    have h' := h.step hstep (Or.inr (by change (s.beginRelease k i).alive i ≤ s.alive i; omega))
    have h1 : (s.counts.current i).toNat = s.alive i := h.count
    have h2 : ((s.beginRelease k i).counts.current i).toNat = (s.beginRelease k i).alive i := h'.count
    omega

/-- **Subscriber accounting.**  In every run the accounting holds while there is
room for the increments.  It holds in any case under one enforced limit `L`, which
the count never exceeds, and a denied admission changes nothing. -/
theorem subscriber_accounting {as : List TenantLabel} {s : Tenants}
    (h : run Tenants.step .new as = some s) (i : String) :
    (Along Tenants.step (fun _ => Tenants.Room i) .new as → s.Accounted i) ∧
    (∀ L, L ≠ 0 → EnforcedAt i L as → s.counts.current i ≤ L ∧ s.Accounted i) ∧
    ∀ mode limit c, (s.counts.admitOne i mode limit).1 = .denied c limit →
      s.step (.admission i mode limit) = some s := by
  refine ⟨fun hroom => (Tenants.balanced_run h hroom).accounted, fun L hL hall => ?_, ?_⟩
  · obtain ⟨hb, hle⟩ := Tenants.balanced_enforced hL as s h hall
    exact ⟨hle, hb.accounted⟩
  · intro mode limit c hc
    rcases s.counts.admitOne_cases i mode limit with ⟨ov, c', ha, _, _, _⟩ | hd
    · rw [ha] at hc
      cases hc
    · simp only [Tenants.step, hd]

/-- Two streams of one tenant, the second past its handler's failure. -/
def churn : List TenantLabel :=
  [.admission "t" .enforce 2, .admission "t" .enforce 2, .advance 0, .advance 1, .respond 0, .fail 1,
    .admission "t" .enforce 2, .advance 1, .drop 0, .advance 1]

theorem subscriber_accounting_churn :
    ∃ s, run Tenants.step .new churn = some s ∧ s.alive "t" = 1 ∧ s.Accounted "t" ∧
      s.counts.current "t" ≤ 2 := by
  obtain ⟨s, hs, hread⟩ := (Option.any_eq_true _ _).mp
    (show (run Tenants.step .new churn).any (fun s => decide (s.alive "t" = 1)) = true by
      decide +kernel)
  obtain ⟨hroom, henf, _⟩ := subscriber_accounting hs "t"
  have hL : EnforcedAt "t" 2 churn := by
    intro mode limit hm
    simpa [churn] using hm
  refine ⟨s, hs, of_decide_eq_true hread, hroom (by decide +kernel), (henf 2 (by decide) hL).1⟩

/-! ### The counter wraps -/

/-- `n` streams of one tenant, admitted one after the other without a limit. -/
def crowd (n : Nat) : List TenantLabel :=
  (List.range n).flatMap fun k => [.admission "t" .permissive 0, .advance k]

theorem crowd_succ (n : Nat) : crowd (n + 1) = crowd n ++ [.admission "t" .permissive 0, .advance n] := by
  rw [crowd, List.range_succ, List.flatMap_append]
  rfl

/-- All `n` guards are alive; the entry counts them modulo `2^32`. -/
theorem run_crowd (n : Nat) : ∃ s, run Tenants.step .new (crowd n) = some s ∧
    s.slots.length = n ∧ s.alive "t" = n ∧ (s.counts.current "t").toNat = n % 2 ^ 32 := by
  induction n with
  | zero => exact ⟨.new, rfl, rfl, rfl, rfl⟩
  | succ n ih =>
    obtain ⟨s, hs, hlen, halive, hcur⟩ := ih
    rcases s.counts.admitOne_cases "t" .permissive 0 with ⟨ov, c', ha, hc, hne, _⟩ | hd
    · let m : Tenants := { s with
        counts := c'
        slots := overtake "t" s.slots ++ [⟨"t", .admitted (s.counts.current "t" + 1), false⟩] }
      have hm : s.step (.admission "t" .permissive 0) = some m := by
        simp only [Tenants.step, ha]
        rfl
      have hslot : m.slots[n]? = some ⟨"t", .admitted (s.counts.current "t" + 1), false⟩ := by
        have hlen' : (overtake "t" s.slots).length = n := by rw [overtake, List.length_map, hlen]
        rw [← hlen']
        exact List.getElem?_concat_length
      let t : Tenants := { m with
        gauge := m.gauge.insert "t" (s.counts.current "t" + 1)
        slots := m.slots.set n ⟨"t", .handling, false⟩ }
      have hadv : m.step (.advance n) = some t := by
        simp only [Tenants.step, hslot]
        rfl
      refine ⟨t, ?_, ?_, ?_, ?_⟩
      · rw [crowd_succ, run_append, hs, Option.bind_some, run_cons, hm, Option.bind_some, run_singleton,
          hadv]
      · simp [t, m, overtake, hlen]
      · rw [Tenants.alive, show t.account "t" = _ from Tenants.account_set hslot .handling rfl rfl _ _]
        rcases Tenants.account_admitted (n := s.counts.current "t" + 1) hc hne "t" with ⟨_, h⟩ | ⟨h, _⟩
        · rw [show m.account "t" = _ from h]
          exact congrArg (· + 1) halive
        · exact absurd rfl h
      · show (c'.current "t").toNat = _
        rw [SubscriberCounts.current_of_lookup hc, UInt32.toNat_add, hcur, UInt32.toNat_one]
        omega
    · exact absurd (congrArg Prod.fst hd) (by simp [SubscriberCounts.admitOne])

/-- With `2^32` guards of one tenant alive the entry reads zero. -/
theorem subscriber_count_wraps :
    ¬ ∀ (as : List TenantLabel) (s : Tenants) (i : String), run Tenants.step .new as = some s →
      (s.counts.current i).toNat = s.alive i := by
  intro h
  obtain ⟨s, hs, _, halive, hcur⟩ := run_crowd (2 ^ 32)
  have := h _ s "t" hs
  rw [halive, hcur, Nat.mod_self] at this
  omega

end Konfig
