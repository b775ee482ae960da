import Konfig.Lib.WatchMirror

/-!
# Hash tables with borrowed lookups

A hash table finds an entry by a hash and an equality test.  What is looked up need not
be of the type of the stored keys: any type that they borrow as will do, when its hash
and its equality agree with those of the keys.

* `HashTable`: no key is stored twice.
* `HashTable.toMap`: the finite map that a table holds.
* `get_borrow`, `lookup_insert`, `lookup_remove`, `lookup_mapVals`: the operations are
  those of the map.
-/

namespace Lib

/-- The hash and the equality of a type of keys. -/
structure Hashed (K : Type) where
  hash : K → UInt64
  eq : K → K → Bool
  eq_iff : ∀ a b, eq a b = true ↔ a = b

/-- A type that the keys borrow as, with a hash and an equality of its own. -/
structure Borrowed {K : Type} (H : Hashed K) (Q : Type) where
  borrow : K → Q
  hash : Q → UInt64
  eq : Q → Q → Bool
  hash_borrow : ∀ k, hash (borrow k) = H.hash k
  eq_borrow : ∀ a b, eq (borrow a) (borrow b) = H.eq a b

structure HashTable {K : Type} (H : Hashed K) (V : Type) where
  slots : List (K × V)
  nodup : (slots.map Prod.fst).Nodup

namespace HashTable

variable {K Q V : Type} {H : Hashed K}

/-- Whether a stored key is hit by the probe for a key. -/
def hits (H : Hashed K) (k stored : K) : Bool := H.hash stored == H.hash k && H.eq stored k

theorem hits_iff {k stored : K} : hits H k stored = true ↔ stored = k := by
  rw [hits, Bool.and_eq_true, beq_iff_eq, H.eq_iff]
  refine ⟨fun h => h.2, ?_⟩
  rintro rfl
  exact ⟨rfl, rfl⟩

/-- Whether a stored key is hit by the probe for what a key borrows as. -/
def hitsBorrowed (B : Borrowed H Q) (q : Q) (stored : K) : Bool :=
  H.hash stored == B.hash q && B.eq (B.borrow stored) q

/-- **Owned and borrowed probes hit the same keys.** -/
theorem hitsBorrowed_borrow (B : Borrowed H Q) (k stored : K) :
    hitsBorrowed B (B.borrow k) stored = hits H k stored := by
  rw [hitsBorrowed, hits, B.hash_borrow, B.eq_borrow]

theorem hitsBorrowed_iff {B : Borrowed H Q} {k stored : K} :
    hitsBorrowed B (B.borrow k) stored = true ↔ stored = k := by
  rw [hitsBorrowed_borrow, hits_iff]

/-! ### The operations -/

def empty : HashTable H V := { slots := [], nodup := List.nodup_nil }

/-- `contains_key` with a stored key. -/
def contains (t : HashTable H V) (k : K) : Bool := t.slots.any fun s => hits H k s.1

/-- `get`. -/
def get (t : HashTable H V) (B : Borrowed H Q) (q : Q) : Option V :=
  (t.slots.find? fun s => hitsBorrowed B q s.1).map Prod.snd

/-- `insert`: the value of a key that is there is replaced. -/
def insert (t : HashTable H V) (k : K) (v : V) : HashTable H V :=
  if hc : t.contains k then
    { slots := t.slots.map fun s => if hits H k s.1 then (s.1, v) else s
      nodup := by
        have hkeys : (t.slots.map fun s => if hits H k s.1 then (s.1, v) else s).map Prod.fst =
            t.slots.map Prod.fst := by
          rw [List.map_map]
          refine List.map_congr_left fun s _ => ?_
          rw [Function.comp_apply]
          split <;> rfl
        rw [hkeys]
        exact t.nodup }
  else
    { slots := (k, v) :: t.slots
      nodup := by
        rw [List.map_cons, List.nodup_cons]
        refine ⟨fun hmem => hc ?_, t.nodup⟩
        obtain ⟨s, hs, hk⟩ := List.mem_map.mp hmem
        exact List.any_eq_true.mpr ⟨s, hs, hits_iff.mpr hk⟩ }

/-- `remove`. -/
def remove (t : HashTable H V) (B : Borrowed H Q) (q : Q) : HashTable H V where
  slots := t.slots.filter fun s => !hitsBorrowed B q s.1
  nodup := t.nodup.sublist (List.filter_sublist.map Prod.fst)

/-- `values_mut`. -/
def mapVals (t : HashTable H V) (f : V → V) : HashTable H V where
  slots := t.slots.map fun s => (s.1, f s.2)
  nodup := by
    have hkeys : (t.slots.map fun s => (s.1, f s.2)).map Prod.fst = t.slots.map Prod.fst := by
      rw [List.map_map]
      rfl
    rw [hkeys]
    exact t.nodup

/-! ### The map -/

theorem keys_slots (t : HashTable H V) :
    (t.slots.map fun s => (⟨s.1, s.2⟩ : (_ : K) × V)).keys = t.slots.map Prod.fst := by
  change (t.slots.map fun s => (⟨s.1, s.2⟩ : (_ : K) × V)).map Sigma.fst = _
  rw [List.map_map]
  rfl

/-- The finite map that a table holds. -/
def toMap (t : HashTable H V) : Map K V where
  entries := t.slots.map fun s => ⟨s.1, s.2⟩
  nodupKeys := by
    rw [List.NodupKeys, keys_slots]
    exact t.nodup

theorem contains_iff {t : HashTable H V} {k : K} : t.contains k = true ↔ k ∈ t.slots.map Prod.fst := by
  rw [contains, List.any_eq_true, List.mem_map]
  constructor
  · rintro ⟨s, hs, hk⟩
    exact ⟨s, hs, hits_iff.mp hk⟩
  · rintro ⟨s, hs, hk⟩
    exact ⟨s, hs, hits_iff.mpr hk⟩

theorem mem_keys_toMap {t : HashTable H V} {k : K} : k ∈ t.toMap ↔ t.contains k = true := by
  rw [contains_iff, AList.mem_keys, AList.keys, toMap, keys_slots]

variable [DecidableEq K]

theorem lookup_toMap {t : HashTable H V} {k : K} {v : V} :
    t.toMap.lookup k = some v ↔ (k, v) ∈ t.slots := by
  rw [← Option.mem_def, AList.mem_lookup_iff]
  constructor
  · intro h
    obtain ⟨s, hs, he⟩ := List.mem_map.mp h
    cases he
    exact hs
  · intro h
    exact List.mem_map.mpr ⟨(k, v), h, rfl⟩

/-- **A borrowed lookup finds what is stored under the key.** -/
theorem get_borrow (t : HashTable H V) (B : Borrowed H Q) (k : K) :
    t.get B (B.borrow k) = t.toMap.lookup k := by
  refine Option.ext fun v => ?_
  rw [lookup_toMap, get, Option.map_eq_some_iff]
  constructor
  · rintro ⟨s, hs, rfl⟩
    have hhit := List.find?_some hs
    rw [← hitsBorrowed_iff.mp hhit]
    exact List.mem_of_find?_eq_some hs
  · intro h
    have hfound : (t.slots.find? fun s => hitsBorrowed B (B.borrow k) s.1).isSome := by
      rw [List.find?_isSome]
      exact ⟨_, h, hitsBorrowed_iff.mpr rfl⟩
    obtain ⟨s, hs⟩ := Option.isSome_iff_exists.mp hfound
    have hhit := List.find?_some hs
    have hsame : s = (k, v) := List.inj_on_of_nodup_map t.nodup (List.mem_of_find?_eq_some hs) h
      (hitsBorrowed_iff.mp hhit)
    exact ⟨s, hs, by rw [hsame]⟩

/-- It succeeds for the keys that are stored. -/
theorem isSome_get_borrow (t : HashTable H V) (B : Borrowed H Q) (k : K) :
    (t.get B (B.borrow k)).isSome = t.contains k := by
  rw [get_borrow, Bool.eq_iff_iff, AList.lookup_isSome, mem_keys_toMap]

omit [DecidableEq K] in
theorem mem_insert {t : HashTable H V} {k k' : K} {v v' : V} :
    (k', v') ∈ (t.insert k v).slots ↔ (k' = k ∧ v' = v) ∨ (k' ≠ k ∧ (k', v') ∈ t.slots) := by
  unfold insert
  split
  · rename_i hc
    obtain ⟨⟨k₀, v₀⟩, hs, hk₀⟩ := List.mem_map.mp (contains_iff.mp hc)
    constructor
    · intro h
      obtain ⟨s, hmem, he⟩ := List.mem_map.mp h
      split at he
      · rename_i hhit
        cases he
        exact .inl ⟨hits_iff.mp hhit, rfl⟩
      · rename_i hmiss
        rw [he] at hmiss hmem
        exact .inr ⟨fun hk => hmiss (hits_iff.mpr hk), hmem⟩
    · rintro (⟨rfl, rfl⟩ | ⟨hne, hmem⟩)
      · refine List.mem_map.mpr ⟨(k₀, v₀), hs, ?_⟩
        rw [if_pos (hits_iff.mpr hk₀)]
        exact congrArg (·, v') hk₀
      · refine List.mem_map.mpr ⟨(k', v'), hmem, ?_⟩
        rw [if_neg fun hhit => hne (hits_iff.mp hhit)]
  · rename_i hc
    rw [List.mem_cons, Prod.mk.injEq]
    refine or_congr_right ⟨fun hmem => ⟨?_, hmem⟩, fun h => h.2⟩
    rintro rfl
    exact hc (contains_iff.mpr (List.mem_map.mpr ⟨_, hmem, rfl⟩))

theorem lookup_insert (t : HashTable H V) (k k' : K) (v : V) :
    (t.insert k v).toMap.lookup k' = (t.toMap.insert k v).lookup k' := by
  refine Option.ext fun w => ?_
  rw [lookup_toMap, mem_insert]
  by_cases hk : k' = k
  · rw [hk, AList.lookup_insert, Option.some.injEq]
    simp only [true_and, ne_eq, not_true_eq_false, false_and, or_false]
    exact eq_comm
  · rw [AList.lookup_insert_ne hk, lookup_toMap]
    simp only [hk, false_and, ne_eq, not_false_eq_true, true_and, false_or]

omit [DecidableEq K] in
theorem mem_remove {t : HashTable H V} {B : Borrowed H Q} {k k' : K} {v : V} :
    (k', v) ∈ (t.remove B (B.borrow k)).slots ↔ k' ≠ k ∧ (k', v) ∈ t.slots := by
  rw [remove, List.mem_filter, Bool.not_eq_true', ← Bool.not_eq_true, hitsBorrowed_iff]
  exact and_comm

theorem lookup_remove (t : HashTable H V) (B : Borrowed H Q) (k k' : K) :
    (t.remove B (B.borrow k)).toMap.lookup k' = (t.toMap.erase k).lookup k' := by
  refine Option.ext fun w => ?_
  rw [lookup_toMap, mem_remove]
  by_cases hk : k' = k
  · rw [hk, AList.lookup_erase]
    simp
  · rw [AList.lookup_erase_ne hk, lookup_toMap]
    simp only [hk, ne_eq, not_false_eq_true, true_and]

theorem lookup_mapVals (t : HashTable H V) (f : V → V) (k : K) :
    (t.mapVals f).toMap.lookup k = (t.toMap.mapVals f).lookup k := by
  refine Option.ext fun w => ?_
  rw [lookup_toMap, Map.lookup_mapVals, Option.map_eq_some_iff]
  constructor
  · intro h
    obtain ⟨s, hs, he⟩ := List.mem_map.mp h
    cases he
    exact ⟨s.2, lookup_toMap.mpr hs, rfl⟩
  · rintro ⟨v, hv, rfl⟩
    exact List.mem_map.mpr ⟨(k, v), lookup_toMap.mp hv, rfl⟩

end HashTable

end Lib
