import Konfig.Cache
import Konfig.Lib.HashTable
import Konfig.Secrets.Watch

/-!
# The copy-on-write cache

`cow_cache.rs` over `cache_key.rs`: a hash table that is read through one pointer.  A
writer takes the lock, clones the table, changes the clone and stores it; a reader loads
the pointer once and answers from the table it got, however many writes come meanwhile.

* `KeyRef`, `BorrowedKey` and the owned key agree on hash and equality (`keyRefs`).
* `CowCache.lookup_write`: a write does to the table what it means for a finite map.
* `CowRun`: writers and readers at once.
* `cowCache_refines`: each load finds the map of some first writes, and a reader never
  goes back.
-/

namespace Konfig

open Lib

/-! ### Keys -/

/-- `BuildHasher`, with the `Hasher` that it starts. -/
structure BuildHasher where
  State : Type
  init : State
  write : State → List UInt8 → State
  finish : State → UInt64

/-- `Hash for str`: the bytes, and a byte that no text has. -/
def BuildHasher.writeStr (R : BuildHasher) (h : R.State) (s : String) : R.State :=
  R.write (R.write h s.toUTF8.toList) [0xff]

/-- `OwnedKey`, which the map stores. -/
abbrev OwnedKey := Key

/-- `BorrowedKey`, which a lookup builds. -/
structure BorrowedKey where
  ns : String
  name : String

/-- A `dyn KeyRef`: the answers of its two methods. -/
structure KeyRef where
  ns : String
  name : String

/-- `KeyRef for OwnedKey`, by which it borrows. -/
def OwnedKey.asKeyRef (k : OwnedKey) : KeyRef := ⟨k.ns, k.name⟩

/-- `KeyRef for BorrowedKey`. -/
def BorrowedKey.asKeyRef (k : BorrowedKey) : KeyRef := ⟨k.ns, k.name⟩

/-- `Hash for OwnedKey`. -/
def OwnedKey.hash (R : BuildHasher) (k : OwnedKey) : UInt64 :=
  R.finish (R.writeStr (R.writeStr R.init k.ns) k.name)

/-- `PartialEq for OwnedKey`. -/
def OwnedKey.eq (a b : OwnedKey) : Bool := a.ns == b.ns && a.name == b.name

/-- `Hash for dyn KeyRef`. -/
def KeyRef.hash (R : BuildHasher) (k : KeyRef) : UInt64 :=
  R.finish (R.writeStr (R.writeStr R.init k.ns) k.name)

/-- `PartialEq for dyn KeyRef`. -/
def KeyRef.eq (a b : KeyRef) : Bool := a.ns == b.ns && a.name == b.name

theorem OwnedKey.eq_iff (a b : OwnedKey) : OwnedKey.eq a b = true ↔ a = b := by
  obtain ⟨ns, name⟩ := a
  obtain ⟨ns', name'⟩ := b
  rw [OwnedKey.eq, Bool.and_eq_true, beq_iff_eq, beq_iff_eq, Key.mk.injEq]

def ownedKeys (R : BuildHasher) : Hashed OwnedKey where
  hash := OwnedKey.hash R
  eq := OwnedKey.eq
  eq_iff := OwnedKey.eq_iff

/-- `Borrow<dyn KeyRef> for OwnedKey`: the two hashes write the same, and the two
equalities compare the same. -/
def keyRefs (R : BuildHasher) : Borrowed (ownedKeys R) KeyRef where
  borrow := OwnedKey.asKeyRef
  hash := KeyRef.hash R
  eq := KeyRef.eq
  hash_borrow _ := rfl
  eq_borrow _ _ := rfl

/-! ### Entries -/

/-- `CacheEntry`: what marks an entry stale leaves its key alone. -/
class CacheEntry (S : Type) where
  ns : S → String
  name : S → String
  setStale : S → Instant → S
  ns_setStale : ∀ snap now, ns (setStale snap now) = ns snap
  name_setStale : ∀ snap now, name (setStale snap now) = name snap

instance : CacheEntry ConfigSnapshot where
  ns := ConfigSnapshot.ns
  name := ConfigSnapshot.name
  setStale := ConfigSnapshot.setStale
  ns_setStale _ _ := rfl
  name_setStale _ _ := rfl

instance : CacheEntry SecretSnapshot where
  ns := SecretSnapshot.ns
  name := SecretSnapshot.name
  setStale := SecretSnapshot.setStale
  ns_setStale _ _ := rfl
  name_setStale _ _ := rfl

variable {S : Type} [CacheEntry S]

/-- The key that an entry is stored under. -/
def entryKey (snap : S) : Key := ⟨CacheEntry.ns snap, CacheEntry.name snap⟩

theorem entryKey_setStale (snap : S) (now : Instant) :
    entryKey (CacheEntry.setStale snap now) = entryKey snap := by
  rw [entryKey, CacheEntry.ns_setStale, CacheEntry.name_setStale, entryKey]

/-- `Mutation`. -/
inductive Mutation (S : Type)
  | upsert (snap : S)
  | remove (ns name : String)

/-- `CowCache`, at one moment: the table behind the pointer. -/
structure CowCache (R : BuildHasher) (S : Type) [CacheEntry S] where
  map : HashTable (ownedKeys R) S
  keyed : ∀ e ∈ map.slots, entryKey e.2 = e.1

namespace CowCache

variable {R : BuildHasher}

/-- `with_capacity`. -/
def empty : CowCache R S := { map := .empty, keyed := fun _ h => by cases h }

/-- `get`. -/
def get (c : CowCache R S) (ns name : String) : Option S :=
  c.map.get (keyRefs R) (BorrowedKey.mk ns name).asKeyRef

/-- `all_in_namespace`, when the iterator goes through the entries as given. -/
def allInNamespace (iter : List (OwnedKey × S)) (ns : String) : List S :=
  (iter.filter fun e => e.1.ns == ns).map Prod.snd

/-- `update`. -/
def update (c : CowCache R S) (snap : S) : CowCache R S where
  map := c.map.insert ⟨CacheEntry.ns snap, CacheEntry.name snap⟩ snap
  keyed := by
    rintro ⟨k, v⟩ he
    rcases HashTable.mem_insert.mp he with ⟨rfl, rfl⟩ | ⟨_, he⟩
    · rfl
    · exact c.keyed _ he

/-- `remove`. -/
def remove (c : CowCache R S) (ns name : String) : CowCache R S where
  map := c.map.remove (keyRefs R) (BorrowedKey.mk ns name).asKeyRef
  keyed e he := c.keyed e (List.mem_of_mem_filter he)

/-- `mark_all_stale`. -/
def markAllStale (c : CowCache R S) (now : Instant) : CowCache R S where
  map := c.map.mapVals fun snap => CacheEntry.setStale snap now
  keyed := by
    intro e he
    obtain ⟨s, hs, rfl⟩ := List.mem_map.mp he
    rw [entryKey_setStale]
    exact c.keyed s hs

/-- The loop of `apply_batch`. -/
def applyBatch (c : CowCache R S) (mutations : List (Mutation S)) : CowCache R S :=
  mutations.foldl (fun next m =>
    match m with
    | .upsert snap => next.update snap
    | .remove ns name => next.remove ns name) c

end CowCache

/-! ### Writes -/

/-- A call that writes. -/
inductive CacheWrite (S : Type)
  | update (snap : S)
  | remove (ns name : String)
  | markAllStale (now : Instant)
  | applyBatch (mutations : List (Mutation S))

/-- What the call makes of its clone. -/
def CowCache.write {R : BuildHasher} (c : CowCache R S) : CacheWrite S → CowCache R S
  | .update snap => c.update snap
  | .remove ns name => c.remove ns name
  | .markAllStale now => c.markAllStale now
  | .applyBatch mutations => c.applyBatch mutations

/-- A mutation applied by itself. -/
def Mutation.alone : Mutation S → CacheWrite S
  | .upsert snap => .update snap
  | .remove ns name => .remove ns name

/-- What a mutation means for a finite map. -/
def Mutation.onMap (m : Map Key S) : Mutation S → Map Key S
  | .upsert snap => m.insert (entryKey snap) snap
  | .remove ns name => m.erase ⟨ns, name⟩

/-- What a write means for a finite map. -/
def CacheWrite.onMap (m : Map Key S) : CacheWrite S → Map Key S
  | .update snap => m.insert (entryKey snap) snap
  | .remove ns name => m.erase ⟨ns, name⟩
  | .markAllStale now => m.mapVals fun snap => CacheEntry.setStale snap now
  | .applyBatch mutations => mutations.foldl Mutation.onMap m

/-- **A batch is its mutations one by one.** -/
theorem CowCache.applyBatch_alone {R : BuildHasher} (c : CowCache R S) (mutations : List (Mutation S)) :
    c.applyBatch mutations = (mutations.map Mutation.alone).foldl CowCache.write c := by
  rw [CowCache.applyBatch, List.foldl_map]
  congr 1
  funext next m
  cases m <;> rfl

/-! ### The map of a table -/

section Holds

variable {R : BuildHasher}

/-- The table holds the entries of the map. -/
def CowCache.Holds (c : CowCache R S) (m : Map Key S) : Prop := ∀ k, c.map.toMap.lookup k = m.lookup k

theorem CowCache.holds_self (c : CowCache R S) : c.Holds c.map.toMap := fun _ => rfl

theorem CowCache.Holds.update {c : CowCache R S} {m : Map Key S} (h : c.Holds m) (snap : S) :
    (c.update snap).Holds (m.insert (entryKey snap) snap) := by
  intro k
  change (c.map.insert (entryKey snap) snap).toMap.lookup k = _
  rw [HashTable.lookup_insert]
  by_cases hk : k = entryKey snap
  · rw [hk, AList.lookup_insert, AList.lookup_insert]
  · rw [AList.lookup_insert_ne hk, AList.lookup_insert_ne hk, h k]

theorem CowCache.Holds.remove {c : CowCache R S} {m : Map Key S} (h : c.Holds m) (ns name : String) :
    (c.remove ns name).Holds (m.erase ⟨ns, name⟩) := by
  intro k
  change (c.map.remove (keyRefs R) ((keyRefs R).borrow ⟨ns, name⟩)).toMap.lookup k = _
  rw [HashTable.lookup_remove]
  by_cases hk : k = ⟨ns, name⟩
  · rw [hk, AList.lookup_erase, AList.lookup_erase]
  · rw [AList.lookup_erase_ne hk, AList.lookup_erase_ne hk, h k]

theorem CowCache.Holds.markAllStale {c : CowCache R S} {m : Map Key S} (h : c.Holds m) (now : Instant) :
    (c.markAllStale now).Holds (m.mapVals fun snap => CacheEntry.setStale snap now) := by
  intro k
  change (c.map.mapVals fun snap => CacheEntry.setStale snap now).toMap.lookup k = _
  rw [HashTable.lookup_mapVals, Map.lookup_mapVals, Map.lookup_mapVals, h k]

theorem CowCache.Holds.applyBatch : ∀ (mutations : List (Mutation S)) {c : CowCache R S} {m : Map Key S},
    c.Holds m → (c.applyBatch mutations).Holds (mutations.foldl Mutation.onMap m) := by
  intro mutations
  induction mutations with
  | nil => intro c m h; exact h
  | cons mutation mutations ih =>
    intro c m h
    cases mutation with
    | upsert snap => exact ih (h.update snap)
    | remove ns name => exact ih (h.remove ns name)

/-- **A write does to the table what it means for the map.** -/
theorem CowCache.Holds.write {c : CowCache R S} {m : Map Key S} (h : c.Holds m) (w : CacheWrite S) :
    (c.write w).Holds (w.onMap m) := by
  cases w with
  | update snap => exact h.update snap
  | remove ns name => exact h.remove ns name
  | markAllStale now => exact h.markAllStale now
  | applyBatch mutations => exact CowCache.Holds.applyBatch mutations h

/-- The reads of a table answer as the map does. -/
structure CowCache.Answers (c : CowCache R S) (m : Map Key S) : Prop where
  /-- `get` looks the key up. -/
  get : ∀ ns name, c.get ns name = m.lookup ⟨ns, name⟩
  /-- The borrowed key is found when the owned key is there. -/
  present : ∀ key : OwnedKey, (c.get key.ns key.name).isSome = c.map.contains key
  /-- Everything is stored under its own key. -/
  keyed : ∀ key snap, m.lookup key = some snap → entryKey snap = key
  /-- `all_in_namespace` returns the entries of the namespace, whatever the iteration order. -/
  listed : ∀ iter ns, iter.Perm c.map.slots → ∀ snap, snap ∈ CowCache.allInNamespace iter ns ↔
    CacheEntry.ns snap = ns ∧ m.lookup (entryKey snap) = some snap
  /-- It returns none of them twice. -/
  once : ∀ iter ns, iter.Perm c.map.slots → ((CowCache.allInNamespace iter ns).map entryKey).Nodup

theorem CowCache.Holds.answers {c : CowCache R S} {m : Map Key S} (h : c.Holds m) : c.Answers m where
  get ns name := by
    change c.map.get (keyRefs R) ((keyRefs R).borrow ⟨ns, name⟩) = _
    rw [HashTable.get_borrow, h]
  present key := HashTable.isSome_get_borrow c.map (keyRefs R) key
  keyed key snap hsnap := by
    rw [← h key, HashTable.lookup_toMap] at hsnap
    exact c.keyed _ hsnap
  listed iter ns hiter snap := by
    rw [← h, HashTable.lookup_toMap, CowCache.allInNamespace, List.mem_map]
    constructor
    · rintro ⟨⟨k, v⟩, hmem, rfl⟩
      obtain ⟨hmem, hns⟩ := List.mem_filter.mp hmem
      have hslot : (k, v) ∈ c.map.slots := hiter.mem_iff.mp hmem
      have hkey : entryKey v = k := c.keyed _ hslot
      have hns : k.ns = ns := beq_iff_eq.mp hns
      rw [← hkey] at hns hslot
      exact ⟨hns, hslot⟩
    · rintro ⟨rfl, hslot⟩
      exact ⟨_, List.mem_filter.mpr ⟨hiter.mem_iff.mpr hslot, beq_self_eq_true _⟩, rfl⟩
  once iter ns hiter := by
    have hkeys : (CowCache.allInNamespace iter ns).map entryKey =
        (iter.filter fun e => e.1.ns == ns).map Prod.fst := by
      rw [CowCache.allInNamespace, List.map_map]
      refine List.map_congr_left fun e he => ?_
      exact c.keyed e (hiter.mem_iff.mp (List.mem_of_mem_filter he))
    rw [hkeys]
    have hnodup := ((hiter.map Prod.fst).nodup_iff).mpr c.map.nodup
    exact hnodup.sublist (List.filter_sublist.map Prod.fst)

end Holds

/-! ### Writers and readers -/

section Run

/-- Where the writer that holds the lock is. -/
inductive WritePhase (R : BuildHasher) (S : Type) [CacheEntry S]
  | locked
  /-- The clone has been changed. -/
  | staged (next : CowCache R S)
  | stored

/-- The writer that holds the lock. -/
structure CowWriter (R : BuildHasher) (S : Type) [CacheEntry S] where
  id : Nat
  write : CacheWrite S
  phase : WritePhase R S

/-- A load of the pointer: the reader answers from this table.  `version` is a history
variable: how many writes were stored before. -/
structure PointerLoad (R : BuildHasher) (S : Type) [CacheEntry S] where
  reader : Nat
  cache : CowCache R S
  version : Nat

/-- A cache in use.  `writes` and `loads` are history variables: the writes that were
stored and the loads so far. -/
structure CowRun (R : BuildHasher) (S : Type) [CacheEntry S] where
  cache : CowCache R S
  writer : Option (CowWriter R S)
  writes : List (CacheWrite S)
  loads : List (PointerLoad R S)

variable {R : BuildHasher}

def CowRun.start (cache : CowCache R S) : CowRun R S := { cache, writer := none, writes := [], loads := [] }

inductive CowLabel (S : Type)
  /-- A writer calls, and takes the lock. -/
  | call (id : Nat) (write : CacheWrite S)
  /-- It loads the pointer, clones the table and changes the clone. -/
  | stage
  | store
  | unlock
  /-- It panics before its store; `lock_recovered` lets the next one in. -/
  | unwind
  /-- A reader loads the pointer. -/
  | load (reader : Nat)

def CowRun.step (s : CowRun R S) : CowLabel S → Option (CowRun R S)
  -- an empty batch returns before it takes the lock
  | .call _ (.applyBatch []) => some s
  | .call id write =>
    match s.writer with
    | none => some { s with writer := some { id, write, phase := .locked } }
    | some _ => none
  | .stage =>
    match s.writer with
    | some ⟨id, write, .locked⟩ =>
      some { s with writer := some { id, write, phase := .staged (s.cache.write write) } }
    | _ => none
  | .store =>
    match s.writer with
    | some ⟨id, write, .staged next⟩ =>
      some { s with cache := next, writer := some { id, write, phase := .stored },
                    writes := s.writes ++ [write] }
    | _ => none
  | .unlock =>
    match s.writer with
    | some ⟨_, _, .stored⟩ => some { s with writer := none }
    | _ => none
  | .unwind =>
    match s.writer with
    | some ⟨_, _, .stored⟩ | none => none
    | some ⟨_, _, _⟩ => some { s with writer := none }
  | .load reader =>
    some { s with loads := s.loads ++ [{ reader, cache := s.cache, version := s.writes.length }] }

/-- The transitions of `CowRun.step`. -/
inductive CowRun.Move (s : CowRun R S) : CowRun R S → Prop
  | skip : Move s s
  | lock (id : Nat) (write : CacheWrite S) (hfree : s.writer = none) :
      Move s { s with writer := some { id, write, phase := .locked } }
  | stage {id : Nat} {write : CacheWrite S} (hw : s.writer = some { id, write, phase := .locked }) :
      Move s { s with writer := some { id, write, phase := .staged (s.cache.write write) } }
  | store {id : Nat} {write : CacheWrite S} {next : CowCache R S}
      (hw : s.writer = some { id, write, phase := .staged next }) :
      Move s { s with cache := next, writer := some { id, write, phase := .stored },
                      writes := s.writes ++ [write] }
  | release : Move s { s with writer := none }
  | load (reader : Nat) :
      Move s { s with loads := s.loads ++ [{ reader, cache := s.cache, version := s.writes.length }] }

theorem CowRun.move_of_step {s t : CowRun R S} {l : CowLabel S} (h : s.step l = some t) : s.Move t := by
  unfold CowRun.step at h
  split at h
  · cases h
    exact .skip
  · split at h
    · cases h
      exact .lock _ _ ‹_›
    · cases h
  · split at h
    · cases h
      exact .stage ‹_›
    · cases h
  · split at h
    · cases h
      exact .store ‹_›
    · cases h
  · split at h
    · cases h
      exact .release
    · cases h
  · split at h
    · cases h
    · cases h
    · cases h
      exact .release
  · cases h
    exact .load _

/-- The map after some writes. -/
def afterWrites (m : Map Key S) (writes : List (CacheWrite S)) : Map Key S := writes.foldl CacheWrite.onMap m

theorem afterWrites_snoc (m : Map Key S) (writes : List (CacheWrite S)) (w : CacheWrite S) :
    afterWrites m (writes ++ [w]) = w.onMap (afterWrites m writes) := List.foldl_append

/-- What holds of a cache in use that started from the map `m`. -/
structure CowRun.Inv (m : Map Key S) (s : CowRun R S) : Prop where
  /-- The pointer is at the map of all writes. -/
  holds : s.cache.Holds (afterWrites m s.writes)
  /-- What is to be stored was made from what the pointer is at. -/
  staged : ∀ id write next, s.writer = some { id, write, phase := .staged next } → next = s.cache.write write
  /-- What was loaded is the map of some first writes. -/
  loaded : ∀ load ∈ s.loads, load.version ≤ s.writes.length ∧
    load.cache.Holds (afterWrites m (s.writes.take load.version))
  ordered : s.loads.Pairwise fun a b => a.version ≤ b.version

theorem CowRun.inv_start (c : CowCache R S) : (CowRun.start c).Inv c.map.toMap where
  holds := c.holds_self
  staged id write next h := by cases h
  loaded load h := by cases h
  ordered := List.Pairwise.nil

theorem CowRun.Inv.step {m : Map Key S} {s t : CowRun R S} {l : CowLabel S} (hs : s.Inv m)
    (h : s.step l = some t) : t.Inv m := by
  cases CowRun.move_of_step h with
  | skip => exact hs
  | lock id write hfree => exact ⟨hs.holds, fun _ _ _ hw => (by cases hw), hs.loaded, hs.ordered⟩
  | release => exact ⟨hs.holds, fun _ _ _ hw => (by cases hw), hs.loaded, hs.ordered⟩
  | @stage id write hw =>
    refine ⟨hs.holds, fun id' write' next hw' => ?_, hs.loaded, hs.ordered⟩
    cases hw'
    rfl
  | @store id write next hw =>
    -- the lock has kept the pointer where the clone was made
    obtain rfl := hs.staged _ _ _ hw
    refine ⟨?_, fun _ _ _ hw' => (by cases hw'), fun load hload => ?_, hs.ordered⟩
    · rw [afterWrites_snoc]
      exact hs.holds.write write
    · obtain ⟨hle, hholds⟩ := hs.loaded load hload
      rw [List.take_append_of_le_length hle, List.length_append]
      exact ⟨Nat.le_add_right_of_le hle, hholds⟩
  | load reader =>
    refine ⟨hs.holds, hs.staged, fun load hload => ?_, ?_⟩
    · rcases List.mem_append.mp hload with hload | hload
      · exact hs.loaded load hload
      · rw [List.mem_singleton.mp hload, List.take_length]
        exact ⟨le_rfl, hs.holds⟩
    · rw [List.pairwise_append]
      refine ⟨hs.ordered, List.pairwise_singleton _ _, fun load hload last hlast => ?_⟩
      rw [List.mem_singleton.mp hlast]
      exact (hs.loaded load hload).1

theorem CowRun.inv_run {c : CowCache R S} {labels : List (CowLabel S)} {s : CowRun R S}
    (hrun : run CowRun.step (.start c) labels = some s) : s.Inv c.map.toMap :=
  run_induction (fun _ s => s.Inv c.map.toMap) (CowRun.inv_start c) (fun _ _ _ _ _ hs h => hs.step h)
    labels s hrun

/-- What a cache in use, started from the map `m`, answers. -/
structure CowRun.Refines (m : Map Key S) (s : CowRun R S) : Prop where
  /-- In the end it answers as the map of all writes. -/
  final : s.cache.Answers (afterWrites m s.writes)
  /-- Each load answers as the map of some first writes. -/
  loaded : ∀ load ∈ s.loads, load.version ≤ s.writes.length ∧
    load.cache.Answers (afterWrites m (s.writes.take load.version))
  /-- A reader does not go back. -/
  forward : s.loads.Pairwise fun a b => a.reader = b.reader → a.version ≤ b.version

/-- **The cache refines a finite map**, and a batch is its mutations one by one. -/
theorem cowCache_refines {c : CowCache R S} {labels : List (CowLabel S)} {s : CowRun R S}
    (hrun : run CowRun.step (.start c) labels = some s) :
    s.Refines c.map.toMap ∧ ∀ (d : CowCache R S) (mutations : List (Mutation S)),
      d.write (.applyBatch mutations) = (mutations.map Mutation.alone).foldl CowCache.write d := by
  have hinv := CowRun.inv_run hrun
  refine ⟨⟨hinv.holds.answers, fun load hload => ?_, ?_⟩, fun d mutations => d.applyBatch_alone mutations⟩
  · obtain ⟨hle, hholds⟩ := hinv.loaded load hload
    exact ⟨hle, hholds.answers⟩
  · refine hinv.ordered.imp ?_
    intro a b hle _
    exact hle

end Run

/-- A polynomial hash. -/
def polyHasher : BuildHasher where
  State := UInt64
  init := 7
  write h bytes := bytes.foldl (fun h b => h * 31 + b.toUInt64) h
  finish h := h

def limitsEntry (version : UInt32) : ConfigSnapshot :=
  { name := "limits", ns := "trading", schemaVersion := version, content := defaultContent,
    resourceVersion := "7", loadedAt := 0 }

/-- A reader between the writes of two writers, and after them. -/
def readAmongWrites : List (CowLabel ConfigSnapshot) :=
  [.call 1 (.update (limitsEntry 1)), .stage, .load 9, .store, .unlock, .load 9,
    .call 2 (.applyBatch [.upsert (limitsEntry 2), .remove "trading" "rules"]), .stage, .store, .load 9]

/-- The cache before the two. -/
def noEntries : CowCache polyHasher ConfigSnapshot := .empty

theorem cowCache_refines_readAmongWrites : ∃ s, run CowRun.step (.start noEntries) readAmongWrites = some s ∧
    s.loads.map (·.version) = [0, 1, 2] ∧ s.Refines noEntries.map.toMap ∧
      ∀ (d : CowCache polyHasher ConfigSnapshot) (mutations : List (Mutation ConfigSnapshot)),
        d.write (.applyBatch mutations) = (mutations.map Mutation.alone).foldl CowCache.write d := by
  have hrun : run CowRun.step (.start noEntries) readAmongWrites = some _ := rfl
  exact ⟨_, hrun, rfl, cowCache_refines hrun⟩

/-! ### The two caches -/

/-- A mutation of the config cache. -/
def Mutation.toConfig : Mutation ConfigSnapshot → ConfigMutation
  | .upsert snap => .upsert snap
  | .remove ns name => .remove ⟨ns, name⟩

def ConfigCache.write (c : ConfigCache) : CacheWrite ConfigSnapshot → ConfigCache
  | .update snap => c.update snap
  | .remove ns name => c.remove ⟨ns, name⟩
  | .markAllStale now => c.markAllStale now
  | .applyBatch mutations => c.applyBatch (mutations.map Mutation.toConfig)

/-- A `ConfigCache` is the map that the writes mean. -/
theorem ConfigCache.entries_write (c : ConfigCache) (w : CacheWrite ConfigSnapshot) :
    (c.write w).entries = w.onMap c.entries := by
  cases w with
  | update snap | remove ns name | markAllStale now => rfl
  | applyBatch mutations =>
    change ((mutations.map Mutation.toConfig).foldl _ c).entries = mutations.foldl Mutation.onMap c.entries
    induction mutations generalizing c with
    | nil => rfl
    | cons m mutations ih => cases m <;> exact ih _

theorem ConfigCache.entries_writes (writes : List (CacheWrite ConfigSnapshot)) (c : ConfigCache) :
    (writes.foldl ConfigCache.write c).entries = afterWrites c.entries writes := by
  induction writes generalizing c with
  | nil => rfl
  | cons w writes ih =>
    rw [List.foldl_cons, ih, ConfigCache.entries_write]
    rfl

/-- **The config cache is what the handlers and the watcher are modelled over.** -/
theorem configCache_get {R : BuildHasher} {labels : List (CowLabel ConfigSnapshot)}
    {s : CowRun R ConfigSnapshot} (hrun : run CowRun.step (.start .empty) labels = some s)
    (ns name : String) :
    s.cache.get ns name = (s.writes.foldl ConfigCache.write .empty).get ⟨ns, name⟩ := by
  have hinv := CowRun.inv_run hrun
  rw [hinv.holds.answers.get, ConfigCache.get, ConfigCache.entries_writes]
  rfl

end Konfig
