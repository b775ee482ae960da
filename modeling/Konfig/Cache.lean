import Konfig.Types
import Konfig.Lib.WatchMirror

/-!
# The config cache

`cow_cache.rs` and `cache.rs`: a map from `(namespace, name)` to snapshots that is
copied on every write, so that a reader sees one map.  Every write stores a snapshot
under its own key; a `ConfigCache` carries this.
-/

namespace Konfig

open Lib

def ConfigSnapshot.key (snap : ConfigSnapshot) : Key := ⟨snap.ns, snap.name⟩

/-- `ConfigCache`. -/
structure ConfigCache where
  entries : Map Key ConfigSnapshot
  keyed : entries.Keyed ConfigSnapshot.key

/-- A staged mutation of `apply_batch`. -/
inductive ConfigMutation
  | upsert (snap : ConfigSnapshot)
  | remove (key : Key)

namespace ConfigCache

def empty : ConfigCache := { entries := ∅, keyed := Map.keyed_empty _ }

def update (c : ConfigCache) (snap : ConfigSnapshot) : ConfigCache :=
  { entries := c.entries.insert snap.key snap, keyed := c.keyed.insert snap }

def remove (c : ConfigCache) (key : Key) : ConfigCache :=
  { entries := c.entries.erase key, keyed := c.keyed.erase key }

def markAllStale (c : ConfigCache) (now : Instant) : ConfigCache :=
  { entries := c.entries.mapVals (·.setStale now), keyed := c.keyed.mapVals fun _ => rfl }

def applyBatch (c : ConfigCache) (mutations : List ConfigMutation) : ConfigCache :=
  mutations.foldl (fun c m =>
    match m with
    | .upsert snap => c.update snap
    | .remove key => c.remove key) c

/-- `get`. -/
def get (c : ConfigCache) (key : Key) : Option ConfigSnapshot := c.entries.lookup key

/-- `is_populated`. -/
def isPopulated (c : ConfigCache) : Bool := !c.entries.entries.isEmpty

/-- `all_in_namespace`, when the map is iterated in the given order. -/
def allInNamespace (c : ConfigCache) (order : List Key) (ns : String) : List ConfigSnapshot :=
  c.entries.visit (order.filter fun k => k.ns = ns)

theorem ns_of_mem_allInNamespace {c : ConfigCache} {order : List Key} {ns : String}
    {snap : ConfigSnapshot} (h : snap ∈ c.allInNamespace order ns) : snap.ns = ns := by
  have hkey := c.keyed.of_mem_visit h
  rw [List.mem_filter, decide_eq_true_eq] at hkey
  exact hkey.2

end ConfigCache

end Konfig
