import Konfig.Secrets.Types
import Konfig.Lib.WatchMirror

/-!
# The secret watcher

`secret_watcher.rs` for one namespace: each watch event goes to the cache and to
the broadcast, one after the other.  On a reconnect the relist is buffered: its
secrets are broadcast as they come and reach the cache only with `InitDone`, in one
batch; a stream that ends before drops the buffer.

The cache is shared by the watchers of all namespaces and copied on every write.
A watcher writes only its own namespace, except that a lost connection marks every
entry stale.

* `SecretWatcher.newest`: the version of a secret that was processed last.
* `SecretWatcher.Holds`: the cache has it.
* `fresh_step`: on a first connection the cache has every newest version.
-/

namespace Konfig

open Lib

/-! ### The cache -/

/-- `SecretCache`. -/
abbrev SecretCache := Map Key SecretSnapshot

def SecretSnapshot.key (snap : SecretSnapshot) : Key := ⟨snap.ns, snap.name⟩

namespace SecretCache

def update (c : SecretCache) (snap : SecretSnapshot) : SecretCache := c.insert snap.key snap

/-- `apply_batch`, of upserts. -/
def applyBatch (c : SecretCache) (snaps : List SecretSnapshot) : SecretCache := snaps.foldl update c

def markAllStale (c : SecretCache) (now : Instant) : SecretCache := c.mapVals (·.setStale now)

/-- `all_in_namespace`, when the map is iterated in the given order. -/
def allInNamespace (c : SecretCache) (order : List Key) (ns : String) : List SecretSnapshot :=
  c.visit (order.filter fun k => k.ns = ns)

/-- Every entry of the namespace is returned. -/
theorem length_allInNamespace {c : SecretCache} {order : List Key} (horder : order.Perm c.keys)
    (ns : String) : (c.allInNamespace order ns).length = (order.filter fun k => k.ns = ns).length := by
  refine List.filterMap_length_eq_length.mpr ?_
  intro k hk
  rw [AList.lookup_isSome, AList.mem_keys]
  exact horder.mem_iff.mp (List.mem_of_mem_filter hk)

end SecretCache

/-! ### The watcher -/

/-- One namespace's watcher with the shared cache.  `pending` is a broadcast that
is about to be sent.  `applied` is a history variable: the versions processed so
far. -/
structure SecretWatcher where
  cache : SecretCache
  relist : Option (List SecretSnapshot)
  batchRelist : Bool
  pending : Option SecretEvent
  sent : List SecretEvent
  applied : List SecretSnapshot

def SecretWatcher.start (cache : SecretCache) : SecretWatcher :=
  { cache, relist := none, batchRelist := false, pending := none, sent := [], applied := [] }

/-- The event a version is broadcast as. -/
def secretEvent (type : EventType) (now : Instant) (snap : SecretSnapshot) : SecretEvent :=
  { eventType := type, secret := some (secretSnapshotToProto now snap) }

/-- `handle_secret_event`, up to the send. -/
def handleSecretEvent (ns : String) (now : Instant) (event : WatchEvent Secret) (w : SecretWatcher) :
    SecretWatcher :=
  match event with
  | .apply secret | .initApply secret =>
    match parseSecret now secret ns with
    | some snap =>
      { w with
        cache := w.cache.update snap
        pending := some (secretEvent .modified now snap)
        applied := w.applied ++ [snap] }
    | none => w
  | .delete secret =>
    match parseSecret now secret ns with
    -- the cache keeps the last known version
    | some snap => { w with pending := some (secretEvent .deleted now snap) }
    | none => w
  | .init | .initDone => w

/-- `route_secret_event`, up to the send. -/
def routeSecretEvent (ns : String) (now : Instant) (event : WatchEvent Secret) (w : SecretWatcher) :
    SecretWatcher :=
  match w.relist with
  | some buf =>
    match event with
    | .initApply secret =>
      match parseSecret now secret ns with
      | some snap =>
        { w with
          relist := some (buf ++ [snap])
          pending := some (secretEvent .modified now snap)
          applied := w.applied ++ [snap] }
      | none => w
    | .initDone => { w with relist := none, cache := w.cache.applyBatch buf }
    | other => handleSecretEvent ns now other w
  | none =>
    match w.batchRelist, event with
    | true, .init => { w with relist := some [] }
    | _, event => handleSecretEvent ns now event w

inductive SecretWatcherLabel
  | event (event : WatchEvent Secret) (now : Instant)
  | send
  /-- The watch stream ends; the next one is a reconnect. -/
  | disconnect (now : Instant)
  /-- Another namespace's watcher writes the cache. -/
  | foreign (snap : SecretSnapshot)
  /-- Another namespace's watcher loses its connection. -/
  | foreignStale (now : Instant)

def SecretWatcher.step (ns : String) (w : SecretWatcher) : SecretWatcherLabel → Option SecretWatcher
  | .event event now =>
    match w.pending with
    | none => some (routeSecretEvent ns now event w)
    | some _ => none
  | .send =>
    match w.pending with
    | none => none
    | some event => some { w with pending := none, sent := w.sent ++ [event] }
  | .disconnect now =>
    match w.pending with
    | none =>
      some { w with relist := none, batchRelist := true, cache := w.cache.markAllStale now }
    | some _ => none
  | .foreign snap => if snap.ns = ns then none else some { w with cache := w.cache.update snap }
  | .foreignStale now => some { w with cache := w.cache.markAllStale now }

/-! ### What a step can do -/

/-- The transitions of `SecretWatcher.step`. -/
inductive SecretWatcher.Move (ns : String) (w : SecretWatcher) : SecretWatcherLabel → SecretWatcher → Prop
  | applied {event : WatchEvent Secret} {now : Instant} {snap : SecretSnapshot} (hns : snap.ns = ns)
      (hp : w.pending = none) :
      Move ns w (.event event now)
        { w with
          cache := w.cache.update snap
          pending := some (secretEvent .modified now snap)
          applied := w.applied ++ [snap] }
  | buffered {event : WatchEvent Secret} {now : Instant} {snap : SecretSnapshot}
      {buf : List SecretSnapshot} (hns : snap.ns = ns) (hr : w.relist = some buf)
      (hp : w.pending = none) :
      Move ns w (.event event now)
        { w with
          relist := some (buf ++ [snap])
          pending := some (secretEvent .modified now snap)
          applied := w.applied ++ [snap] }
  | deleted {event : WatchEvent Secret} {now : Instant} {snap : SecretSnapshot} (hns : snap.ns = ns)
      (hp : w.pending = none) :
      Move ns w (.event event now) { w with pending := some (secretEvent .deleted now snap) }
  | committed {event : WatchEvent Secret} {now : Instant} {buf : List SecretSnapshot}
      (hr : w.relist = some buf) (hp : w.pending = none) :
      Move ns w (.event event now) { w with relist := none, cache := w.cache.applyBatch buf }
  | opened {event : WatchEvent Secret} {now : Instant} (hb : w.batchRelist = true)
      (hp : w.pending = none) : Move ns w (.event event now) { w with relist := some [] }
  | idle {event : WatchEvent Secret} {now : Instant} (hp : w.pending = none) :
      Move ns w (.event event now) w
  | sent {event : SecretEvent} (hp : w.pending = some event) :
      Move ns w .send { w with pending := none, sent := w.sent ++ [event] }
  | disconnected {now : Instant} (hp : w.pending = none) :
      Move ns w (.disconnect now)
        { w with relist := none, batchRelist := true, cache := w.cache.markAllStale now }
  | foreign {snap : SecretSnapshot} (hns : snap.ns ≠ ns) :
      Move ns w (.foreign snap) { w with cache := w.cache.update snap }
  | foreignStale {now : Instant} :
      Move ns w (.foreignStale now) { w with cache := w.cache.markAllStale now }

theorem parseSecret_ns {now : Instant} {secret : Secret} {ns : String} {snap : SecretSnapshot}
    (h : parseSecret now secret ns = some snap) : snap.ns = ns := by
  rw [parseSecret, Option.some.injEq] at h
  rw [← h]

theorem move_of_handle {ns : String} {w : SecretWatcher} (hp : w.pending = none) (now : Instant)
    (event event' : WatchEvent Secret) :
    w.Move ns (.event event' now) (handleSecretEvent ns now event w) := by
  unfold handleSecretEvent
  split
  · split
    · exact .applied (parseSecret_ns ‹_›) hp
    · exact .idle hp
  · split
    · exact .applied (parseSecret_ns ‹_›) hp
    · exact .idle hp
  · split
    · exact .deleted (parseSecret_ns ‹_›) hp
    · exact .idle hp
  · exact .idle hp
  · exact .idle hp

theorem move_of_route {ns : String} {w : SecretWatcher} (hp : w.pending = none) (now : Instant)
    (event : WatchEvent Secret) : w.Move ns (.event event now) (routeSecretEvent ns now event w) := by
  unfold routeSecretEvent
  split
  · rename_i buf hr
    split
    · split
      · exact .buffered (parseSecret_ns ‹_›) hr hp
      · exact .idle hp
    · exact .committed hr hp
    · exact move_of_handle hp now _ _
  · split
    · exact .opened ‹_› hp
    · exact move_of_handle hp now _ _

theorem SecretWatcher.move_of_step {ns : String} {w w' : SecretWatcher} {l : SecretWatcherLabel}
    (h : w.step ns l = some w') : w.Move ns l w' := by
  cases l with
  | event event now =>
    simp only [SecretWatcher.step] at h
    split at h
    · rename_i hp
      cases h
      exact move_of_route hp now event
    · cases h
  | send =>
    simp only [SecretWatcher.step] at h
    split at h
    · cases h
    · cases h
      exact .sent ‹_›
  | disconnect now =>
    simp only [SecretWatcher.step] at h
    split at h
    · cases h
      exact .disconnected ‹_›
    · cases h
  | foreign snap =>
    simp only [SecretWatcher.step] at h
    split at h
    · cases h
    · cases h
      exact .foreign ‹_›
  | foreignStale now =>
    simp only [SecretWatcher.step, Option.some.injEq] at h
    rw [← h]
    exact .foreignStale

/-! ### Versions -/

/-- The same version of a secret: it is served alike, but for when it was loaded and
lost sight of. -/
def SecretSnapshot.Same (a b : SecretSnapshot) : Prop :=
  a.ns = b.ns ∧ a.name = b.name ∧ a.schemaVersion = b.schemaVersion ∧ a.dataJson = b.dataJson ∧
    a.resourceVersion = b.resourceVersion

instance (a b : SecretSnapshot) : Decidable (a.Same b) := inferInstanceAs (Decidable (_ ∧ _))

theorem SecretSnapshot.Same.refl (a : SecretSnapshot) : a.Same a := ⟨rfl, rfl, rfl, rfl, rfl⟩

theorem SecretSnapshot.Same.setStale {a b : SecretSnapshot} (h : a.Same b) (now : Instant) :
    (a.setStale now).Same b := h

/-- The version of a secret that was processed last. -/
def SecretWatcher.newest (w : SecretWatcher) (name : String) : Option SecretSnapshot :=
  (w.applied.filter fun v => v.name = name).getLast?

/-- The cache has the newest version of a secret. -/
def SecretWatcher.Holds (w : SecretWatcher) (ns name : String) : Prop :=
  ∀ v ∈ w.newest name, ∃ c ∈ w.cache.lookup ⟨ns, name⟩, c.Same v

instance (w : SecretWatcher) (ns name : String) : Decidable (w.Holds ns name) :=
  inferInstanceAs (Decidable (∀ v ∈ w.newest name, _))

theorem newest_concat (w w' : SecretWatcher) (snap : SecretSnapshot) (name : String)
    (h : w'.applied = w.applied ++ [snap]) :
    w'.newest name = if snap.name = name then some snap else w.newest name := by
  unfold SecretWatcher.newest
  rw [h, List.filter_append, List.filter_singleton]
  by_cases hn : snap.name = name
  · simp [hn]
  · simp [hn]

theorem newest_congr {w w' : SecretWatcher} (h : w'.applied = w.applied) (name : String) :
    w'.newest name = w.newest name := by
  unfold SecretWatcher.newest
  rw [h]

theorem Holds.update {w w' : SecretWatcher} {ns : String} {snap : SecretSnapshot}
    (hw : ∀ name, w.Holds ns name) (hns : snap.ns = ns) (hc : w'.cache = w.cache.update snap)
    (ha : w'.applied = w.applied ++ [snap]) (name : String) : w'.Holds ns name := by
  intro v hv
  rw [newest_concat w w' snap name ha, Option.mem_def] at hv
  rw [hc, SecretCache.update]
  by_cases hn : snap.name = name
  · rw [if_pos hn, Option.some.injEq] at hv
    have hk : (⟨ns, name⟩ : Key) = snap.key := by rw [SecretSnapshot.key, hns, hn]
    rw [hk, AList.lookup_insert]
    exact ⟨snap, rfl, hv ▸ .refl snap⟩
  · rw [if_neg hn] at hv
    have hk : (⟨ns, name⟩ : Key) ≠ snap.key := by
      intro h
      exact hn (congrArg Key.name h).symm
    rw [AList.lookup_insert_ne hk]
    exact hw name v hv

theorem Holds.stale {w w' : SecretWatcher} {ns name : String} {now : Instant} (hw : w.Holds ns name)
    (hc : w'.cache = w.cache.markAllStale now) (ha : w'.applied = w.applied) : w'.Holds ns name := by
  intro v hv
  rw [newest_congr ha] at hv
  obtain ⟨c, hlook, hsame⟩ := hw v hv
  rw [hc, SecretCache.markAllStale, Map.lookup_mapVals, hlook]
  exact ⟨c.setStale now, rfl, hsame.setStale now⟩

theorem Holds.congr {w w' : SecretWatcher} {ns name : String} (hw : w.Holds ns name)
    (hc : w'.cache.lookup ⟨ns, name⟩ = w.cache.lookup ⟨ns, name⟩) (ha : w'.applied = w.applied) :
    w'.Holds ns name := by
  intro v hv
  rw [newest_congr ha] at hv
  rw [hc]
  exact hw v hv

/-- A first connection: nothing is buffered, and the cache has every newest version. -/
def SecretWatcher.Fresh (ns : String) (w : SecretWatcher) : Prop :=
  w.batchRelist = false → w.relist = none ∧ ∀ name, w.Holds ns name

theorem fresh_start (ns : String) (cache : SecretCache) : (SecretWatcher.start cache).Fresh ns :=
  fun _ => ⟨rfl, fun _ _ h => by cases h⟩

theorem fresh_step {ns : String} {w w' : SecretWatcher} {l : SecretWatcherLabel} (hw : w.Fresh ns)
    (h : w.step ns l = some w') : w'.Fresh ns := by
  intro hb
  cases SecretWatcher.move_of_step h with
  | applied hns hp =>
    obtain ⟨hr, hh⟩ := hw hb
    exact ⟨hr, Holds.update hh hns rfl rfl⟩
  | buffered hns hr hp =>
    rw [(hw hb).1] at hr
    cases hr
  | deleted hns hp =>
    obtain ⟨hr, hh⟩ := hw hb
    exact ⟨hr, fun name => Holds.congr (hh name) rfl rfl⟩
  | committed hr hp =>
    rw [(hw hb).1] at hr
    cases hr
  | opened hb' hp =>
    rw [hb'] at hb
    cases hb
  | idle hp => exact hw hb
  | sent hp =>
    obtain ⟨hr, hh⟩ := hw hb
    exact ⟨hr, fun name => Holds.congr (hh name) rfl rfl⟩
  | disconnected hp => cases hb
  | @foreign snap hns =>
    obtain ⟨hr, hh⟩ := hw hb
    refine ⟨hr, fun name => Holds.congr (hh name) ?_ rfl⟩
    refine AList.lookup_insert_ne fun hk => hns ?_
    exact (congrArg Key.ns hk).symm
  | foreignStale =>
    obtain ⟨hr, hh⟩ := hw hb
    exact ⟨hr, fun name => Holds.stale (hh name) rfl rfl⟩

end Konfig
