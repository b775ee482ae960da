import Konfig.Cache
import Konfig.Lib.FeedStore
import Konfig.Lib.Machine

/-!
# The Config watcher

`watcher.rs`, under the reconnect loop of `startup.rs`: the stream is pumped into the
cache until it errors or ends, then every cached entry is marked stale and a new stream
is opened.  A stream opened after an error buffers its relist and commits it with
`InitDone`; one that is cut short drops the buffer.

* `routeRelistEvent`: the relist state machine, and `relistWrites`, what it writes.
* `ConfigWatcher`: the watcher as a machine, with the journal of what happened to the cache.
* `ConfigWatcher.Inv`: the cache is what the journal makes of it.
* `ConfigWatcher.Inv.stale_last`: an entry shows the last loss since it was written.
-/

namespace Konfig

open Lib

/-! ### Relists -/

section Relist

variable {E M σ : Type}

/-- `route_relist_event`. -/
def routeRelistEvent (event : WatchEvent E) (relist : Option (List M)) (batchRelist : Bool)
    (buffer : E → List M → List M) (commit : List M → σ → σ) (handle : WatchEvent E → σ → σ) (s : σ) :
    Option (List M) × σ :=
  match relist with
  | some buf =>
    match event with
    | .initApply payload => (some (buffer payload buf), s)
    | .initDone => (none, commit buf s)
    | other => (some buf, handle other s)
  | none =>
    match batchRelist, event with
    | true, .init => (some [], s)
    | _, event => (none, handle event s)

/-- What an event writes to the cache. -/
def relistWrites (parse : E → Option M) (relist : Option (List M)) (event : WatchEvent E) : List M :=
  match relist, event with
  | some buf, .initDone => buf
  | some _, .initApply _ => []
  | _, .apply payload | _, .initApply payload => (parse payload).toList
  | _, .delete _ | _, .init | _, .initDone => []

/-- What holds of everything parsed and buffered holds of what is written. -/
theorem relistWrites_forall {parse : E → Option M} {P : M → Prop} (hparse : ∀ e, ∀ m ∈ parse e, P m)
    {relist : Option (List M)} (hrelist : ∀ buf ∈ relist, ∀ m ∈ buf, P m) (event : WatchEvent E) :
    ∀ m ∈ relistWrites parse relist event, P m := by
  intro m hm
  unfold relistWrites at hm
  split at hm
  · exact hrelist _ rfl m hm
  · cases hm
  · exact hparse _ m (Option.mem_toList.mp hm)
  · exact hparse _ m (Option.mem_toList.mp hm)
  · cases hm
  · cases hm
  · cases hm

end Relist

/-! ### The watcher -/

/-- `handle_event`. -/
def handleEvent (now : Instant) (event : WatchEvent DynamicObject) (cache : ConfigCache) : ConfigCache :=
  match event with
  | .apply obj | .initApply obj =>
    match parseConfigObject now obj with
    | some snap => cache.update snap
    | none => cache
  | .delete _ | .init | .initDone => cache

/-- `route_config_event`; the mutations it stages are all upserts. -/
def routeConfigEvent (now : Instant) (event : WatchEvent DynamicObject)
    (relist : Option (List ConfigSnapshot)) (batchRelist : Bool) (cache : ConfigCache) :
    Option (List ConfigSnapshot) × ConfigCache :=
  routeRelistEvent event relist batchRelist
    (fun obj buf =>
      match parseConfigObject now obj with
      | some snap => buf ++ [snap]
      | none => buf)
    (fun muts cache => cache.applyBatch (muts.map .upsert))
    (handleEvent now) cache

/-- The watcher with its cache.  `attempt` is that of `Watcher::run`, and `journal` a
history variable: what happened to the cache so far. -/
structure ConfigWatcher where
  cache : ConfigCache
  relist : Option (List ConfigSnapshot)
  attempt : Nat
  journal : List (FeedOp Key ConfigSnapshot Unit Instant)

def ConfigWatcher.start : ConfigWatcher :=
  { cache := .empty, relist := none, attempt := 0, journal := [] }

inductive ConfigWatcherLabel
  | event (event : WatchEvent DynamicObject) (now : Instant)
  /-- The stream errors, and `Watcher::run` opens another. -/
  | errored (now : Instant)
  /-- The stream ends cleanly: `Watcher::run` returns and is called again. -/
  | ended (now : Instant)

/-- The operations that an event amounts to. -/
def ConfigWatcher.writes (w : ConfigWatcher) (now : Instant) (event : WatchEvent DynamicObject) :
    List (FeedOp Key ConfigSnapshot Unit Instant) :=
  (relistWrites (parseConfigObject now) w.relist event).map fun snap => .write snap.key snap

/-- The connection is lost: the cache is marked and the buffer dropped. -/
def ConfigWatcher.lose (w : ConfigWatcher) (now : Instant) (attempt : Nat) : ConfigWatcher :=
  { cache := w.cache.markAllStale now, relist := none, attempt, journal := w.journal ++ [.lose () now] }

/-- `Watcher::run` and `run_with_reconnect`. -/
def ConfigWatcher.step (w : ConfigWatcher) : ConfigWatcherLabel → Option ConfigWatcher
  | .event event now =>
    match routeConfigEvent now event w.relist (decide (0 < w.attempt)) w.cache with
    | (relist, cache) => some { w with cache, relist, journal := w.journal ++ w.writes now event }
  | .errored now => some (w.lose now (w.attempt + 1))
  | .ended now => some (w.lose now 0)

/-! ### The journal -/

theorem staleSince_parseConfigObject {now : Instant} {obj : DynamicObject} {snap : ConfigSnapshot}
    (h : parseConfigObject now obj = some snap) : snap.staleSince = none := by
  unfold parseConfigObject at h
  simp only [Option.bind_eq_bind, Option.bind_eq_some_iff] at h
  obtain ⟨_, _, _, _, h⟩ := h
  cases h
  rfl

/-- A buffer grows by what it parses. -/
theorem buffered_routeConfigEvent {P : ConfigSnapshot → Prop} {now : Instant}
    (hparse : ∀ obj, ∀ snap ∈ parseConfigObject now obj, P snap) {relist : Option (List ConfigSnapshot)}
    (hrelist : ∀ buf ∈ relist, ∀ snap ∈ buf, P snap) (event : WatchEvent DynamicObject)
    (batchRelist : Bool) (cache : ConfigCache) :
    ∀ buf ∈ (routeConfigEvent now event relist batchRelist cache).1, ∀ snap ∈ buf, P snap := by
  intro buf hbuf snap hsnap
  unfold routeConfigEvent routeRelistEvent at hbuf
  split at hbuf
  · rename_i old
    split at hbuf
    · rename_i obj
      cases hbuf
      dsimp only at hsnap
      split at hsnap
      · rename_i new hnew
        rw [List.mem_append, List.mem_singleton] at hsnap
        rcases hsnap with hsnap | rfl
        · exact hrelist old rfl snap hsnap
        · exact hparse obj snap hnew
      · exact hrelist old rfl snap hsnap
    · cases hbuf
    · cases hbuf
      exact hrelist _ rfl snap hsnap
  · split at hbuf
    · cases hbuf
      cases hsnap
    · cases hbuf

theorem applyBatch_upserts (cache : ConfigCache) (snaps : List ConfigSnapshot) :
    cache.applyBatch (snaps.map .upsert) = snaps.foldl ConfigCache.update cache := by
  rw [ConfigCache.applyBatch, List.foldl_map]

/-- **What an event does to the cache** is to write, one after the other. -/
theorem routeConfigEvent_cache (now : Instant) (event : WatchEvent DynamicObject)
    (relist : Option (List ConfigSnapshot)) (batchRelist : Bool) (cache : ConfigCache) :
    (routeConfigEvent now event relist batchRelist cache).2 =
      (relistWrites (parseConfigObject now) relist event).foldl ConfigCache.update cache := by
  have hhandle : ∀ obj : DynamicObject, (match parseConfigObject now obj with
      | some snap => cache.update snap
      | none => cache) = (parseConfigObject now obj).toList.foldl ConfigCache.update cache := by
    intro obj
    cases parseConfigObject now obj <;> rfl
  cases relist with
  | some buf =>
    cases event with
    | initDone => exact applyBatch_upserts cache buf
    | apply obj => exact hhandle obj
    | delete _ | init | initApply _ => rfl
  | none =>
    cases event with
    | apply obj | initApply obj =>
      cases batchRelist with
      | true => exact hhandle obj
      | false => exact hhandle obj
    | delete _ | init | initDone => cases batchRelist <;> rfl

/-- Updates are writes of the store. -/
theorem entries_foldl_update (mark : Instant → ConfigSnapshot → ConfigSnapshot) :
    ∀ (snaps : List ConfigSnapshot) (cache : ConfigCache),
      (snaps.foldl ConfigCache.update cache).entries =
        (snaps.map fun snap => (.write snap.key snap : FeedOp Key ConfigSnapshot Unit Instant)).foldl
          (FeedOp.applyTo mark) cache.entries := by
  intro snaps
  induction snaps with
  | nil => intro cache; rfl
  | cons snap snaps ih => intro cache; exact ih (cache.update snap)

/-- The cache is what the journal makes of it, and nothing stale is written or buffered. -/
structure ConfigWatcher.Inv (w : ConfigWatcher) : Prop where
  follows : ∀ key, w.cache.get key = entryAfter (fun now snap => snap.setStale now) key none w.journal
  fresh : FreshWrites ConfigSnapshot.staleSince w.journal
  buffered : ∀ buf ∈ w.relist, ∀ snap ∈ buf, snap.staleSince = none

theorem ConfigWatcher.inv_start : ConfigWatcher.start.Inv where
  follows key := AList.lookup_empty key
  fresh _ _ h := by cases h
  buffered _ h := by cases h

theorem ConfigWatcher.Inv.lose {w : ConfigWatcher} (h : w.Inv) (now : Instant) (attempt : Nat) :
    (w.lose now attempt).Inv where
  follows key := by
    change AList.lookup key (w.cache.entries.mapVals _) = _
    rw [Map.lookup_mapVals, ConfigWatcher.lose, entryAfter_snoc, ← h.follows]
    rfl
  fresh key snap hmem := h.fresh key snap (by simpa [ConfigWatcher.lose] using hmem)
  buffered _ hbuf := by cases hbuf

theorem ConfigWatcher.Inv.step {w w' : ConfigWatcher} {l : ConfigWatcherLabel} (h : w.Inv)
    (hstep : w.step l = some w') : w'.Inv := by
  cases l with
  | errored now =>
    cases hstep
    exact h.lose now _
  | ended now =>
    cases hstep
    exact h.lose now _
  | event event now =>
    cases hstep
    have hparse : ∀ obj, ∀ snap ∈ parseConfigObject now obj, snap.staleSince = none :=
      fun obj snap hsnap => staleSince_parseConfigObject hsnap
    constructor
    · intro key
      change ConfigCache.get (routeConfigEvent now event w.relist (decide (0 < w.attempt)) w.cache).2 key = _
      rw [routeConfigEvent_cache, ConfigCache.get, entries_foldl_update fun now snap => snap.setStale now,
        lookup_foldl_applyTo, entryAfter_append, ← h.follows]
      rfl
    · intro key snap hmem
      rw [List.mem_append] at hmem
      rcases hmem with hmem | hmem
      · exact h.fresh key snap hmem
      · obtain ⟨s, hs, he⟩ := List.mem_map.mp hmem
        cases he
        exact relistWrites_forall hparse h.buffered event snap hs
    · exact buffered_routeConfigEvent hparse h.buffered event _ w.cache

theorem ConfigWatcher.inv_run {labels : List ConfigWatcherLabel} {w : ConfigWatcher}
    (hrun : run ConfigWatcher.step .start labels = some w) : w.Inv :=
  run_induction (fun _ w => w.Inv) ConfigWatcher.inv_start (fun _ _ _ _ _ h hstep => h.step hstep) labels w
    hrun

/-- **An entry shows the last loss since it was written.** -/
theorem ConfigWatcher.Inv.stale_last {w : ConfigWatcher} (h : w.Inv) {key : Key} {snap : ConfigSnapshot}
    (hget : w.cache.get key = some snap) : snap.staleSince = (losses (since key w.journal)).getLast? := by
  have hinitial : ∀ v ∈ (none : Option ConfigSnapshot), v.staleSince = none := by simp
  rw [h.follows] at hget
  refine Lib.stale_last ?_ hinitial h.fresh hget
  exact fun _ _ => rfl

end Konfig
