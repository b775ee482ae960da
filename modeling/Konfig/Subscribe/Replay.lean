import Konfig.Subscribe.Filter
import Konfig.Lib.Deque
import Konfig.Lib.WatchMirror

/-!
# The replay buffer

`grpc/subscribe/replay.rs` and the event processing of `grpc/subscribe/watch.rs`:
a namespace watcher turns each watch event into a frame, appends it to the
bounded buffer and hands it to the fan-out.  A subscriber that resumes looks its
version up by binary search.

The buffer holds the last `REPLAY_BUFFER_SIZE` events pushed, in the order they
came (`bufferAfter_eq`).  The search needs them sorted by version, and nothing
in the push path sorts them: `replayOk_iff` says that the buffer is in order at
every point of a stream exactly when the stream's versions never decrease, and
a relist whose first object is newer than its second breaks it
(`relist_unsorts`).
-/

namespace Konfig

open Lib

def REPLAY_BUFFER_SIZE : Nat := 1000

structure ReplayEntry where
  resourceVersion : String
  resourceVersionU64 : Nat
  event : ConfigEvent
  labels : StringMap

/-- `BroadcastFrame`; its clock and its trace context feed only metrics. -/
structure BroadcastFrame where
  event : ConfigEvent
  labels : StringMap

def pushReplay (buf : List ReplayEntry) (resourceVersion : String) (event : ConfigEvent)
    (labels : StringMap) : List ReplayEntry :=
  match parseU64 resourceVersion with
  | none => buf
  | some resourceVersionU64 =>
    pushBounded REPLAY_BUFFER_SIZE buf { resourceVersion, resourceVersionU64, event, labels }

/-- The object of a watch event and the type of event it is broadcast as. -/
def eventObject : WatchEvent DynamicObject → Option (EventType × DynamicObject)
  | .apply obj | .initApply obj => some (.modified, obj)
  | .delete obj => some (.deleted, obj)
  | .init | .initDone => none

/-- `process_namespace_event`: the buffer after the event, and the frame to
broadcast. -/
def processNamespaceEvent (now : Instant) (event : WatchEvent DynamicObject)
    (buf : List ReplayEntry) : List ReplayEntry × Option BroadcastFrame :=
  match eventObject event with
  | none => (buf, none)
  | some (eventType, obj) =>
    match parseConfigObject now obj with
    | none => (buf, none)
    | some snap =>
      let event : ConfigEvent := { eventType, config := some (snapshotToProto now snap) }
      (pushReplay buf snap.resourceVersion event snap.labels, some { event, labels := snap.labels })

/-! ### The parts of `resume_from_buffer` -/

/-- An event with the labels its filter is asked about. -/
abbrev ReplayItem := ConfigEvent × StringMap

def ReplayEntry.item (e : ReplayEntry) : ReplayItem := (e.event, e.labels)

/-- An empty and a non-numeric version both count as unknown. -/
def parseResumeRv (resumeRv : String) : Option Nat :=
  if resumeRv = "" then none else parseU64 resumeRv

/-- The slice after the looked-up version, if the version is found; the ring is
cut after `front` elements. -/
def lookupReplay (front : Nat) (buf : List ReplayEntry) (resumeRv : Option Nat) :
    Option (List ReplayItem) :=
  match resumeRv.bind (searchDeque front (buf.map (·.resourceVersionU64))) with
  | some idx => some ((buf.drop (idx + 1)).map ReplayEntry.item)
  | none => none

/-- One round of the loop that tracks `max_snapshot_rv`. -/
def raiseRv (maxRv : Nat) (snap : ConfigSnapshot) : Nat :=
  match parseU64 snap.resourceVersion with
  | some rv => if maxRv < rv then rv else maxRv
  | none => maxRv

def maxSnapshotRv (snaps : List ConfigSnapshot) : Nat := snaps.foldl raiseRv 0

def snapshotEvents (filter : SubscribeFilter) (now : Instant) (snaps : List ConfigSnapshot) :
    List ConfigEvent :=
  (snaps.filter fun snap => filter.allow snap.name snap.labels).map fun snap =>
    { eventType := .snapshot, config := some (snapshotToProto now snap) }

/-- The buffered events above the snapshot's highest version. -/
def postSnapshotEvents (buf : List ReplayEntry) (maxRv : Nat) : List ReplayItem :=
  (buf.filter fun e => decide (maxRv < e.resourceVersionU64)).map ReplayEntry.item

/-! ### What a stream leaves in the buffer -/

/-- The frame a watch event is broadcast as. -/
def frameOf (now : Instant) (event : WatchEvent DynamicObject) : Option BroadcastFrame :=
  (eventObject event).bind fun p => (parseConfigObject now p.2).map fun snap =>
    { event := { eventType := p.1, config := some (snapshotToProto now snap) }, labels := snap.labels }

/-- The resource version an event carries. -/
def eventRv (event : ConfigEvent) : String := (event.config.map (·.resourceVersion)).getD ""

/-- The replay entry of a frame, if its version is numeric. -/
def BroadcastFrame.entry (f : BroadcastFrame) : Option ReplayEntry :=
  (parseU64 (eventRv f.event)).map fun rv =>
    { resourceVersion := eventRv f.event, resourceVersionU64 := rv, event := f.event,
      labels := f.labels }

/-- Push a frame, if it has a numeric version. -/
def pushFrame (buf : List ReplayEntry) (f : BroadcastFrame) : List ReplayEntry :=
  f.entry.toList.foldl (pushBounded REPLAY_BUFFER_SIZE) buf

theorem processNamespaceEvent_eq (now : Instant) (event : WatchEvent DynamicObject)
    (buf : List ReplayEntry) : processNamespaceEvent now event buf =
      ((frameOf now event).toList.foldl pushFrame buf, frameOf now event) := by
  unfold processNamespaceEvent frameOf
  cases eventObject event with
  | none => rfl
  | some p =>
    obtain ⟨eventType, obj⟩ := p
    simp only [Option.bind_some]
    cases parseConfigObject now obj with
    | none => rfl
    | some snap =>
      simp only [pushReplay, pushFrame, BroadcastFrame.entry, eventRv, Option.map_some,
        Option.getD_some, Option.toList_some, List.foldl_cons, List.foldl_nil,
        snapshotToProto_resourceVersion]
      cases parseU64 snap.resourceVersion <;> rfl

/-- Pushing frames one after the other keeps the last entries. -/
theorem pushFrame_rtake (fs : List BroadcastFrame) (f : BroadcastFrame) :
    pushFrame ((fs.filterMap BroadcastFrame.entry).rtake REPLAY_BUFFER_SIZE) f =
      ((fs ++ [f]).filterMap BroadcastFrame.entry).rtake REPLAY_BUFFER_SIZE := by
  rw [List.filterMap_append, pushFrame]
  cases h : f.entry with
  | none => simp [h]
  | some e =>
    simp only [List.filterMap_cons, h, List.filterMap_nil, Option.toList_some, List.foldl_cons,
      List.foldl_nil]
    exact pushBounded_rtake (by decide) _ e

/-- The buffer after a stream of events, each with the time it was processed. -/
def bufferAfter (events : List (WatchEvent DynamicObject × Instant)) : List ReplayEntry :=
  events.foldl (fun buf p => (processNamespaceEvent p.2 p.1 buf).1) []

/-- The frames of a stream, in order. -/
def framesOf (events : List (WatchEvent DynamicObject × Instant)) : List BroadcastFrame :=
  events.filterMap fun p => frameOf p.2 p.1

theorem framesOf_snoc (events : List (WatchEvent DynamicObject × Instant))
    (p : WatchEvent DynamicObject × Instant) :
    framesOf (events ++ [p]) = framesOf events ++ (frameOf p.2 p.1).toList := by
  rw [framesOf, List.filterMap_append, ← framesOf]
  cases h : frameOf p.2 p.1 <;> simp [h]

/-- **The buffer holds the last events pushed.** -/
theorem bufferAfter_eq : ∀ events : List (WatchEvent DynamicObject × Instant), bufferAfter events =
    ((framesOf events).filterMap BroadcastFrame.entry).rtake REPLAY_BUFFER_SIZE := by
  intro events
  induction events using List.reverseRecOn with
  | nil => rfl
  | append_singleton events p ih =>
    rw [bufferAfter, List.foldl_append, List.foldl_cons, List.foldl_nil, processNamespaceEvent_eq,
      ← bufferAfter, ih, framesOf_snoc]
    cases frameOf p.2 p.1 with
    | none => simp
    | some f => exact pushFrame_rtake (framesOf events) f

/-! ### The snapshot -/

/-- The name and the version of an event. -/
def eventKey (e : ConfigEvent) : Option String × Option Nat :=
  (configEventName e, parseU64 (eventRv e))

theorem raiseRv_le (m : Nat) (snap : ConfigSnapshot) :
    m ≤ raiseRv m snap ∧ ∀ v ∈ parseU64 snap.resourceVersion, v ≤ raiseRv m snap := by
  unfold raiseRv
  cases parseU64 snap.resourceVersion with
  | none => exact ⟨le_rfl, nofun⟩
  | some rv =>
    refine ⟨?_, fun v hv => ?_⟩
    · dsimp only
      split <;> omega
    · obtain rfl := Option.some.inj hv
      dsimp only
      split <;> omega

theorem foldl_raiseRv_le : ∀ (snaps : List ConfigSnapshot) (m : Nat), m ≤ snaps.foldl raiseRv m ∧
    ∀ snap ∈ snaps, ∀ v ∈ parseU64 snap.resourceVersion, v ≤ snaps.foldl raiseRv m := by
  intro snaps
  induction snaps with
  | nil => intro m; simp
  | cons s snaps ih =>
    intro m
    obtain ⟨hm, hs⟩ := raiseRv_le m s
    obtain ⟨hrest, hall⟩ := ih (raiseRv m s)
    refine ⟨hm.trans hrest, fun snap hsnap v hv => ?_⟩
    rcases List.mem_cons.mp hsnap with rfl | hsnap
    · exact (hs v hv).trans hrest
    · exact hall snap hsnap v hv

theorem foldl_raiseRv_lt {v : Nat} : ∀ (snaps : List ConfigSnapshot) (m : Nat), m < v →
    (∀ snap ∈ snaps, ∀ w ∈ parseU64 snap.resourceVersion, w < v) → snaps.foldl raiseRv m < v := by
  intro snaps
  induction snaps with
  | nil => intro m hm _; exact hm
  | cons s snaps ih =>
    intro m hm hall
    refine ih (raiseRv m s) ?_ fun snap hsnap => hall snap (List.mem_cons_of_mem _ hsnap)
    have hs := hall s List.mem_cons_self
    unfold raiseRv
    cases hrv : parseU64 s.resourceVersion with
    | none => exact hm
    | some rv =>
      dsimp only
      split
      · exact hs rv hrv
      · exact hm

theorem le_maxSnapshotRv {snaps : List ConfigSnapshot} {snap : ConfigSnapshot} (h : snap ∈ snaps)
    {v : Nat} (hv : parseU64 snap.resourceVersion = some v) : v ≤ maxSnapshotRv snaps :=
  (foldl_raiseRv_le snaps 0).2 snap h v hv

/-- The cut-off is below a version exactly when every cached version is. -/
theorem maxSnapshotRv_lt_iff {snaps : List ConfigSnapshot} {v : Nat} :
    maxSnapshotRv snaps < v ↔ 0 < v ∧ ∀ snap ∈ snaps, ∀ w ∈ parseU64 snap.resourceVersion, w < v := by
  constructor
  · intro h
    exact ⟨by omega, fun snap hsnap w hw => (le_maxSnapshotRv hsnap hw).trans_lt h⟩
  · intro ⟨hpos, hall⟩
    exact foldl_raiseRv_lt snaps 0 hpos hall

theorem mem_snapshotEvents {filter : SubscribeFilter} {now : Instant} {snaps : List ConfigSnapshot}
    {e : ConfigEvent} (h : e ∈ snapshotEvents filter now snaps) :
    ∃ snap ∈ snaps, filter.allow snap.name snap.labels = true ∧ e.eventType = .snapshot ∧
      eventKey e = (some snap.name, parseU64 snap.resourceVersion) := by
  obtain ⟨snap, hsnap, rfl⟩ := List.mem_map.mp h
  obtain ⟨hsnap, hallow⟩ := List.mem_filter.mp hsnap
  exact ⟨snap, hsnap, hallow, rfl, rfl⟩

/-! ### The order of the buffer -/

/-- What `resume_from_buffer` relies on: the buffer is sorted and bounded, a
version that is there is found, and the slice after it has every greater one. -/
structure ReplayOk (buf : List ReplayEntry) : Prop where
  sorted : (buf.map (·.resourceVersionU64)).Pairwise (· ≤ ·)
  bounded : buf.length ≤ REPLAY_BUFFER_SIZE
  hit : ∀ front, ∀ e ∈ buf, ∃ slice, lookupReplay front buf (some e.resourceVersionU64) = some slice ∧
    ∀ e' ∈ buf, e.resourceVersionU64 < e'.resourceVersionU64 → e'.item ∈ slice

theorem lookupReplay_of_sorted {buf : List ReplayEntry}
    (hs : (buf.map (·.resourceVersionU64)).Pairwise (· ≤ ·)) (front : Nat) {e : ReplayEntry}
    (he : e ∈ buf) : ∃ idx, lookupReplay front buf (some e.resourceVersionU64) =
        some ((buf.drop (idx + 1)).map ReplayEntry.item) ∧
      (buf.map (·.resourceVersionU64))[idx]? = some e.resourceVersionU64 := by
  obtain ⟨idx, hidx⟩ := searchDeque_complete front hs
    (List.mem_map_of_mem (f := (·.resourceVersionU64)) he)
  refine ⟨idx, ?_, searchDeque_sound hidx⟩
  rw [lookupReplay, Option.bind_some, hidx]

/-- In a sorted buffer the entries above an index's version come after it. -/
theorem mem_drop_of_lt {buf : List ReplayEntry}
    (hs : (buf.map (·.resourceVersionU64)).Pairwise (· ≤ ·)) {idx v : Nat}
    (hidx : (buf.map (·.resourceVersionU64))[idx]? = some v) {e : ReplayEntry} (he : e ∈ buf)
    (hlt : v < e.resourceVersionU64) : e ∈ buf.drop (idx + 1) := by
  obtain ⟨j, hj, rfl⟩ := List.getElem_of_mem he
  rw [List.getElem?_map, Option.map_eq_some_iff] at hidx
  obtain ⟨x, hx, rfl⟩ := hidx
  obtain ⟨hil, rfl⟩ := List.getElem?_eq_some_iff.mp hx
  have hij : idx < j := by
    by_contra hcon
    rcases Nat.lt_or_eq_of_le (Nat.le_of_not_lt hcon) with hlt' | heq
    · have hle := List.pairwise_iff_getElem.mp hs j idx (by simpa using hj) (by simpa using hil) hlt'
      rw [List.getElem_map, List.getElem_map] at hle
      omega
    · subst heq
      omega
  rw [List.mem_drop_iff_getElem]
  exact ⟨j - (idx + 1), by omega, by congr 1; omega⟩

theorem replayOk_of_sorted {buf : List ReplayEntry}
    (hs : (buf.map (·.resourceVersionU64)).Pairwise (· ≤ ·))
    (hlen : buf.length ≤ REPLAY_BUFFER_SIZE) : ReplayOk buf := by
  refine ⟨hs, hlen, fun front e he => ?_⟩
  obtain ⟨idx, hlook, hkey⟩ := lookupReplay_of_sorted hs front he
  refine ⟨_, hlook, fun e' he' hlt => ?_⟩
  exact List.mem_map_of_mem (mem_drop_of_lt hs hkey he' hlt)

/-- The numeric versions a stream pushes, in order. -/
def pushedVersions (events : List (WatchEvent DynamicObject × Instant)) : List Nat :=
  ((framesOf events).filterMap BroadcastFrame.entry).map (·.resourceVersionU64)

theorem pushedVersions_grow {pre events : List (WatchEvent DynamicObject × Instant)}
    (h : pre <+: events) : (pushedVersions pre).Sublist (pushedVersions events) :=
  ((h.sublist.filterMap _).filterMap _).map _

/-- A stream's last pushed version is in the buffer, right before the next one. -/
theorem le_of_sorted_snoc {es : List ReplayEntry} {e : ReplayEntry}
    (hes : (es.map (·.resourceVersionU64)).Pairwise (· ≤ ·))
    (hs : (((es ++ [e]).rtake REPLAY_BUFFER_SIZE).map (·.resourceVersionU64)).Pairwise (· ≤ ·)) :
    ((es ++ [e]).map (·.resourceVersionU64)).Pairwise (· ≤ ·) := by
  induction es using List.reverseRecOn with
  | nil => simp
  | append_singleton es x _ =>
    have hxe : x.resourceVersionU64 ≤ e.resourceVersionU64 := by
      have hcut : (es ++ [x] ++ [e]).rtake REPLAY_BUFFER_SIZE =
          es.rtake (REPLAY_BUFFER_SIZE - 2) ++ [x, e] := by
        rw [show REPLAY_BUFFER_SIZE = 998 + 1 + 1 from rfl, List.rtake_concat_succ,
          List.rtake_concat_succ]
        simp
      rw [hcut, List.map_append, List.pairwise_append] at hs
      exact (List.pairwise_cons.mp hs.2.1).1 _ (by simp)
    rw [List.map_append, List.pairwise_append]
    refine ⟨hes, by simp, fun a ha b hb => ?_⟩
    simp only [List.map_cons, List.map_nil, List.mem_singleton] at hb
    subst hb
    rw [List.map_append, List.mem_append] at ha
    rcases ha with ha | ha
    · have hax : a ≤ x.resourceVersionU64 := by
        rw [List.map_append, List.pairwise_append] at hes
        exact hes.2.2 a ha _ (by simp)
      omega
    · simp only [List.map_cons, List.map_nil, List.mem_singleton] at ha
      omega

/-- **The buffer is in order at every point of a stream exactly when the
versions the stream pushes never decrease.** -/
theorem replayOk_iff (events : List (WatchEvent DynamicObject × Instant)) :
    (∀ pre, pre <+: events → ReplayOk (bufferAfter pre)) ↔
      (pushedVersions events).Pairwise (· ≤ ·) := by
  constructor
  -- a version below an earlier one unsorts the buffer the moment it is pushed
  · induction events using List.reverseRecOn with
    | nil => intro _; exact List.Pairwise.nil
    | append_singleton events p ih =>
      intro h
      have hev := ih fun pre hpre => h pre (hpre.trans (List.prefix_append _ _))
      have hlast := (h (events ++ [p]) (List.prefix_refl _)).sorted
      rw [bufferAfter_eq, framesOf_snoc] at hlast
      rw [pushedVersions] at hev
      rw [pushedVersions, framesOf_snoc]
      cases hf : frameOf p.2 p.1 with
      | none => simpa using hev
      | some f =>
        rw [hf] at hlast
        rw [Option.toList_some, List.filterMap_append] at hlast ⊢
        cases he : f.entry with
        | none => simpa [he] using hev
        | some e =>
          simp only [List.filterMap_cons, he, List.filterMap_nil] at hlast ⊢
          exact le_of_sorted_snoc hev hlast
  · intro h pre hpre
    refine replayOk_of_sorted ?_ ?_
    · rw [bufferAfter_eq]
      exact (h.sublist (pushedVersions_grow hpre)).sublist ((rtake_sublist _ _).map _)
    · rw [bufferAfter_eq]
      exact length_rtake_le _ _

/-- A `Config` object at a resource version. -/
def configObject (name resourceVersion : String) (schemaVersion : UInt32) : DynamicObject where
  metadata := { name := some name, ns := some "default", resourceVersion := some resourceVersion }
  data := .object [("spec", .object [("schema_version", .ofU32 schemaVersion)])]

/-- The same config in the cache. -/
def cached (name resourceVersion : String) : ConfigSnapshot where
  name := name
  ns := "default"
  schemaVersion := 1
  content := .object []
  resourceVersion := resourceVersion
  loadedAt := 0

/-- A relist lists by name: `api` is at version 7 and `web` at version 5. -/
def unsortedRelist : List (WatchEvent DynamicObject × Instant) :=
  [(.init, 0), (.initApply (configObject "api" "7" 2), 0), (.initApply (configObject "web" "5" 1), 0),
    (.initDone, 0)]

/-- **One relist can put the buffer out of order.** -/
theorem relist_unsorts : ¬ ∀ pre, pre <+: unsortedRelist → ReplayOk (bufferAfter pre) := by
  intro h
  have hs := (h unsortedRelist (List.prefix_refl _)).sorted
  rw [show (bufferAfter unsortedRelist).map (·.resourceVersionU64) = [7, 5] by decide] at hs
  revert hs
  decide

end Konfig
