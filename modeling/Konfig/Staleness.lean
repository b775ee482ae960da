import Konfig.Watcher
import Konfig.Consumer.Outage

/-!
# Staleness and the disconnect

What `stale_since` shows of an outage.  The server marks its whole cache at every failed
attempt, so an entry shows the last one; the consumer leaves a marked store alone, so it
shows the first.

* `ConfigWatcher.lose_fromDisconnect`: what one more loss does to an entry.
* `staleness_from_disconnect`: when staleness is measured from the disconnect.
-/

namespace Konfig

open Lib

/-! ### The law -/

/-- An entry shows the first loss since it was written. -/
def ConfigWatcher.FromDisconnect (w : ConfigWatcher) : Prop :=
  ∀ key snap, w.cache.get key = some snap → snap.staleSince = (losses (since key w.journal)).head?

/-- A loss finds no entry that an earlier loss has marked. -/
def ConfigWatcher.NoneMarked (w : ConfigWatcher) : ConfigWatcherLabel → Prop
  | .event _ _ => True
  | .errored now | .ended now => ∀ key snap, w.cache.get key = some snap →
      snap.staleSince = none ∨ snap.staleSince = some now

instance (w : ConfigWatcher) : Decidable w.FromDisconnect :=
  decidable_of_iff _ Map.forall_lookup_iff.symm

instance (w : ConfigWatcher) : ∀ l, Decidable (w.NoneMarked l)
  | .event _ _ => inferInstanceAs (Decidable True)
  | .errored _ | .ended _ => decidable_of_iff _ Map.forall_lookup_iff.symm

/-- Nothing is written under the key from `v` to `w`. -/
def ConfigWatcher.Unwritten (key : Key) (v w : ConfigWatcher) : Prop :=
  ∃ ops, w.journal = v.journal ++ ops ∧ ∀ op ∈ ops, op.writes key = false

/-- From `v` to `w`, what is reported of an entry does not decrease while its outage lasts. -/
def ConfigWatcher.NotDecreased (v w : ConfigWatcher) : Prop :=
  ∀ key snap, v.cache.get key = some snap → snap.staleSince ≠ none → v.Unwritten key w →
    ∃ snap', w.cache.get key = some snap' ∧ ∀ now now', now ≤ now' →
      (snapshotToProto now snap).staleSinceMs ≤ (snapshotToProto now' snap').staleSinceMs

/-! ### Steps -/

theorem ConfigWatcher.get_lose (w : ConfigWatcher) (now : Instant) (attempt : Nat) (key : Key) :
    (w.lose now attempt).cache.get key = (w.cache.get key).map (·.setStale now) :=
  Map.lookup_mapVals _ _ _

theorem ConfigWatcher.fromDisconnect_start : ConfigWatcher.start.FromDisconnect := by
  intro key snap hsnap
  have hnone : ConfigWatcher.start.cache.get key = none := AList.lookup_empty key
  rw [hnone] at hsnap
  cases hsnap

/-- **What one more loss does**: an entry that was marked before shows the new instant. -/
theorem ConfigWatcher.lose_fromDisconnect {w : ConfigWatcher} (h : w.FromDisconnect) (now : Instant)
    (attempt : Nat) : (w.lose now attempt).FromDisconnect ↔ ∀ key snap, w.cache.get key = some snap →
      snap.staleSince = none ∨ snap.staleSince = some now := by
  have hshows : ∀ key snap, w.cache.get key = some snap →
      (losses (since key (w.lose now attempt).journal)).head? = snap.staleSince.or (some now) := by
    intro key snap hsnap
    rw [ConfigWatcher.lose, since_snoc_of_not_writes _ rfl, losses_append, List.head?_append,
      ← h key snap hsnap]
    rfl
  refine ⟨fun hlaw key snap hsnap => ?_, fun hnone key snap' hget => ?_⟩
  · have hget : (w.lose now attempt).cache.get key = some (snap.setStale now) := by
      rw [w.get_lose, hsnap, Option.map_some]
    have hnow : some now = snap.staleSince.or (some now) := by
      rw [← hshows key snap hsnap]
      exact hlaw key _ hget
    cases hs : snap.staleSince with
    | none => exact Or.inl rfl
    | some t =>
      rw [hs, Option.some_or] at hnow
      exact Or.inr hnow.symm
  · rw [w.get_lose, Option.map_eq_some_iff] at hget
    obtain ⟨snap, hsnap, rfl⟩ := hget
    rw [hshows key snap hsnap]
    change some now = _
    rcases hnone key snap hsnap with hs | hs
    · rw [hs, Option.none_or]
    · rw [hs, Option.some_or]

/-- Writes keep the law: what is written is fresh. -/
theorem ConfigWatcher.event_fromDisconnect {w w' : ConfigWatcher} (hinv : w.Inv) (h : w.FromDisconnect)
    {event : WatchEvent DynamicObject} {now : Instant} (hstep : w.step (.event event now) = some w') :
    w'.FromDisconnect := by
  have hinv' := hinv.step hstep
  have hjournal : w'.journal = w.journal ++ w.writes now event := by
    cases hstep
    rfl
  have honly : OnlyWrites (w.writes now event) := by
    intro op hop
    obtain ⟨snap, _, rfl⟩ := List.mem_map.mp hop
    exact ⟨_, _, rfl⟩
  intro key snap hsnap
  rw [hinv'.follows, hjournal] at hsnap
  rw [hjournal]
  refine law_of_writes ?_ ?_ (fun shown ops => shown = (losses ops).head?) ?_ ?_ honly
    (hjournal ▸ hinv'.fresh) ?_ snap hsnap
  · exact fun _ _ => rfl
  · simp
  · intro ops hops
    rw [hops.losses]
    rfl
  · intro shown ops writes hwrites hlaw
    rw [losses_append, hwrites.losses, List.append_nil]
    exact hlaw
  · intro v hv
    rw [← hinv.follows] at hv
    exact h key v hv

theorem ConfigWatcher.step_fromDisconnect {w w' : ConfigWatcher} (hinv : w.Inv) (h : w.FromDisconnect)
    {l : ConfigWatcherLabel} (hstep : w.step l = some w') : w'.FromDisconnect ↔ w.NoneMarked l := by
  cases l with
  | event event now => exact ⟨fun _ => trivial, fun _ => w.event_fromDisconnect hinv h hstep⟩
  | errored now | ended now =>
    cases hstep
    exact w.lose_fromDisconnect h now _

/-- **Measured from the disconnect, what is reported does not decrease**: the instant stays. -/
theorem ConfigWatcher.notDecreased {v w : ConfigWatcher} (hv : v.Inv) (hw : w.Inv)
    (hvlaw : v.FromDisconnect) (hwlaw : w.FromDisconnect) : v.NotDecreased w := by
  rintro key snap hsnap hstale ⟨ops, hjournal, hops⟩
  have hsome : (w.cache.get key).isSome = true := by
    rw [hw.follows, hjournal, entryAfter_eq, Option.isSome_map,
      lastWritten_append key none v.journal ops hops]
    have hold : (v.cache.get key).isSome = true := by rw [hsnap, Option.isSome_some]
    rwa [hv.follows, entryAfter_eq, Option.isSome_map] at hold
  obtain ⟨snap', hsnap'⟩ := Option.isSome_iff_exists.mp hsome
  have hsame : snap'.staleSince = snap.staleSince := by
    have hfirst := hvlaw key snap hsnap
    rw [hwlaw key snap' hsnap', hjournal, since_append_of_not_writes v.journal ops hops, losses_append,
      List.head?_append, ← hfirst]
    cases hs : snap.staleSince with
    | none => exact absurd hs hstale
    | some t => rfl
  refine ⟨snap', hsnap', fun now now' hle => ?_⟩
  rw [snapshotToProto, snapshotToProto, hsame]
  cases snap.staleSince with
  | none => exact Int.le_refl _
  | some t => exact Int.ofNat_le.mpr (Nat.sub_le_sub_right hle t)

/-! ### Runs -/

/-- **Staleness is measured from the disconnect** on the server in exactly the runs in which
no connection is lost while an entry is still marked from an earlier loss; on the consumer in
all runs. -/
theorem staleness_from_disconnect [SerdeJson] :
    (∀ labels w, run ConfigWatcher.step .start labels = some w →
      ((∀ pre post v, labels = pre ++ post → run ConfigWatcher.step .start pre = some v →
        v.FromDisconnect ∧ ∀ mid rest u, post = mid ++ rest → run ConfigWatcher.step v mid = some u →
          v.NotDecreased u) ↔
        Along ConfigWatcher.step (fun _ => ConfigWatcher.NoneMarked) .start labels)) ∧
    ∀ names now labels d, run StreamDriver.step (.start names now) labels = some d → d.FromDisconnect := by
  refine ⟨?_, ?_⟩
  · intro labels w hrun
    have halways := always_iff_along ConfigWatcher.NoneMarked ConfigWatcher.FromDisconnect
      ConfigWatcher.fromDisconnect_start
      (fun as s a t hs hlaw ha => ConfigWatcher.step_fromDisconnect (ConfigWatcher.inv_run hs) hlaw ha)
      labels w hrun
    rw [← halways]
    refine ⟨fun hall pre post v he hv => ?_, fun hall pre post v he hv => ?_⟩
    · exact (hall pre post v he hv).1
    · refine ⟨hall pre post v he hv, fun mid rest u hpost hu => ?_⟩
      have hru : run ConfigWatcher.step .start (pre ++ mid) = some u := by
        rw [run_append, hv, Option.bind_some, hu]
      refine ConfigWatcher.notDecreased (ConfigWatcher.inv_run hv) (ConfigWatcher.inv_run hru)
        (hall pre post v he hv) (hall (pre ++ mid) rest u ?_ hru)
      rw [he, hpost, List.append_assoc]
  · intro names now labels d hrun
    exact (StreamDriver.inv_run hrun).fromDisconnect fun name => Driver.staleSince_new

/-! ### One outage -/

section Outage

/-- Every content is read as the empty object. -/
local instance emptyContent : SerdeJson where
  fromStr _ := .ok (.object [])
  fromValueError _ := "not used"

/-- A config is cached, and the connection is lost twice before it is listed again. -/
def lostTwice : List ConfigWatcherLabel :=
  [.event (.apply (configObject "web" "5" 1)) 0, .errored 10, .errored 20]

/-- A config is cached, listed again after the connection is lost, and lost again. -/
def lostAndRelisted : List ConfigWatcherLabel :=
  [.event (.apply (configObject "web" "5" 1)) 0, .errored 10, .event .init 11,
    .event (.initApply (configObject "web" "7" 2)) 11, .event .initDone 12, .errored 30]

/-- Relisted between two losses, a config is stale since the second, its first loss; a store that
was refused twice is stale since the first. -/
theorem staleness_from_disconnect_relisted :
    (∃ w, run ConfigWatcher.step .start lostAndRelisted = some w ∧ w.FromDisconnect) ∧
    ∃ d, run StreamDriver.step (.start ["web"] 0) [.refused 5, .refused 9] = some d ∧
      d.FromDisconnect := by
  obtain ⟨w, hw⟩ := Option.isSome_iff_exists.mp
    (show (run ConfigWatcher.step .start lostAndRelisted).isSome = true by decide +kernel)
  have hC : Along ConfigWatcher.step (fun _ => ConfigWatcher.NoneMarked) .start lostAndRelisted := by
    decide +kernel
  have hall := (staleness_from_disconnect.1 lostAndRelisted w hw).mpr hC
  refine ⟨⟨w, hw, (hall lostAndRelisted [] w (by simp) hw).1⟩, _, rfl, ?_⟩
  exact staleness_from_disconnect.2 ["web"] 0 [.refused 5, .refused 9] _ rfl

/-- **A failed reconnect restarts the clock**: after losses at 10 and 20 the config is stale since
20. -/
theorem staleness_restarts : ¬ ∀ labels w, run ConfigWatcher.step .start labels = some w →
    w.FromDisconnect := by
  intro hall
  obtain ⟨w, hw, hnot⟩ := (Option.any_eq_true _ _).mp
    (show (run ConfigWatcher.step .start lostTwice).any (fun w => decide (¬ w.FromDisconnect)) = true by
      decide +kernel)
  exact of_decide_eq_true hnot (hall lostTwice w hw)

end Outage

end Konfig
