import Konfig.Subscribe.Pace
import Konfig.Secrets.Snapshot

/-!
# What a full channel does to a stream

Both streams drop a subscriber that is too slow, and tell it so through the channel
that is full.  Whether the reader hears of it depends on what it takes between the
two writes (`losses_told_iff`).

`SubscribeSecrets` puts the whole snapshot into the channel before it hands out the
response, so a snapshot that is larger than the channel never arrives.  The snapshot
of `Subscribe` is sent beside the reader by a task that does not wait for it: all of it
arrives exactly when the reader is never `CHANNEL_CAPACITY` events behind, and in every
schedule exactly when it fits into the channel (`snapshot_whole_iff`).
-/

namespace Konfig

open Lib

/-! ### Losses -/

/-- The receiver has lagged, and has not noticed. -/
def SecretSession.overrun (s : SecretSession) : Bool :=
  match s.sub.phase with
  | .bridging => SECRET_BROADCAST_CAPACITY < s.watcher.sent.length - s.sub.next
  | _ => false

/-- An error that is written finds room, the raw watch does not fail, and a drain finds
no lag. -/
def SecretSession.Heard (s : SecretSession) : SecretLabel → Prop
  | .sub .report => s.sub.out.queue.length < SECRET_CHANNEL_CAPACITY
  | .sub .rawFailed => False
  | .sub .drain => s.overrun = false
  | _ => True

theorem SecretSession.overrun_of_bridging {s : SecretSession} (h : s.sub.phase = .bridging) :
    s.overrun = decide (SECRET_BROADCAST_CAPACITY < s.watcher.sent.length - s.sub.next) := by
  rw [SecretSession.overrun, h]

theorem SecretSession.overrun_of_watching {s : SecretSession} (h : s.sub.phase = .watching) :
    s.overrun = false := by
  rw [SecretSession.overrun, h]

theorem SecretSession.drives (req : SubscribeSecretsRequest) (served : Bool) :
    Emitter.Drives SECRET_CHANNEL_CAPACITY subscriberTooSlow (SecretSession.step req served)
      (fun s => s.sub.out) SecretSession.Heard := by
  intro s l t h
  obtain ⟨l', w, rfl, hw, rfl⟩ | ⟨l', sub, rfl, hsub, rfl⟩ := SecretSession.step_cases h
  · exact Or.inl ⟨rfl, trivial⟩
  · cases SecretSubscriber.move_of_step hsub with
    | read | resume | subscribe | reject | started | rawSkipped => exact Or.inl ⟨rfl, trivial⟩
    | emit hphase hout => exact Or.inr ⟨_, hout, Iff.rfl⟩
    | recv hphase hsent hout => exact Or.inr ⟨_, hout, Iff.rfl⟩
    | lagged hphase hlag hout => exact Or.inr ⟨_, hout, Iff.rfl⟩
    | startFailed hphase hout => exact Or.inr ⟨_, hout, Iff.rfl⟩
    | raw hphase hoffered hevent hout => exact Or.inr ⟨_, hout, Iff.rfl⟩
    | rawError hphase hout => exact Or.inr ⟨_, hout, Iff.rfl⟩
    | rawFailed hphase hout => exact Or.inr ⟨_, hout, Iff.rfl⟩
    | overrun hphase hlag hout =>
      refine Or.inr ⟨_, hout, iff_of_false (fun h => ?_) id⟩
      have hover : s.overrun = true := by
        rw [SecretSession.overrun_of_bridging hphase]
        exact decide_eq_true hlag
      rw [SecretSession.Heard, hover] at h
      cases h
    | finish hphase hl hlag hout =>
      refine Or.inr ⟨_, hout, iff_of_true ?_ trivial⟩
      rcases hl with rfl | rfl | rfl
      · trivial
      · trivial
      · rcases hphase with hphase | hphase
        · rw [SecretSession.Heard, SecretSession.overrun_of_bridging hphase]
          exact decide_eq_false (hlag hphase)
        · exact SecretSession.overrun_of_watching hphase
    | report hout => exact Or.inr ⟨_, hout, Iff.rfl⟩
    | take hret hout => exact Or.inr ⟨_, hout, Iff.rfl⟩
    | hangUp hret hout => exact Or.inr ⟨_, hout, Iff.rfl⟩

def ConfigSession.overrun (s : ConfigSession) : Bool :=
  BROADCAST_CAPACITY < s.pump.sent.length - s.sub.next

/-- An error that is written finds room, and a drain finds no lag. -/
def ConfigSession.Heard (s : ConfigSession) : ConfigSessionLabel → Prop
  | .sub .report => s.sub.out.queue.length < CHANNEL_CAPACITY
  | .sub .drain => s.overrun = false
  | _ => True

theorem ConfigSession.drives (coalesced : Bool) (filter : SubscribeFilter) :
    Emitter.Drives CHANNEL_CAPACITY subscriberTooSlow (ConfigSession.step coalesced filter)
      (fun s => s.sub.out) ConfigSession.Heard := by
  intro s l t h
  obtain ⟨l', p, rfl, hp, rfl⟩ | ⟨l', sub, rfl, hsub, rfl⟩ := ConfigSession.step_cases h
  · exact Or.inl ⟨rfl, trivial⟩
  · cases ConfigSubscriber.move_of_step hsub with
    | attach | hit | miss | readCache | readBuffer | skip | bridge | pass => exact Or.inl ⟨rfl, trivial⟩
    | snapshot hphase hout => exact Or.inr ⟨_, hout, Iff.rfl⟩
    | replay hphase hallow hout => exact Or.inr ⟨_, hout, Iff.rfl⟩
    | recv hphase hframe hallow hout => exact Or.inr ⟨_, hout, Iff.rfl⟩
    | lagged hphase hlag hout => exact Or.inr ⟨_, hout, Iff.rfl⟩
    | overrun hphase hlag hout =>
      refine Or.inr ⟨_, hout, iff_of_false (fun h => ?_) id⟩
      exact of_decide_eq_false h hlag
    | finish hphase hl hlag hout =>
      refine Or.inr ⟨_, hout, iff_of_true ?_ trivial⟩
      rcases hl with rfl | rfl
      · trivial
      · exact decide_eq_false hlag
    | report hout => exact Or.inr ⟨_, hout, Iff.rfl⟩
    | take hout => exact Or.inr ⟨_, hout, Iff.rfl⟩
    | hangUp hout => exact Or.inr ⟨_, hout, Iff.rfl⟩

/-- **A reader learns of a loss exactly when every step of the run is heard**, on both
kinds of stream. -/
theorem losses_told_iff (req : SubscribeSecretsRequest) (served : Bool) (cache : SecretCache)
    (secretLabels : List SecretLabel) (t : SecretSession) (coalesced : Bool) (filter : SubscribeFilter)
    (resumeRv : String) (configLabels : List ConfigSessionLabel) (s : ConfigSession) :
    (run (SecretSession.step req served) (.start cache) secretLabels = some t →
      t.sub.out.Finished → t.sub.out.lost = true →
      ((∃ e, t.sub.out.received.getLast? = some (.error e)) ↔
        Along (SecretSession.step req served) (fun _ => SecretSession.Heard) (.start cache)
          secretLabels)) ∧
    (run (ConfigSession.step coalesced filter) (.new resumeRv) configLabels = some s →
      s.sub.out.Finished → s.sub.out.lost = true →
      ((∃ e, s.sub.out.received.getLast? = some (.error e)) ↔
        Along (ConfigSession.step coalesced filter) (fun _ => ConfigSession.Heard) (.new resumeRv)
          configLabels)) :=
  ⟨fun hrun hf hl => Emitter.told_iff (SecretSession.drives req served) rfl hrun hf hl,
    fun hrun hf hl => Emitter.told_iff (ConfigSession.drives coalesced filter) rfl hrun hf hl⟩

instance (s : SecretSession) : ∀ l, Decidable (SecretSession.Heard s l)
  | .sub .report => inferInstanceAs (Decidable (_ < _))
  | .sub .rawFailed => isFalse id
  | .sub .drain => inferInstanceAs (Decidable (_ = _))
  | .watcher _ | .sub (.read _ _) | .sub .emit | .sub .join | .sub .recv | .sub .senderGone | .sub .started
  | .sub (.startFailed _) | .sub (.raw _ _) | .sub .rawEnded | .sub .take | .sub .hangUp => isTrue trivial

/-- A resume whose raw watch does not start. -/
def watchRefused : List SecretLabel :=
  [.sub (.read [] 0), .sub .join, .sub (.startFailed "gone"), .sub .report, .sub .take]

theorem watch_refused_told : ∃ t,
    run (SecretSession.step ⟨"trading", [], "7"⟩ true) (.start ∅) watchRefused = some t ∧
      t.sub.out.Finished ∧ t.sub.out.lost = true ∧
      ∃ e, t.sub.out.received.getLast? = some (.error e) := by
  obtain ⟨t, ht, hread⟩ := (Option.any_eq_true _ _).mp
    (show (run (SecretSession.step ⟨"trading", [], "7"⟩ true) (.start ∅) watchRefused).any (fun t =>
      t.sub.out.stage = .ended && t.sub.out.queue.isEmpty && !t.sub.out.gone && t.sub.out.lost) = true by
      decide +kernel)
  simp only [Bool.and_eq_true, decide_eq_true_eq, Bool.not_eq_true'] at hread
  obtain ⟨⟨⟨hend, hempty⟩, hgone⟩, hlost⟩ := hread
  have hfin : t.sub.out.Finished := ⟨hend, List.isEmpty_iff.mp hempty, hgone⟩
  have htold := (losses_told_iff ⟨"trading", [], "7"⟩ true ∅ watchRefused t false .all "" [] (.new "")).1
    ht hfin hlost
  exact ⟨t, ht, hfin, hlost, htold.mpr (by decide +kernel)⟩

theorem loss_not_told :
    ¬ ∀ (req : SubscribeSecretsRequest) (served : Bool) (cache : SecretCache) (labels : List SecretLabel)
      (t : SecretSession), run (SecretSession.step req served) (.start cache) labels = some t →
      t.sub.out.Finished → t.sub.out.lost = true →
      ∃ e, t.sub.out.received.getLast? = some (.error e) := by
  intro hall
  obtain ⟨labels, t, ht, _, _, hfin, hlost, events, hevents⟩ :=
    overfull_stream ⟨"trading", [], ""⟩ true (crowdedCache 257)
      (by rw [crowdedCache_length]; decide)
  obtain ⟨e, he⟩ := hall _ _ _ _ t ht hfin hlost
  rw [hevents] at he
  obtain ⟨event, _, heq⟩ := List.mem_map.mp (List.mem_of_getLast? he)
  cases heq

/-! ### Snapshots of any size -/

/-- A served call hands out its response, and that stream has the whole snapshot and is
live exactly when the snapshot fits into the channel.

A fresh `Subscribe` whose reader stays gets there or was cut short.  It gets there exactly when,
before each send, the reader has taken all but fewer than `CHANNEL_CAPACITY` of the events before
it, and so in every schedule of the task and its reader exactly when the allowed entries and the
buffered events after them fit into the channel. -/
theorem snapshot_whole_iff (req : SubscribeSecretsRequest) (served : Bool) (cache : SecretCache)
    (secretLabels : List SecretLabel) (t : SecretSession) (coalesced : Bool) (filter : SubscribeFilter)
    (configLabels : List ConfigSessionLabel) (s : ConfigSession) :
    (run (SecretSession.step req served) (.start cache) secretLabels = some t →
      (t.sub.returned = true → (t.sub.Whole ↔ t.sub.content.length ≤ SECRET_CHANNEL_CAPACITY)) ∧
      (req.resumeResourceVersion ≠ "" ∨ served = true → t.sub.phase ≠ .rejected →
        ∃ t', Reaches (SecretSession.step req served) (fun _ _ => True) t t' ∧ t'.sub.returned = true)) ∧
    (run (ConfigSession.step coalesced filter) (.new "") configLabels = some s →
      .sub .hangUp ∉ configLabels →
      (s.sub.Through → (s.sub.Whole filter ↔
        Along (ConfigSession.step coalesced filter) (ConfigSession.Paced filter) (.new "") configLabels)) ∧
      (∀ before snaps now, configLabels = before ++ [.sub (.readCache snaps now)] →
        ((∀ s', Reaches (ConfigSession.step coalesced filter) ConfigSession.Scheduled s s' →
          s'.sub.Through → s'.sub.Whole filter) ↔
        (snapshotEvents filter now snaps).length +
          (allowed filter (postSnapshotEvents s.pump.buffer (maxSnapshotRv snaps))).length ≤
            CHANNEL_CAPACITY)) ∧
      (s.sub.Cut ∨ ∃ s', Reaches (ConfigSession.step coalesced filter) ConfigSession.Scheduled s s' ∧
        s'.sub.Whole filter)) := by
  constructor
  · intro hrun
    have hfill := filling_of_run hrun
    exact ⟨fun hret => hfill.whole_iff hret, fun hserved hrej => hfill.returns hserved hrej⟩
  · intro hrun hstay
    refine ⟨fun hthrough => whole_iff_paced hrun hstay hthrough, ?_, ?_⟩
    · intro before snaps now hlabels
      subst hlabels
      rw [List.mem_append, not_or] at hstay
      exact whole_iff_read hrun hstay.1
    · rcases serving_or_cut hrun hstay with hserving | hcut
      · exact Or.inr (hserving.reaches_whole coalesced filter (ConfigSession.resumeRv_run hrun))
      · exact Or.inl hcut

/-- Two secrets are sent before the response is out. -/
def twoSecretsRead : List SecretLabel :=
  [.sub (.read (crowdedCache 2).keys 0), .sub .emit, .sub .emit, .sub .join]

/-- `n` configs of one namespace. -/
def crowdedSnaps (n : Nat) : List ConfigSnapshot :=
  (List.range n).map fun k =>
    { name := String.ofList (List.replicate k 'a')
      ns := "trading"
      schemaVersion := 1
      content := .null
      resourceVersion := "1"
      loadedAt := 0 }

theorem crowdedSnaps_nodup (n : Nat) : ((crowdedSnaps n).map (·.name)).Nodup := by
  rw [crowdedSnaps, List.map_map]
  refine List.nodup_range.map fun i j heq => ?_
  simpa using congrArg List.length (String.ofList_inj.mp heq)

theorem snapshotEvents_crowdedSnaps (n : Nat) : (snapshotEvents .all 0 (crowdedSnaps n)).length = n := by
  have hall : (crowdedSnaps n).filter (fun snap => SubscribeFilter.all.allow snap.name snap.labels) =
      crowdedSnaps n := List.filter_eq_self.mpr fun snap _ => SubscribeFilter.allow_all snap.name snap.labels
  rw [snapshotEvents, hall, List.length_map, crowdedSnaps, List.length_map, List.length_range]

def crowdedRead (n : Nat) : List ConfigSessionLabel :=
  [.sub .attach, .sub (.lookup 0), .sub (.readCache (crowdedSnaps n) 0)]

/-- Three configs are sent to a reader that takes two of them meanwhile. -/
def threeConfigsRead : List ConfigSessionLabel :=
  crowdedRead 3 ++ [.sub .emit, .sub .take, .sub .emit, .sub .emit, .sub .take, .sub .readBuffer, .sub .emit]

theorem run_crowdedRead (n : Nat) : ∃ s,
    run (ConfigSession.step false .all) (.new "") (crowdedRead n) = some s ∧ s.pump.buffer = [] := by
  let sub : ConfigSubscriber := { ConfigSubscriber.new "" with
    phase := .snapshotting (snapshotEvents .all 0 (crowdedSnaps n)) (maxSnapshotRv (crowdedSnaps n))
    content := crowdedSnaps n }
  refine ⟨{ pump := .new, sub }, ?_, rfl⟩
  show ((if ((crowdedSnaps n).map (·.name)).Nodup then some sub else none).map
    fun sub => ({ pump := .new, sub } : ConfigSession)).bind some = _
  rw [if_pos (crowdedSnaps_nodup n)]
  rfl

theorem snapshot_whole_small :
    (∃ t, run (SecretSession.step ⟨"trading", [], ""⟩ true) (.start (crowdedCache 2)) twoSecretsRead = some t ∧
      t.sub.Whole) ∧
    (∃ s, run (ConfigSession.step false .all) (.new "") threeConfigsRead = some s ∧ s.sub.Whole .all) ∧
    (∃ s, run (ConfigSession.step false .all) (.new "") (crowdedRead 256) = some s ∧
      ∀ s', Reaches (ConfigSession.step false .all) ConfigSession.Scheduled s s' → s'.sub.Through →
        s'.sub.Whole .all) ∧
    ∃ s, run (ConfigSession.step false .all) (.new "") (crowdedRead 257) = some s ∧
      ∃ s', Reaches (ConfigSession.step false .all) ConfigSession.Scheduled s s' ∧ s'.sub.Through ∧
        ¬ s'.sub.Whole .all := by
  refine ⟨?_, ?_, ?_, ?_⟩
  · obtain ⟨t, ht, htread⟩ := (Option.any_eq_true _ _).mp
      (show (run (SecretSession.step ⟨"trading", [], ""⟩ true) (.start (crowdedCache 2)) twoSecretsRead).any
        (fun t => t.sub.returned && decide (t.sub.content.length ≤ SECRET_CHANNEL_CAPACITY)) = true by
        decide +kernel)
    rw [Bool.and_eq_true, decide_eq_true_eq] at htread
    have hsecret := (snapshot_whole_iff ⟨"trading", [], ""⟩ true (crowdedCache 2) twoSecretsRead t false .all []
      (.new "")).1 ht
    exact ⟨t, ht, (hsecret.1 htread.1).mpr htread.2⟩
  · have hphase : (run (ConfigSession.step false .all) (.new "") threeConfigsRead).map (fun s => s.sub.phase) =
        some .bridging := rfl
    obtain ⟨s, hs, hlive⟩ := Option.map_eq_some_iff.mp hphase
    have hstay : .sub .hangUp ∉ threeConfigsRead := by simp [threeConfigsRead, crowdedRead]
    have hpaced := ((paced_or_cut hs hstay).resolve_right fun h => h.2.1 hlive).1
    have hconfig := (snapshot_whole_iff ⟨"trading", [], ""⟩ true ∅ [] (.start ∅) false .all threeConfigsRead s).2
      hs hstay
    exact ⟨s, hs, (hconfig.1 (Or.inl hlive)).mpr hpaced⟩
  · obtain ⟨s, hs, hbuffer⟩ := run_crowdedRead 256
    have hiff := ((snapshot_whole_iff ⟨"trading", [], ""⟩ true ∅ [] (.start ∅) false .all (crowdedRead 256) s).2
      hs (by simp [crowdedRead])).2.1 [.sub .attach, .sub (.lookup 0)] (crowdedSnaps 256) 0 rfl
    refine ⟨s, hs, hiff.mpr ?_⟩
    rw [snapshotEvents_crowdedSnaps, hbuffer]
    decide
  · obtain ⟨s, hs, hbuffer⟩ := run_crowdedRead 257
    have hiff := ((snapshot_whole_iff ⟨"trading", [], ""⟩ true ∅ [] (.start ∅) false .all (crowdedRead 257) s).2
      hs (by simp [crowdedRead])).2.1 [.sub .attach, .sub (.lookup 0)] (crowdedSnaps 257) 0 rfl
    rw [snapshotEvents_crowdedSnaps, hbuffer] at hiff
    have hnot := mt hiff.mp (by decide)
    simp only [not_forall, exists_prop] at hnot
    exact ⟨s, hs, hnot⟩

theorem snapshot_cut_short :
    ¬ ∀ (req : SubscribeSecretsRequest) (served : Bool) (cache : SecretCache) (labels : List SecretLabel)
      (t : SecretSession), run (SecretSession.step req served) (.start cache) labels = some t →
      t.sub.returned = true → t.sub.Whole := by
  intro hall
  obtain ⟨labels, t, ht, hret, hlive, _⟩ :=
    overfull_stream ⟨"trading", [], ""⟩ true (crowdedCache 257)
      (by rw [crowdedCache_length]; decide)
  exact hlive (hall _ _ _ _ t ht hret).1

end Konfig
