import Konfig.Subscribe.Resume

/-!
# What a fresh subscriber receives

On a miss a subscriber gets the cached snapshots, then the buffered events above
the highest cached version, then the live frames.  The cache is filled by another
watcher, and the cut-off is one number for the whole namespace.

`complete_iff` says exactly which configs a drained subscriber has at their
newest version: those cached at that version, those whose newest event is
buffered above everything cached, and those sent after it attached.  A config
that is not cached, and whose newest event is below the version of another config
that is, falls between them (`fresh_misses_config`).
-/

namespace Konfig

open Lib

/-! ### The stream of a subscriber that missed -/

/-- A subscriber that has read the cache and is sending it. -/
def Snapshotting (filter : SubscribeFilter) (now : Instant) (snaps : List ConfigSnapshot)
    (sub : Subscriber) : Prop :=
  match sub.phase with
  | .snapshotting todo maxRv =>
    maxRv = maxSnapshotRv snaps ∧ sub.stream ++ todo = snapshotEvents filter now snaps
  | .replaying _ | .bridging | .closed => True
  | _ => False

theorem Snapshotting.move {filter : SubscribeFilter} {now : Instant} {snaps : List ConfigSnapshot}
    {p : Pump} {sub sub' : Subscriber} {l : SubscriberLabel}
    (h : Snapshotting filter now snaps sub) (hm : sub.Move filter p l sub') :
    Snapshotting filter now snaps sub' := by
  cases hm with
  | attach hphase | hit hphase _ | miss hphase _ | readCache hphase _ =>
    simp only [Snapshotting, hphase] at h
  | snapshot hphase =>
    simp only [Snapshotting, hphase] at h ⊢
    exact ⟨h.1, by simpa using h.2⟩
  | recv hphase _ => simp only [Snapshotting, hphase]
  | take => exact h
  | readBuffer | replay | bridge | close => trivial

theorem Snapshotting.of_readCache {filter : SubscribeFilter} {now : Instant}
    {snaps : List ConfigSnapshot} {p : Pump} {sub sub' : Subscriber} (he : Early filter p.sent sub)
    (hm : sub.Move filter p (.readCache snaps now) sub') :
    Snapshotting filter now snaps sub' := by
  cases hm with
  | readCache hphase hnodup =>
    simp only [Early, hphase] at he
    exact ⟨rfl, by rw [he.1, List.nil_append]⟩
  | close hl => simp at hl

theorem Feed.of_readBuffer {filter : SubscribeFilter} {now : Instant} {snaps : List ConfigSnapshot}
    {p : Pump} {sub sub' : Subscriber} (h : Snapshotting filter now snaps sub)
    (he : Early filter p.sent sub) (hm : sub.Move filter p .readBuffer sub') :
    Feed filter (snapshotEvents filter now snaps) (postSnapshotEvents p.buffer (maxSnapshotRv snaps))
      sub.next p.sent sub' := by
  cases hm with
  | readBuffer hphase =>
    simp only [Snapshotting, Early, hphase, List.append_nil] at h he
    obtain ⟨rfl, hstream⟩ := h
    exact ⟨rfl, he.1, [], rfl, by simpa using hstream⟩
  | close hl => simp at hl

/-- The subscriber bridges and has received everything that was pushed. -/
def Session.Drained (s : Session) : Prop :=
  s.sub.phase = .bridging ∧ s.sub.next = s.pump.pushed.length

/-- A drained subscriber has the slice and every frame since it attached. -/
theorem Feed.drained {filter : SubscribeFilter} {base : List ConfigEvent} {slice : List ReplayItem}
    {start : Nat} {s : Session} (hf : Feed filter base slice start s.pump.sent s.sub)
    (hd : s.Drained) : s.sub.stream = base ++ allowed filter slice ++
      allowed filter ((s.pump.pushed.drop start).map BroadcastFrame.item) := by
  obtain ⟨hphase, hnext⟩ := hd
  simp only [Feed, hphase] at hf
  obtain ⟨_, hle, hstream⟩ := hf
  have hsent : s.pump.sent = s.pump.pushed := by
    refine s.pump.sent_pushed.eq_of_length_le ?_
    omega
  rw [hstream, hnext, hsent, List.take_length]

/-! ### The keys in a stream -/

/-- A filter that asks for nothing lets every named event pass. -/
theorem key_mem_allowed_all {items : List ReplayItem} {name : String} {v : Option Nat} :
    (∃ e ∈ allowed .all items, eventKey e = (some name, v)) ↔
      ∃ it ∈ items, eventKey it.1 = (some name, v) := by
  constructor
  · rintro ⟨e, he, hkey⟩
    obtain ⟨it, hit, rfl⟩ := List.mem_map.mp he
    exact ⟨it, List.mem_of_mem_filter hit, hkey⟩
  · rintro ⟨it, hit, hkey⟩
    refine ⟨it.1, mem_allowed hit ?_, hkey⟩
    have hname : configEventName it.1 = some name := congrArg Prod.fst hkey
    rw [filterAllowsEvent, hname]
    rfl

theorem key_mem_snapshotEvents_all (now : Instant) {snaps : List ConfigSnapshot} {name : String}
    {v : Nat} : (∃ e ∈ snapshotEvents .all now snaps, eventKey e = (some name, some v)) ↔
      ∃ snap ∈ snaps, snap.name = name ∧ parseU64 snap.resourceVersion = some v := by
  constructor
  · rintro ⟨e, he, hkey⟩
    obtain ⟨snap, hsnap, _, _, hsnapKey⟩ := mem_snapshotEvents he
    rw [hsnapKey, Prod.mk.injEq, Option.some.injEq] at hkey
    exact ⟨snap, hsnap, hkey⟩
  · rintro ⟨snap, hsnap, hname, hv⟩
    refine ⟨_, List.mem_map_of_mem (List.mem_filter.mpr ⟨hsnap, SubscribeFilter.allow_all _ _⟩), ?_⟩
    rw [← hname, ← hv]
    rfl

theorem key_mem_postSnapshotEvents {p : Pump} (hi : p.Inv) {maxRv v : Nat} {name : String} :
    (∃ it ∈ postSnapshotEvents p.buffer maxRv, eventKey it.1 = (some name, some v)) ↔
      (∃ e ∈ p.buffer, eventKey e.event = (some name, some v)) ∧ maxRv < v := by
  have hfiled : ∀ e ∈ p.buffer, eventKey e.event = (some name, some v) → e.resourceVersionU64 = v := by
    intro e he hkey
    have hrv := hi.entry_rv he
    rw [hkey] at hrv
    exact (Option.some.inj hrv).symm
  constructor
  · rintro ⟨it, hit, hkey⟩
    obtain ⟨e, he, rfl⟩ := List.mem_map.mp hit
    obtain ⟨he, hlt⟩ := List.mem_filter.mp he
    rw [hfiled e he hkey, decide_eq_true_eq] at hlt
    exact ⟨⟨e, he, hkey⟩, hlt⟩
  · rintro ⟨⟨e, he, hkey⟩, hlt⟩
    refine ⟨e.item, List.mem_map_of_mem (List.mem_filter.mpr ⟨he, ?_⟩), hkey⟩
    rw [hfiled e he hkey]
    exact decide_eq_true hlt

/-! ### Completeness -/

/-- A subscriber without filter that missed: `snaps` is what it found in the
cache, `read` where it then read the buffer, and `s` the end. -/
def FreshRun (coalesced : Bool) (resumeRv : String) (snaps : List ConfigSnapshot) (read s : Session) :
    Prop :=
  ∃ before mid after now s₀ s₁ s₂,
    run (Session.step coalesced .all) (.new resumeRv) before = some s₀ ∧
    s₀.step coalesced .all (.sub (.readCache snaps now)) = some s₁ ∧
    run (Session.step coalesced .all) s₁ mid = some read ∧
    read.step coalesced .all (.sub .readBuffer) = some s₂ ∧
    run (Session.step coalesced .all) s₂ after = some s

theorem FreshRun.of_run {coalesced : Bool} {resumeRv : String} {snaps : List ConfigSnapshot}
    {now : Instant} {before mid after : List SessionLabel} {read s : Session}
    (hread : run (Session.step coalesced .all) (.new resumeRv)
      (before ++ .sub (.readCache snaps now) :: mid) = some read)
    (hs : run (Session.step coalesced .all) (.new resumeRv)
      ((before ++ .sub (.readCache snaps now) :: mid) ++ .sub .readBuffer :: after) = some s) :
    FreshRun coalesced resumeRv snaps read s := by
  obtain ⟨s₀, s₁, h₀, h₁, hmid⟩ := run_append_cons.mp hread
  obtain ⟨read', s₂, hread', h₂, hafter⟩ := run_append_cons.mp hs
  obtain rfl := Option.some.inj (hread.symm.trans hread')
  exact ⟨before, mid, after, now, s₀, s₁, s₂, h₀, h₁, hmid, h₂, hafter⟩

/-- `v` is the highest version pushed for a config. -/
def Newest (pushed : List BroadcastFrame) (name : String) (v : Nat) : Prop :=
  (∃ f ∈ pushed, eventKey f.event = (some name, some v)) ∧
    ∀ f ∈ pushed, configEventName f.event = some name → ∀ w ∈ f.rv, w ≤ v

instance (pushed : List BroadcastFrame) (name : String) (v : Nat) :
    Decidable (Newest pushed name v) := inferInstanceAs (Decidable (_ ∧ _))

/-- The subscriber has every config that occurs in the buffer at its newest version. -/
def Complete (buf : List ReplayEntry) (s : Session) : Prop :=
  ∀ name, (∃ e ∈ buf, configEventName e.event = some name) → ∀ v, Newest s.pump.pushed name v →
    ∃ e ∈ s.sub.stream, eventKey e = (some name, some v)

/-- A version of a config is cached, or buffered above everything cached, or
among the frames that come live. -/
def Covered (snaps : List ConfigSnapshot) (buf : List ReplayEntry) (live : List BroadcastFrame)
    (name : String) (v : Nat) : Prop :=
  (∃ snap ∈ snaps, snap.name = name ∧ parseU64 snap.resourceVersion = some v) ∨
  ((∃ e ∈ buf, eventKey e.event = (some name, some v)) ∧ 0 < v ∧
    ∀ snap ∈ snaps, ∀ w ∈ parseU64 snap.resourceVersion, w < v) ∨
  ∃ f ∈ live, eventKey f.event = (some name, some v)

/-- What a drained subscriber has, version by version. -/
theorem FreshRun.key_mem_stream {coalesced : Bool} {resumeRv : String} {snaps : List ConfigSnapshot}
    {read s : Session} (h : FreshRun coalesced resumeRv snaps read s) (hd : s.Drained) (name : String)
    (v : Nat) : (∃ e ∈ s.sub.stream, eventKey e = (some name, some v)) ↔
      Covered snaps read.pump.buffer (s.pump.pushed.drop read.sub.next) name v := by
  obtain ⟨before, mid, after, now, s₀, s₁, s₂, h₀, h₁, hmid, h₂, hafter⟩ := h
  obtain ⟨hs₁, hpump₁⟩ := Session.step_sub h₁
  obtain ⟨hs₂, hpump₂⟩ := Session.step_sub h₂
  have hread := run_append_cons.mpr ⟨s₀, s₁, h₀, h₁, hmid⟩
  have hsnap : Snapshotting .all now snaps read.sub :=
    Session.run_inv (fun _ sub => Snapshotting .all now snaps sub) (fun _ _ _ _ hi _ => hi)
      (fun _ _ _ _ hi hm => hi.move hm)
      (Snapshotting.of_readCache (early_run h₀) (Subscriber.step_move hs₁)) hmid
  have hinv : read.pump.Inv := Session.buffer_run Pump.inv_new hread
  have hfeed := Feed.of_readBuffer hsnap (early_run hread) (Subscriber.step_move hs₂)
  have hfeed₂ : Feed .all (snapshotEvents .all now snaps)
      (postSnapshotEvents read.pump.buffer (maxSnapshotRv snaps)) read.sub.next s₂.pump.sent s₂.sub := by
    rw [hpump₂]
    exact hfeed
  have hlive : (∃ it ∈ (s.pump.pushed.drop read.sub.next).map BroadcastFrame.item,
      eventKey it.1 = (some name, some v)) ↔
      ∃ f ∈ s.pump.pushed.drop read.sub.next, eventKey f.event = (some name, some v) := by
    simp only [List.mem_map, exists_exists_and_eq_and]
    rfl
  -- the drained stream is the snapshot, the slice after it and everything sent since
  rw [(feed_run hfeed₂ hafter).drained hd, Covered, ← key_mem_snapshotEvents_all now,
    ← maxSnapshotRv_lt_iff, ← key_mem_postSnapshotEvents hinv, ← key_mem_allowed_all, ← hlive,
    ← key_mem_allowed_all]
  simp only [List.mem_append, or_and_right, exists_or, or_assoc]

/-- **Which configs a fresh subscriber has at their newest version.** -/
theorem complete_iff {coalesced : Bool} {resumeRv : String} {snaps : List ConfigSnapshot}
    {read s : Session} (h : FreshRun coalesced resumeRv snaps read s) (hd : s.Drained)
    (buf : List ReplayEntry) : Complete buf s ↔
      ∀ name, (∃ e ∈ buf, configEventName e.event = some name) → ∀ v, Newest s.pump.pushed name v →
        Covered snaps read.pump.buffer (s.pump.pushed.drop read.sub.next) name v := by
  unfold Complete
  simp only [h.key_mem_stream hd]

def Session.isDrained (s : Session) : Bool :=
  match s.sub.phase with
  | .bridging => decide (s.sub.next = s.pump.pushed.length)
  | _ => false

theorem Session.drained_of_isDrained {s : Session} (h : s.isDrained = true) : s.Drained := by
  unfold Session.isDrained at h
  split at h
  · exact ⟨‹_›, of_decide_eq_true h⟩
  · cases h

/-- The one config of a namespace is cached: a fresh subscriber has it. -/
theorem complete_one_config : ∃ read s, FreshRun false "" [cached "limits" "7"] read s ∧ s.Drained ∧
    read.pump.buffer.map (eventKey ·.event) = [(some "limits", some 7)] ∧
    Complete read.pump.buffer s := by
  obtain ⟨read, hread, hbuf⟩ := (Option.any_eq_true _ _).mp
    (show (run (Session.step false .all) (.new "") ([applied "limits" "7", .pump .send, .sub .attach,
        .sub (.lookup 0)] ++ .sub (.readCache [cached "limits" "7"] 0) :: [.sub .emit])).any (fun s =>
          decide (s.pump.buffer.map (eventKey ·.event) = [(some "limits", some 7)])) = true by
      decide +kernel)
  obtain ⟨s, hs, hend⟩ := (Option.any_eq_true _ _).mp
    (show (run (Session.step false .all) (.new "") (([applied "limits" "7", .pump .send, .sub .attach,
        .sub (.lookup 0)] ++ .sub (.readCache [cached "limits" "7"] 0) :: [.sub .emit]) ++
          .sub .readBuffer :: [.sub .emit])).any (fun s => s.isDrained &&
            decide (s.pump.pushed.map (eventKey ·.event) = [(some "limits", some 7)])) = true by
      decide +kernel)
  rw [decide_eq_true_eq] at hbuf
  rw [Bool.and_eq_true, decide_eq_true_eq] at hend
  have hd := Session.drained_of_isDrained hend.1
  have hrun := FreshRun.of_run hread hs
  refine ⟨read, s, hrun, hd, hbuf, (complete_iff hrun hd _).mpr fun name _ v hv => ?_⟩
  obtain ⟨f, hf, hkey⟩ := hv.1
  have hmem := List.mem_map_of_mem (f := (eventKey ·.event)) hf
  rw [hend.2, List.mem_singleton, hkey, Prod.mk.injEq, Option.some.injEq, Option.some.injEq] at hmem
  obtain ⟨rfl, rfl⟩ := hmem
  exact .inl ⟨_, List.mem_cons_self, rfl, by decide⟩

/-- **A fresh subscriber can miss a config.**  `limits` is cached at 7 and `routes`
is not; the last event of `routes` is 5 and was sent before the subscriber came. -/
theorem fresh_misses_config : ¬ ∀ (coalesced : Bool) (resumeRv : String) (snaps : List ConfigSnapshot)
    (read s : Session), FreshRun coalesced resumeRv snaps read s → s.Drained →
      Complete read.pump.buffer s := by
  intro hall
  obtain ⟨read, hread, hbuf⟩ := (Option.any_eq_true _ _).mp
    (show (run (Session.step false .all) (.new "") ([applied "routes" "5", .pump .send,
        applied "limits" "7", .pump .send, .sub .attach, .sub (.lookup 0)] ++
          .sub (.readCache [cached "limits" "7"] 0) :: [.sub .emit])).any (fun s =>
          s.pump.buffer.any fun e => decide (configEventName e.event = some "routes")) = true by
      decide +kernel)
  obtain ⟨s, hs, hend⟩ := (Option.any_eq_true _ _).mp
    (show (run (Session.step false .all) (.new "") (([applied "routes" "5", .pump .send,
        applied "limits" "7", .pump .send, .sub .attach, .sub (.lookup 0)] ++
          .sub (.readCache [cached "limits" "7"] 0) :: [.sub .emit]) ++
          .sub .readBuffer :: [.sub .emit])).any (fun s => s.isDrained &&
            decide (Newest s.pump.pushed "routes" 5) &&
            decide (¬ ∃ e ∈ s.sub.stream, eventKey e = (some "routes", some 5))) = true by
      decide +kernel)
  rw [List.any_eq_true] at hbuf
  rw [Bool.and_eq_true, Bool.and_eq_true, decide_eq_true_eq, decide_eq_true_eq] at hend
  obtain ⟨⟨hd, hnewest⟩, hmissing⟩ := hend
  obtain ⟨e, he, hname⟩ := hbuf
  exact hmissing (hall _ _ _ read s (FreshRun.of_run hread hs) (Session.drained_of_isDrained hd)
    "routes" ⟨e, he, of_decide_eq_true hname⟩ 5 hnewest)

end Konfig
