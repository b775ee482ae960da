import Konfig.Subscribe.Resume

/-!
# Does a stream go back in time?

A subscriber's stream is a snapshot (on a miss), then a slice of the buffer, then
the live frames.  Nothing compares versions where two of them meet, so a frame
that was pushed when the buffer was read, and sent only after the subscriber
attached, comes once more (`stream_goes_back`), and a cache that is ahead of the
pump puts a newer version before an older one.

`stream_forward` says when this does not happen: at each read, no frame that is
still to come live is among what is read, or older than it.
-/

namespace Konfig

open Lib

/-! ### Streams that go forward -/

/-- `b` is not an older version of the same config. -/
def Follows (a b : Option String × Option Nat) : Prop :=
  a.1 = b.1 → ∀ v ∈ a.2, ∀ w ∈ b.2, v ≤ w

instance : DecidableRel Follows := fun _ _ => inferInstanceAs (Decidable (_ → _))

/-- No event comes twice, and no config goes back to an older version. -/
structure Forward (stream : List ConfigEvent) : Prop where
  nodup : stream.Nodup
  ordered : (stream.map eventKey).Pairwise Follows

theorem Forward.sublist {xs ys : List ConfigEvent} (h : Forward ys) (hsub : xs.Sublist ys) :
    Forward xs :=
  ⟨h.nodup.sublist hsub, h.ordered.sublist (hsub.map _)⟩

theorem forward_nil : Forward [] := ⟨List.nodup_nil, List.Pairwise.nil⟩

/-! ### Frames and snapshots -/

def BroadcastFrame.allowedBy (filter : SubscribeFilter) (f : BroadcastFrame) : Bool :=
  filterAllowsEvent filter f.event f.labels

theorem allowed_map_item (filter : SubscribeFilter) (fs : List BroadcastFrame) :
    allowed filter (fs.map BroadcastFrame.item) =
      (fs.filter (·.allowedBy filter)).map BroadcastFrame.event := by
  unfold allowed
  rw [List.filter_map, List.map_map]
  rfl

theorem eventKey_snd (f : BroadcastFrame) : (eventKey f.event).2 = f.rv := rfl

theorem frame_not_snapshot {f : BroadcastFrame} {now : Instant} {event : WatchEvent DynamicObject}
    (h : frameOf now event = some f) : f.event.eventType ≠ .snapshot := by
  obtain ⟨p, hp, hf⟩ := Option.bind_eq_some_iff.mp h
  obtain ⟨snap, _, rfl⟩ := Option.map_eq_some_iff.mp hf
  cases event <;> cases hp <;> nofun

/-- Frames of increasing versions make a stream that goes forward. -/
theorem Increasing.forward {fs : List BroadcastFrame} (h : Increasing fs) :
    Forward (fs.map BroadcastFrame.event) := by
  refine ⟨?_, ?_⟩
  · rw [List.Nodup, List.pairwise_map]
    refine h.2.imp_of_mem fun {f g} hf _ hlt heq => ?_
    obtain ⟨v, hv⟩ := Option.isSome_iff_exists.mp (h.1 f hf)
    have hw : g.rv = some v := by rw [← hv, ← eventKey_snd, ← heq, eventKey_snd]
    exact Nat.lt_irrefl _ (hlt v hv v hw)
  · rw [List.map_map, List.pairwise_map]
    exact h.2.imp fun hlt _ v hv w hw => Nat.le_of_lt (hlt v hv w hw)

/-- Events of distinct names. -/
def DistinctNames (base : List ConfigEvent) : Prop :=
  base.Pairwise fun a b => configEventName a ≠ configEventName b

theorem DistinctNames.forward {base : List ConfigEvent} (h : DistinctNames base) : Forward base := by
  refine ⟨h.imp fun hne heq => hne (by rw [heq]), ?_⟩
  rw [List.pairwise_map]
  exact h.imp fun hne heq => absurd heq hne

theorem snapshotEvents_distinct (filter : SubscribeFilter) (now : Instant) {snaps : List ConfigSnapshot}
    (h : (snaps.map (·.name)).Nodup) : DistinctNames (snapshotEvents filter now snaps) := by
  rw [DistinctNames, snapshotEvents, List.pairwise_map]
  rw [List.Nodup, List.pairwise_map] at h
  refine (h.sublist List.filter_sublist).imp fun hne heq => hne ?_
  simpa [configEventName] using heq

/-- A snapshot, older frames that were replayed after it, and all that has been
pushed: `start` is where the subscriber's receiver began. -/
structure Joined (filter : SubscribeFilter) (base : List ConfigEvent) (fs : List BroadcastFrame)
    (start : Nat) (pushed : List BroadcastFrame) : Prop where
  distinct : DistinctNames base
  snapshot : ∀ e ∈ base, e.eventType = .snapshot
  known : ∀ e ∈ base, ∀ v ∈ (eventKey e).2, ∃ f ∈ pushed, ∃ w ∈ f.rv, v ≤ w
  past : fs.Sublist (pushed.take start)
  later : ∀ e ∈ base, ∀ f ∈ fs ++ pushed.drop start, f.allowedBy filter = true →
    Follows (eventKey e) (eventKey f.event)

theorem Joined.push {filter : SubscribeFilter} {base : List ConfigEvent} {fs : List BroadcastFrame}
    {start : Nat} {pushed gs : List BroadcastFrame} (h : Joined filter base fs start pushed)
    (hstart : start ≤ pushed.length) (hinc : Increasing (pushed ++ gs)) :
    Joined filter base fs start (pushed ++ gs) where
  distinct := h.distinct
  snapshot := h.snapshot
  known e he v hv := by
    obtain ⟨f, hf, hle⟩ := h.known e he v hv
    exact ⟨f, List.mem_append_left _ hf, hle⟩
  past := by
    rw [List.take_append_of_le_length hstart]
    exact h.past
  later e he f hf hallow := by
    rw [List.drop_append_of_le_length hstart, ← List.append_assoc, List.mem_append] at hf
    rcases hf with hf | hf
    · exact h.later e he f hf hallow
    · -- a frame pushed now is above everything pushed before
      intro _ v hv w hw
      obtain ⟨g, hg, x, hx, hle⟩ := h.known e he v hv
      have hlt := (List.pairwise_append.mp hinc.2).2.2 g hg f hf x hx w hw
      omega

theorem Joined.forward {filter : SubscribeFilter} {base xs : List ConfigEvent}
    {fs gs : List BroadcastFrame} {start : Nat} {pushed : List BroadcastFrame}
    (h : Joined filter base fs start pushed) (hinc : Increasing pushed)
    (hlive : ∀ f ∈ pushed, f.event.eventType ≠ .snapshot) (hxs : xs.Sublist base)
    (hgs : gs.Sublist (fs ++ pushed.drop start)) :
    Forward (xs ++ allowed filter (gs.map BroadcastFrame.item)) := by
  rw [allowed_map_item]
  have hpushed : gs.Sublist pushed := by
    refine hgs.trans ?_
    conv_rhs => rw [← List.take_append_drop start pushed]
    exact h.past.append (List.Sublist.refl _)
  have hframes : Forward ((gs.filter (·.allowedBy filter)).map BroadcastFrame.event) :=
    (hinc.sublist (List.filter_sublist.trans hpushed)).forward
  have hbase := h.distinct.forward.sublist hxs
  refine ⟨List.nodup_append'.mpr ⟨hbase.nodup, hframes.nodup, ?_⟩, ?_⟩
  · intro e he hframe
    obtain ⟨f, hf, rfl⟩ := List.mem_map.mp hframe
    exact hlive f (hpushed.subset (List.mem_of_mem_filter hf)) (h.snapshot _ (hxs.subset he))
  · rw [List.map_append, List.pairwise_append]
    refine ⟨hbase.ordered, hframes.ordered, ?_⟩
    simp only [List.mem_map]
    rintro _ ⟨e, he, rfl⟩ _ ⟨_, ⟨f, hf, rfl⟩, rfl⟩
    obtain ⟨hf, hallow⟩ := List.mem_filter.mp hf
    exact h.later e (hxs.subset he) f (hgs.subset hf) hallow

/-! ### What a read may find -/

/-- The frames pushed so far that the subscriber is still to receive live. -/
def Session.pending (filter : SubscribeFilter) (s : Session) : List BroadcastFrame :=
  (s.pump.pushed.drop s.sub.next).filter (·.allowedBy filter)

/-- A hit finds no pending frame above the resume version; a cache is not ahead
of what was pushed, nor of the pending frames of the same config; and the second
read of the buffer finds no pending frame above the snapshot. -/
def InOrder (filter : SubscribeFilter) (s : Session) : SessionLabel → Prop
  | .sub (.lookup _) => ∀ r ∈ parseResumeRv s.sub.resumeRv,
      r ∈ s.pump.buffer.map (·.resourceVersionU64) → ∀ f ∈ s.pending filter, f.above r = false
  | .sub (.readCache snaps _) => ∀ snap ∈ snaps, filter.allow snap.name snap.labels = true →
      ∀ v ∈ parseU64 snap.resourceVersion, (∃ f ∈ s.pump.pushed, ∃ w ∈ f.rv, v ≤ w) ∧
        ∀ f ∈ s.pending filter, configEventName f.event = some snap.name → ∀ w ∈ f.rv, v ≤ w
  | .sub .readBuffer =>
    match s.sub.phase with
    | .snapshotting [] maxRv => ∀ f ∈ s.pending filter, f.above maxRv = false
    | _ => True
  | _ => True

instance (filter : SubscribeFilter) (s : Session) (l : SessionLabel) :
    Decidable (InOrder filter s l) := by
  unfold InOrder
  split
  · infer_instance
  · infer_instance
  · split <;> infer_instance
  · infer_instance

/-- What is read from the buffer, if no pending frame is, was sent before. -/
theorem slice_past {filter : SubscribeFilter} {r start : Nat} {pushed : List BroadcastFrame}
    {slice : List ReplayItem}
    (hslice : slice.Sublist ((pushed.filter (·.above r)).map BroadcastFrame.item))
    (hpending : ∀ f ∈ (pushed.drop start).filter (·.allowedBy filter), f.above r = false) :
    ∃ fs : List BroadcastFrame, fs.Sublist (pushed.take start) ∧ (∀ f ∈ fs, f.above r = true) ∧
      allowed filter slice = allowed filter (fs.map BroadcastFrame.item) := by
  obtain ⟨gs, hgs, rfl⟩ := List.sublist_map_iff.mp hslice
  refine ⟨gs.filter (·.allowedBy filter), ?_, ?_, ?_⟩
  · have hnone : ((pushed.drop start).filter (·.above r)).filter (·.allowedBy filter) = [] := by
      rw [List.filter_filter, List.filter_eq_nil_iff]
      intro f hf hboth
      rw [Bool.and_eq_true] at hboth
      have hfalse := hpending f (List.mem_filter.mpr ⟨hf, hboth.1⟩)
      rw [hboth.2] at hfalse
      cases hfalse
    have hsub := hgs.filter (·.allowedBy filter)
    conv at hsub => rhs; rw [← List.take_append_drop start pushed]
    rw [List.filter_append, List.filter_append, hnone, List.append_nil] at hsub
    exact hsub.trans (List.filter_sublist.trans List.filter_sublist)
  · intro f hf
    exact (List.mem_filter.mp (hgs.subset (List.mem_of_mem_filter hf))).2
  · rw [allowed_map_item, allowed_map_item, List.filter_filter]
    simp only [Bool.and_self]

theorem postSnapshotEvents_sublist {p : Pump} (hi : p.Inv) (maxRv : Nat) :
    (postSnapshotEvents p.buffer maxRv).Sublist
      ((p.pushed.filter (·.above maxRv)).map BroadcastFrame.item) := by
  rw [postSnapshotEvents, ← filter_entries, hi]
  exact ((rtake_sublist _ _).filter _).map _

/-! ### The invariant -/

/-- What has been put into the channel, and what it is made of. -/
def OrderInv (filter : SubscribeFilter) (p : Pump) (sub : Subscriber) : Prop :=
  match sub.phase with
  | .snapshotting todo maxRv => Joined filter (sub.stream ++ todo) [] sub.next p.pushed ∧
      ∀ e ∈ sub.stream ++ todo, ∀ v ∈ (eventKey e).2, v ≤ maxRv
  | .replaying _ | .bridging => ∃ base slice fs start, Feed filter base slice start p.sent sub ∧
      Joined filter base fs start p.pushed ∧
      allowed filter slice = allowed filter (fs.map BroadcastFrame.item)
  | _ => Forward sub.stream

theorem Feed.start_le {filter : SubscribeFilter} {base : List ConfigEvent} {slice : List ReplayItem}
    {start : Nat} {sent : List BroadcastFrame} {sub : Subscriber}
    (hf : Feed filter base slice start sent sub) (hopen : sub.phase ≠ .closed) :
    start ≤ sent.length := by
  cases hphase : sub.phase with
  | replaying todo =>
    simp only [Feed, hphase] at hf
    exact hf.2.1
  | bridging =>
    simp only [Feed, hphase] at hf
    omega
  | closed => exact absurd hphase hopen
  | connecting | attached | missed | snapshotting => simp only [Feed, hphase] at hf

theorem OrderInv.of_feed {filter : SubscribeFilter} {p : Pump} {sub : Subscriber}
    {base : List ConfigEvent} {slice : List ReplayItem} {fs : List BroadcastFrame} {start : Nat}
    (hfeed : Feed filter base slice start p.sent sub) (hopen : sub.phase ≠ .closed)
    (hjoined : Joined filter base fs start p.pushed)
    (hslice : allowed filter slice = allowed filter (fs.map BroadcastFrame.item)) :
    OrderInv filter p sub := by
  cases hphase : sub.phase with
  | replaying | bridging =>
    simp only [OrderInv, hphase]
    exact ⟨base, slice, fs, start, hfeed, hjoined, hslice⟩
  | closed => exact absurd hphase hopen
  | connecting | attached | missed | snapshotting => simp only [Feed, hphase] at hfeed

theorem OrderInv.forward {filter : SubscribeFilter} {p : Pump} {sub : Subscriber}
    (h : OrderInv filter p sub) (hinc : Increasing p.pushed)
    (hlive : ∀ f ∈ p.pushed, f.event.eventType ≠ .snapshot) : Forward sub.stream := by
  cases hphase : sub.phase with
  | snapshotting todo maxRv =>
    simp only [OrderInv, hphase] at h
    simpa using h.1.forward hinc hlive (List.sublist_append_left _ _) (List.nil_sublist _)
  | replaying todo =>
    simp only [OrderInv, hphase] at h
    obtain ⟨base, slice, fs, start, hfeed, hjoined, hslice⟩ := h
    simp only [Feed, hphase] at hfeed
    obtain ⟨_, _, done, rfl, hstream⟩ := hfeed
    have hall := hjoined.forward hinc hlive (List.Sublist.refl _) (List.sublist_append_left fs _)
    rw [← hslice, allowed_append, ← List.append_assoc] at hall
    rw [hstream]
    exact hall.sublist (List.sublist_append_left _ _)
  | bridging =>
    simp only [OrderInv, hphase] at h
    obtain ⟨base, slice, fs, start, hfeed, hjoined, hslice⟩ := h
    simp only [Feed, hphase] at hfeed
    obtain ⟨_, _, hstream⟩ := hfeed
    rw [hstream, hslice, List.append_assoc, ← allowed_append, ← List.map_append]
    refine hjoined.forward hinc hlive (List.Sublist.refl _) ((List.Sublist.refl _).append ?_)
    have hsent : p.sent.take sub.next <+: p.pushed := (List.take_prefix _ _).trans p.sent_pushed
    exact hsent.sublist.drop start
  | connecting | attached | missed | closed => simpa only [OrderInv, hphase] using h

theorem OrderInv.push {filter : SubscribeFilter} {p p' : Pump} {sub : Subscriber} {coalesced : Bool}
    {l : PumpLabel} (h : OrderInv filter p sub) (he : Early filter p.sent sub)
    (hp : p.step coalesced l = some p') (hinc : Increasing p'.pushed) : OrderInv filter p' sub := by
  obtain ⟨gs, hgs⟩ := Pump.pushed_grows hp
  rw [← hgs] at hinc
  have hlen := p.sent_pushed.length_le
  cases hphase : sub.phase with
  | snapshotting todo maxRv =>
    simp only [OrderInv, Early, hphase] at h he ⊢
    exact ⟨hgs ▸ h.1.push (by omega) hinc, h.2⟩
  | replaying todo | bridging =>
    simp only [OrderInv, hphase] at h ⊢
    obtain ⟨base, slice, fs, start, hfeed, hjoined, hslice⟩ := h
    have hstart := hfeed.start_le (by simp [hphase])
    exact ⟨base, slice, fs, start, hfeed.mono (Pump.sent_grows hp),
      hgs ▸ hjoined.push (by omega) hinc, hslice⟩
  | connecting | attached | missed | closed => simpa only [OrderInv, hphase] using h

theorem OrderInv.move {filter : SubscribeFilter} {p : Pump} {sub sub' : Subscriber}
    {l : SubscriberLabel} (h : OrderInv filter p sub) (he : Early filter p.sent sub) (hi : p.Inv)
    (hinc : Increasing p.pushed) (hlive : ∀ f ∈ p.pushed, f.event.eventType ≠ .snapshot)
    (hC : InOrder filter ⟨p, sub⟩ (.sub l)) (hm : sub.Move filter p l sub') :
    OrderInv filter p sub' := by
  cases hm with
  | attach hphase | miss hphase _ => simpa only [OrderInv, hphase] using h
  | hit hphase hlook =>
    simp only [Early, hphase] at he
    -- under the condition what the filter allows of the slice was sent before the attach
    obtain ⟨e, hbuf, hr, rfl⟩ := lookupReplay_slice hi hinc hlook
    obtain ⟨fs, hpast, _, hfs⟩ := slice_past (List.Sublist.refl _)
      (hC _ hr (List.mem_map_of_mem hbuf))
    refine ⟨[], _, fs, sub.next, ⟨rfl, he.2, [], rfl, he.1⟩, ?_, hfs⟩
    exact ⟨List.Pairwise.nil, fun _ hmem => absurd hmem List.not_mem_nil,
      fun _ hmem => absurd hmem List.not_mem_nil, hpast, fun _ hmem => absurd hmem List.not_mem_nil⟩
  | readCache hphase hnodup =>
    simp only [Early, hphase] at he
    simp only [OrderInv, he.1, List.nil_append]
    refine ⟨⟨snapshotEvents_distinct _ _ hnodup, fun e hev => ?_, fun e hev v hv => ?_,
      List.nil_sublist _, fun e hev f hf hallow hname v hv w hw => ?_⟩, fun e hev v hv => ?_⟩ <;>
      obtain ⟨snap, hsnap, hsnapAllow, htype, hkey⟩ := mem_snapshotEvents hev
    · exact htype
    · rw [hkey] at hv
      exact (hC snap hsnap hsnapAllow v hv).1
    · rw [hkey] at hv hname
      exact (hC snap hsnap hsnapAllow v hv).2 f (List.mem_filter.mpr ⟨hf, hallow⟩) hname.symm w hw
    · rw [hkey] at hv
      exact le_maxSnapshotRv hsnap hv
  | readBuffer hphase =>
    rename_i u maxRv
    simp only [OrderInv, Early, hphase, List.append_nil] at h he
    obtain ⟨hjoined, hmax⟩ := h
    simp only [InOrder, hphase] at hC
    obtain ⟨fs, hpast, habove, hfs⟩ := slice_past (postSnapshotEvents_sublist hi maxRv) hC
    refine ⟨sub.stream, _, fs, sub.next, ⟨rfl, he.1, [], rfl, by simp⟩, ?_, hfs⟩
    refine ⟨hjoined.distinct, hjoined.snapshot, hjoined.known, hpast, fun e hev f hf hallow => ?_⟩
    rcases List.mem_append.mp hf with hf | hf
    · -- a replayed frame is above the whole snapshot
      intro _ v hv w hw
      obtain ⟨x, hx, hlt⟩ := BroadcastFrame.above_iff.mp (habove f hf)
      obtain rfl := Option.some.inj (hx.symm.trans hw)
      exact (hmax e hev v hv).trans (Nat.le_of_lt hlt)
    · exact hjoined.later e hev f (by simpa using hf) hallow
  | snapshot hphase =>
    simp only [OrderInv, hphase] at h ⊢
    simpa using h
  | replay hphase =>
    simp only [OrderInv, hphase] at h
    obtain ⟨base, slice, fs, start, hfeed, hjoined, hslice⟩ := h
    exact .of_feed (hfeed.move (.replay hphase)) (fun hclosed => by cases hclosed) hjoined hslice
  | bridge hphase =>
    simp only [OrderInv, hphase] at h
    obtain ⟨base, slice, fs, start, hfeed, hjoined, hslice⟩ := h
    exact .of_feed (hfeed.move (.bridge hphase)) (fun hclosed => by cases hclosed) hjoined hslice
  | recv hphase hframe =>
    simp only [OrderInv, hphase] at h
    obtain ⟨base, slice, fs, start, hfeed, hjoined, hslice⟩ := h
    exact .of_feed (hfeed.move (.recv hphase hframe)) (by simp [hphase]) hjoined hslice
  | take => exact h
  | close => exact h.forward hinc hlive

/-- **In a run whose reads find nothing that is still to come, the stream goes
forward.** -/
theorem stream_forward {coalesced : Bool} {filter : SubscribeFilter} {resumeRv : String}
    {ls : List SessionLabel} {s : Session}
    (h : run (Session.step coalesced filter) (.new resumeRv) ls = some s)
    (hinc : Increasing s.pump.pushed)
    (hC : Along (Session.step coalesced filter) (fun _ => InOrder filter) (.new resumeRv) ls) :
    Forward s.sub.stream := by
  have hlive : ∀ {ls t}, run (Session.step coalesced filter) (.new resumeRv) ls = some t →
      ∀ f ∈ t.pump.pushed, f.event.eventType ≠ .snapshot := by
    intro ls t ht f hf
    obtain ⟨now, event, hframe⟩ := Session.frames_run ht f hf
    exact frame_not_snapshot hframe
  have hinv : Increasing s.pump.pushed → OrderInv filter s.pump s.sub := by
    refine Session.run_kept (InOrder filter) (fun p sub => Increasing p.pushed → OrderInv filter p sub)
      ?_ ?_ ?_ h hC
    · intro ls p sub l p' hrun _ hi hp hinc'
      have hsub := (Pump.pushed_grows hp).sublist
      exact (hi (hinc'.sublist hsub)).push (early_run hrun) hp hinc'
    · intro ls p sub l sub' hrun hc hi hm hinc'
      exact (hi hinc').move (early_run hrun) (Session.buffer_run Pump.inv_new hrun) hinc' (hlive hrun)
        hc hm
    · intro _
      exact forward_nil
  exact (hinv hinc).forward hinc (hlive h)

/-- Two versions are sent before the subscriber attaches, one after it resumed. -/
theorem stream_forward_limits : ∃ s : Session, run (Session.step false .all) (.new "5")
      [applied "limits" "5", .pump .send, applied "limits" "6", .pump .send, .sub .attach,
        .sub (.lookup 0), applied "limits" "7", .sub .emit, .sub .emit, .pump .send, .sub .recv] =
        some s ∧
    s.sub.stream.map eventKey = [(some "limits", some 6), (some "limits", some 7)] ∧
    Forward s.sub.stream := by
  obtain ⟨s, hs, hread⟩ := (Option.any_eq_true _ _).mp
    (show (run (Session.step false .all) (.new "5")
      [applied "limits" "5", .pump .send, applied "limits" "6", .pump .send, .sub .attach,
        .sub (.lookup 0), applied "limits" "7", .sub .emit, .sub .emit, .pump .send, .sub .recv]).any
        (fun s => decide (Increasing s.pump.pushed) && decide (s.sub.stream.map eventKey =
          [(some "limits", some 6), (some "limits", some 7)])) = true by decide +kernel)
  rw [Bool.and_eq_true, decide_eq_true_eq, decide_eq_true_eq] at hread
  exact ⟨s, hs, hread.2, stream_forward hs hread.1 (by decide +kernel)⟩

/-- **A stream can go back.**  Versions 6 and 7 are pushed and wait in the batch
when the subscriber resumes from 5: it replays both, and then gets 6 again. -/
theorem stream_goes_back : ¬ ∀ (coalesced : Bool) (filter : SubscribeFilter) (resumeRv : String)
    (ls : List SessionLabel) (s : Session),
    run (Session.step coalesced filter) (.new resumeRv) ls = some s → Increasing s.pump.pushed →
      Forward s.sub.stream := by
  intro hall
  obtain ⟨s, hs, hread⟩ := (Option.any_eq_true _ _).mp
    (show (run (Session.step true .all) (.new "5")
      [applied "limits" "5", .pump .elapsed, .pump .send, .sub .attach, applied "limits" "6",
        applied "limits" "7", .sub (.lookup 0), .pump .elapsed, .pump .send, .sub .emit, .sub .emit,
        .sub .emit, .sub .recv]).any (fun s => decide (Increasing s.pump.pushed) &&
          decide (¬ (s.sub.stream.map eventKey).Pairwise Follows)) = true by decide +kernel)
  rw [Bool.and_eq_true, decide_eq_true_eq, decide_eq_true_eq] at hread
  exact hread.2 (hall _ _ _ _ s hs hread.1).ordered

end Konfig
