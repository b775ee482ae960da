import Konfig.Subscribe.Session

/-!
# Resuming from the buffer leaves no gap

A subscriber attaches to the broadcast first and reads the buffer later, and the
pump pushes a frame into the buffer first and sends it later.  So a frame that
was sent before the subscriber attached is in what it reads, and every other
frame reaches it through the broadcast.

* `lookupReplay_hit`: while the versions pushed increase, a resume version that
  is still buffered is found, and the slice is every pushed frame above it.
* `Subscriber.behind`: how many steps of its own a subscriber is away from the
  frames sent so far.  Its steps count it down, whatever the pump does meanwhile.
* `resume_no_gap`: after that many steps the stream has every frame above the
  resume version that the filter allows.
-/

namespace Konfig

open Lib

/-! ### Increasing versions -/

def BroadcastFrame.rv (f : BroadcastFrame) : Option Nat := parseU64 (eventRv f.event)

/-- The frame has a numeric version above `r`. -/
def BroadcastFrame.above (r : Nat) (f : BroadcastFrame) : Bool := f.rv.any fun v => decide (r < v)

theorem BroadcastFrame.above_iff {r : Nat} {f : BroadcastFrame} :
    f.above r = true ↔ ∃ v, f.rv = some v ∧ r < v := by
  simp [BroadcastFrame.above, Option.any_eq_true]

/-- Every frame has a numeric version, greater than those before it. -/
def Increasing (fs : List BroadcastFrame) : Prop :=
  (∀ f ∈ fs, f.rv.isSome = true) ∧ fs.Pairwise fun f g => ∀ v ∈ f.rv, ∀ w ∈ g.rv, v < w

instance (fs : List BroadcastFrame) : Decidable (Increasing fs) := inferInstanceAs (Decidable (_ ∧ _))

theorem Increasing.sublist {fs gs : List BroadcastFrame} (h : Increasing gs) (hsub : fs.Sublist gs) :
    Increasing fs :=
  ⟨fun f hf => h.1 f (hsub.subset hf), h.2.sublist hsub⟩

/-- A version belongs to one frame. -/
theorem Increasing.eq_of_rv {fs : List BroadcastFrame} (h : Increasing fs) {f g : BroadcastFrame}
    (hf : f ∈ fs) (hg : g ∈ fs) {v : Nat} (hfv : f.rv = some v) (hgv : g.rv = some v) : f = g := by
  obtain ⟨i, hi, rfl⟩ := List.getElem_of_mem hf
  obtain ⟨j, hj, rfl⟩ := List.getElem_of_mem hg
  rcases Nat.lt_trichotomy i j with hlt | rfl | hlt
  · exact absurd (List.pairwise_iff_getElem.mp h.2 i j hi hj hlt v hfv v hgv) (Nat.lt_irrefl v)
  · rfl
  · exact absurd (List.pairwise_iff_getElem.mp h.2 j i hj hi hlt v hgv v hfv) (Nat.lt_irrefl v)

theorem BroadcastFrame.entry_eq_some {f : BroadcastFrame} {e : ReplayEntry} (h : f.entry = some e) :
    f.rv = some e.resourceVersionU64 ∧ e.item = f.item := by
  obtain ⟨rv, hrv, rfl⟩ := Option.map_eq_some_iff.mp h
  exact ⟨hrv, rfl⟩

theorem Increasing.entries {fs : List BroadcastFrame} (h : Increasing fs) :
    (fs.filterMap BroadcastFrame.entry).Pairwise
      fun e e' => e.resourceVersionU64 < e'.resourceVersionU64 := by
  refine h.2.filterMap _ fun f g hlt e he e' he' => ?_
  exact hlt _ (BroadcastFrame.entry_eq_some he).1 _ (BroadcastFrame.entry_eq_some he').1

/-- An entry's event carries the version it is filed under. -/
theorem Pump.Inv.entry_rv {p : Pump} (hi : p.Inv) {e : ReplayEntry} (he : e ∈ p.buffer) :
    (eventKey e.event).2 = some e.resourceVersionU64 := by
  rw [hi] at he
  obtain ⟨f, _, hf⟩ := List.mem_filterMap.mp ((rtake_sublist _ _).subset he)
  obtain ⟨hrv, hitem⟩ := BroadcastFrame.entry_eq_some hf
  have hevent : e.event = f.event := congrArg Prod.fst hitem
  rw [hevent]
  exact hrv

/-- The entries above a version are those of the frames above it. -/
theorem filter_entries (r : Nat) : ∀ fs : List BroadcastFrame,
    ((fs.filterMap BroadcastFrame.entry).filter fun e => decide (r < e.resourceVersionU64)).map
      ReplayEntry.item = (fs.filter (·.above r)).map BroadcastFrame.item := by
  intro fs
  induction fs with
  | nil => rfl
  | cons f fs ih =>
    cases he : f.entry with
    | none =>
      have habove : f.above r = false := by
        rw [BroadcastFrame.above, BroadcastFrame.rv, Option.map_eq_none_iff.mp he]
        rfl
      rw [List.filterMap_cons_none he, ih, List.filter_cons_of_neg (by simp [habove])]
    | some e =>
      obtain ⟨hrv, hitem⟩ := BroadcastFrame.entry_eq_some he
      have habove : f.above r = decide (r < e.resourceVersionU64) := by
        rw [BroadcastFrame.above, hrv]
        rfl
      rw [List.filterMap_cons_some he, List.filter_cons, List.filter_cons, habove]
      split
      · rw [List.map_cons, List.map_cons, ih, hitem]
      · exact ih

/-- **A buffered version is found, and the slice is every pushed frame above it.** -/
theorem lookupReplay_hit {p : Pump} (hi : p.Inv) (hinc : Increasing p.pushed) (front : Nat)
    {e : ReplayEntry} (he : e ∈ p.buffer) :
    lookupReplay front p.buffer (some e.resourceVersionU64) =
      some ((p.pushed.filter (·.above e.resourceVersionU64)).map BroadcastFrame.item) := by
  have hentries := hinc.entries
  have hsorted : (p.buffer.map (·.resourceVersionU64)).Pairwise (· ≤ ·) := by
    rw [hi, List.pairwise_map]
    exact (hentries.sublist (rtake_sublist _ _)).imp Nat.le_of_lt
  obtain ⟨idx, hlook, hkey⟩ := lookupReplay_of_sorted hsorted front he
  rw [List.getElem?_map, Option.map_eq_some_iff] at hkey
  obtain ⟨x, hx, hxe⟩ := hkey
  obtain ⟨hidx, rfl⟩ := List.getElem?_eq_some_iff.mp hx
  -- the buffer is the end of what was pushed, cut again at the entry found
  have hcut : p.pushed.filterMap BroadcastFrame.entry =
      ((p.pushed.filterMap BroadcastFrame.entry).take
        ((p.pushed.filterMap BroadcastFrame.entry).length - REPLAY_BUFFER_SIZE) ++
          p.buffer.take idx) ++ p.buffer[idx] :: p.buffer.drop (idx + 1) := by
    rw [List.append_assoc, ← List.drop_eq_getElem_cons hidx, List.take_append_drop]
    conv_rhs => rw [hi]
    exact (List.take_append_drop _ _).symm
  rw [hlook, ← filter_entries, ← hxe]
  rw [hcut] at hentries ⊢
  rw [filter_above hentries]

/-- Whatever the lookup finds, it is the pushed frames above the version looked up. -/
theorem lookupReplay_slice {p : Pump} (hi : p.Inv) (hinc : Increasing p.pushed) {front : Nat}
    {rv : Option Nat} {slice : List ReplayItem} (h : lookupReplay front p.buffer rv = some slice) :
    ∃ e ∈ p.buffer, rv = some e.resourceVersionU64 ∧
      slice = (p.pushed.filter (·.above e.resourceVersionU64)).map BroadcastFrame.item := by
  unfold lookupReplay at h
  split at h
  · rename_i idx hidx
    obtain ⟨r, rfl, hsearch⟩ := Option.bind_eq_some_iff.mp hidx
    obtain ⟨e, he, rfl⟩ := List.mem_map.mp (List.mem_of_getElem? (searchDeque_sound hsearch))
    refine ⟨e, he, rfl, ?_⟩
    have hhit := lookupReplay_hit hi hinc front he
    rw [lookupReplay, Option.bind_some, hsearch] at hhit
    exact (Option.some.inj h).symm.trans (Option.some.inj hhit)
  · cases h

/-! ### How far behind a subscriber is -/

/-- The subscriber's own steps, those that put events into its channel. -/
def SessionLabel.own : SessionLabel → Bool
  | .sub .emit | .sub .recv => true
  | _ => false

/-- The steps a subscriber that replays or bridges takes until it has received
the first `target` frames. -/
def Subscriber.behind (target : Nat) (sub : Subscriber) : Nat :=
  match sub.phase with
  | .replaying todo => todo.length + 1 + (target - sub.next)
  | .bridging => target - sub.next
  | _ => 0

theorem Feed.behind_move {filter : SubscribeFilter} {base : List ConfigEvent}
    {slice : List ReplayItem} {start : Nat} {p : Pump} {sub sub' : Subscriber}
    {l : SubscriberLabel} (hf : Feed filter base slice start p.sent sub) (target : Nat)
    (hm : sub.Move filter p l sub') :
    sub'.behind target ≤ sub.behind target - (SessionLabel.sub l).own.toNat := by
  cases hm with
  | attach hphase | hit hphase _ | miss hphase _ | readCache hphase _ | readBuffer hphase
  | snapshot hphase => simp only [Feed, hphase] at hf
  | replay hphase =>
    simp only [Subscriber.behind, hphase, SessionLabel.own, List.length_cons, Bool.toNat_true]
    omega
  | bridge hphase =>
    simp only [Subscriber.behind, hphase, SessionLabel.own, List.length_nil, Bool.toNat_true]
    omega
  | recv hphase _ =>
    simp only [Subscriber.behind, hphase, SessionLabel.own, Bool.toNat_true]
    omega
  | take => exact le_rfl
  | close => exact Nat.zero_le _

/-- Whatever the pump does meanwhile, the subscriber's steps count down. -/
theorem Feed.behind_run {coalesced : Bool} {filter : SubscribeFilter} {base : List ConfigEvent}
    {slice : List ReplayItem} {start : Nat} {s t : Session} {ls : List SessionLabel}
    (hf : Feed filter base slice start s.pump.sent s.sub) (target : Nat)
    (h : run (Session.step coalesced filter) s ls = some t) :
    t.sub.behind target ≤ s.sub.behind target - ls.countP SessionLabel.own := by
  refine run_induction (fun ls u => u.sub.behind target ≤ s.sub.behind target -
    ls.countP SessionLabel.own) (by simp) ?_ ls t h
  intro ls u l v hu hle hstep
  rw [List.countP_append, List.countP_singleton]
  cases l with
  | pump l =>
    rw [(Session.step_pump hstep).2]
    simpa [SessionLabel.own] using hle
  | sub l =>
    obtain ⟨hs, _⟩ := Session.step_sub hstep
    have hmove := (feed_run hf hu).behind_move target (Subscriber.step_move hs)
    cases hown : (SessionLabel.sub l).own with
    | false =>
      rw [hown, Bool.toNat_false] at hmove
      simp only [Bool.false_eq_true, if_false]
      omega
    | true =>
      rw [hown, Bool.toNat_true] at hmove
      simp only [if_true]
      omega

/-- A subscriber that is not behind has every frame sent since it started, and
the slice. -/
theorem Feed.stream_of_behind {filter : SubscribeFilter} {base : List ConfigEvent}
    {slice : List ReplayItem} {start target : Nat} {sent : List BroadcastFrame} {sub : Subscriber}
    (hf : Feed filter base slice start sent sub) (hopen : sub.phase ≠ .closed)
    (hbehind : sub.behind target = 0) :
    (∀ it ∈ slice, filterAllowsEvent filter it.1 it.2 = true → it.1 ∈ sub.stream) ∧
    ∀ i f, start ≤ i → i < target → sent[i]? = some f →
      filterAllowsEvent filter f.event f.labels = true → f.event ∈ sub.stream := by
  cases hphase : sub.phase with
  | replaying todo =>
    simp only [Subscriber.behind, hphase] at hbehind
    omega
  | bridging =>
    simp only [Subscriber.behind, hphase] at hbehind
    simp only [Feed, hphase] at hf
    obtain ⟨_, _, hstream⟩ := hf
    rw [hstream]
    refine ⟨fun it hit hallow => ?_, fun i f hstart htarget hi hallow => ?_⟩
    · exact List.mem_append_left _ (List.mem_append_right _ (mem_allowed hit hallow))
    · have hmem : f ∈ (sent.take sub.next).drop start := by
        refine List.mem_of_getElem? (i := i - start) ?_
        rw [List.getElem?_drop, List.getElem?_take_of_lt (by omega), ← hi]
        congr 1
        omega
      have hitem := mem_allowed (List.mem_map_of_mem (f := BroadcastFrame.item) hmem) hallow
      exact List.mem_append_right _ hitem
  | closed => exact absurd hphase hopen
  | connecting | attached | missed | snapshotting => simp only [Feed, hphase] at hf

/-- A subscriber that is behind can go on; with room in its channel and no lag it
stays connected. -/
theorem Subscriber.own_step (filter : SubscribeFilter) {p : Pump} {sub : Subscriber}
    (hbehind : 0 < sub.behind p.sent.length) (hroom : sub.unread < CHANNEL_CAPACITY)
    (hlag : p.sent.length - sub.next ≤ BROADCAST_CAPACITY) :
    ∃ l sub', (SessionLabel.sub l).own = true ∧ sub.step filter p l = some sub' ∧
      sub'.phase ≠ .closed := by
  cases hphase : sub.phase with
  | replaying todo =>
    refine ⟨.emit, ?_⟩
    cases todo with
    | nil => exact ⟨{ sub with phase := .bridging }, rfl, by simp only [Subscriber.step, hphase],
        fun hclosed => by cases hclosed⟩
    | cons item todo =>
      obtain ⟨event, labels⟩ := item
      by_cases hallow : filterAllowsEvent filter event labels = true
      · exact ⟨{ sub with phase := .replaying todo, stream := sub.stream ++ [event],
                          unread := sub.unread + 1 },
          rfl, by simp only [Subscriber.step, hphase, hallow, Subscriber.trySend, hroom, if_true],
          fun hclosed => by cases hclosed⟩
      · exact ⟨{ sub with phase := .replaying todo }, rfl,
          by simp only [Subscriber.step, hphase, hallow, if_false, Bool.false_eq_true],
          fun hclosed => by cases hclosed⟩
  | bridging =>
    simp only [Subscriber.behind, hphase] at hbehind
    obtain ⟨frame, hframe⟩ : ∃ frame, p.sent[sub.next]? = some frame :=
      ⟨_, List.getElem?_eq_getElem (by omega)⟩
    have hopen : sub.phase ≠ .closed := by simp [hphase]
    refine ⟨.recv, ?_⟩
    by_cases hallow : filterAllowsEvent filter frame.event frame.labels = true
    · exact ⟨{ sub with next := sub.next + 1, stream := sub.stream ++ [frame.event],
                        unread := sub.unread + 1 }, rfl,
        by simp only [Subscriber.step, hphase, hframe, hallow, Subscriber.trySend, hroom,
          Nat.not_lt.mpr hlag, if_true, if_false], hopen⟩
    · exact ⟨{ sub with next := sub.next + 1 }, rfl,
        by simp only [Subscriber.step, hphase, hframe, hallow, Nat.not_lt.mpr hlag, if_false,
          Bool.false_eq_true], hopen⟩
  | connecting | attached | missed | snapshotting | closed =>
    simp only [Subscriber.behind, hphase] at hbehind
    omega

/-! ### No gap -/

/-- **A resumed subscriber misses nothing.**  It looks up a version that is still
buffered while the versions pushed increase.  Then the slice it replays is above
that version; once it has taken as many steps as it was behind, and is still
connected, it has every frame sent by then that is above the version and allowed;
and it can take these steps. -/
theorem resume_no_gap {coalesced : Bool} {filter : SubscribeFilter} {resumeRv : String} {r front : Nat}
    {before after : List SessionLabel} {s₁ s₂ s : Session}
    (h₁ : run (Session.step coalesced filter) (.new resumeRv) before = some s₁)
    (h₂ : s₁.step coalesced filter (.sub (.lookup front)) = some s₂)
    (h : run (Session.step coalesced filter) s₂ after = some s)
    (hinc : Increasing s₁.pump.pushed) (hr : parseResumeRv resumeRv = some r)
    (hbuf : ∃ e ∈ s₁.pump.buffer, e.resourceVersionU64 = r) :
    (∃ slice, s₂.sub.phase = .replaying slice ∧
      ∀ it ∈ slice, ∃ v, parseU64 (eventRv it.1) = some v ∧ r < v) ∧
    (∀ rest t, run (Session.step coalesced filter) s rest = some t → t.sub.phase ≠ .closed →
      s.sub.behind s.pump.sent.length ≤ rest.countP SessionLabel.own →
      ∀ f ∈ s.pump.sent, f.above r = true → filterAllowsEvent filter f.event f.labels = true →
        f.event ∈ t.sub.stream) ∧
    (0 < s.sub.behind s.pump.sent.length → s.sub.unread < CHANNEL_CAPACITY →
      s.pump.sent.length - s.sub.next ≤ BROADCAST_CAPACITY →
      ∃ l t, l.own = true ∧ s.step coalesced filter l = some t ∧ t.sub.phase ≠ .closed) := by
  obtain ⟨e, he, rfl⟩ := hbuf
  obtain ⟨slice, hslice, hlook⟩ : ∃ slice,
      slice = (s₁.pump.pushed.filter (·.above e.resourceVersionU64)).map BroadcastFrame.item ∧
      lookupReplay front s₁.pump.buffer (parseResumeRv s₁.sub.resumeRv) = some slice := by
    refine ⟨_, rfl, ?_⟩
    rw [Session.resumeRv_run h₁]
    exact hr ▸ lookupReplay_hit (Session.buffer_run Pump.inv_new h₁) hinc front he
  obtain ⟨hs₂, hpump⟩ := Session.step_sub h₂
  obtain ⟨hphase, hnext, hfeed⟩ := Feed.of_lookup (early_run h₁) hlook (Subscriber.step_move hs₂)
  rw [← hpump] at hfeed
  refine ⟨⟨slice, hphase, fun it hit => ?_⟩, fun rest t ht hopen hcount f hf habove hallow => ?_,
    fun hbehind hroom hlag => ?_⟩
  · rw [hslice] at hit
    obtain ⟨f, hf, rfl⟩ := List.mem_map.mp hit
    exact BroadcastFrame.above_iff.mp (List.mem_filter.mp hf).2
  · have hfeed_s := feed_run hfeed h
    have hbehind : t.sub.behind s.pump.sent.length = 0 := by
      have hle := hfeed_s.behind_run s.pump.sent.length ht
      omega
    obtain ⟨hreplayed, hlive⟩ := (feed_run hfeed_s ht).stream_of_behind hopen hbehind
    obtain ⟨i, hi, rfl⟩ := List.getElem_of_mem hf
    rcases Nat.lt_or_ge i s₁.sub.next with hlt | hge
    · -- sent before the subscriber attached, so pushed before it looked
      have hpushed : s.pump.sent[i] ∈ s₁.pump.pushed := by
        have hsent : s₁.pump.sent <+: s.pump.sent := hpump ▸ Session.sent_run h
        rw [← hsent.getElem (by omega)]
        exact (Pump.sent_pushed _).subset (List.getElem_mem _)
      have hmem := List.mem_map_of_mem (f := BroadcastFrame.item)
        (List.mem_filter.mpr ⟨hpushed, habove⟩)
      rw [← hslice] at hmem
      exact hreplayed _ hmem hallow
    · refine hlive i _ hge hi ?_ hallow
      rw [(Session.sent_run ht).getElem hi]
      exact List.getElem?_eq_getElem _
  · obtain ⟨l, sub', hown, hl, hopen⟩ := Subscriber.own_step filter hbehind hroom hlag
    refine ⟨.sub l, { s with sub := sub' }, hown, ?_, hopen⟩
    rw [Session.step, hl, Option.map_some]

/-- The pump processes a live event of a config. -/
def applied (name resourceVersion : String) : SessionLabel :=
  .pump (.watch (.apply (configObject name resourceVersion 1)) 0)

/-- A subscriber resumes from version 5 while version 6 is pushed and not sent. -/
theorem resume_no_gap_limits : ∃ s t : Session,
    run (Session.step false .all) (.new "5") ([applied "limits" "5", .pump .send, .sub .attach,
      applied "limits" "6"] ++ [.sub (.lookup 0)] ++ [.pump .send]) = some s ∧
    run (Session.step false .all) s [.sub .emit, .sub .emit, .sub .recv] = some t ∧
    s.pump.sent.map BroadcastFrame.rv = [some 5, some 6] ∧
    ∀ f ∈ s.pump.sent, f.above 5 = true → filterAllowsEvent .all f.event f.labels = true →
      f.event ∈ t.sub.stream := by
  obtain ⟨s₁, h₁, hread⟩ := (Option.any_eq_true _ _).mp
    (show (run (Session.step false .all) (.new "5") [applied "limits" "5", .pump .send, .sub .attach,
        applied "limits" "6"]).any (fun s => decide (Increasing s.pump.pushed) &&
          s.pump.buffer.any fun e => e.resourceVersionU64 == 5) = true by decide +kernel)
  obtain ⟨s, hs, hsent⟩ := (Option.any_eq_true _ _).mp
    (show (run (Session.step false .all) (.new "5") ([applied "limits" "5", .pump .send, .sub .attach,
        applied "limits" "6"] ++ [.sub (.lookup 0)] ++ [.pump .send])).any (fun s =>
          decide (s.pump.sent.map BroadcastFrame.rv = [some 5, some 6]) &&
          decide (s.sub.behind s.pump.sent.length ≤ 3)) = true by decide +kernel)
  obtain ⟨t, ht, hopen⟩ := (Option.any_eq_true _ _).mp
    (show (run (Session.step false .all) (.new "5") (([applied "limits" "5", .pump .send, .sub .attach,
        applied "limits" "6"] ++ [.sub (.lookup 0)] ++ [.pump .send]) ++
          [.sub .emit, .sub .emit, .sub .recv])).any (fun s =>
            decide (0 < s.sub.behind (s.pump.sent.length + 1))) = true by decide +kernel)
  rw [Bool.and_eq_true, decide_eq_true_eq, List.any_eq_true] at hread
  rw [Bool.and_eq_true, decide_eq_true_eq, decide_eq_true_eq] at hsent
  obtain ⟨e, he, hrv⟩ := hread.2
  obtain ⟨s', hs', ht⟩ := run_append_some ht
  obtain rfl := Option.some.inj (hs.symm.trans hs')
  obtain ⟨s₂, h₂, h⟩ := run_append_some hs
  obtain ⟨s₁', h₁', h₂⟩ := run_append_some h₂
  obtain rfl := Option.some.inj (h₁.symm.trans h₁')
  rw [run_singleton] at h₂
  have hgap := resume_no_gap h₁ h₂ h hread.1 (show parseResumeRv "5" = some 5 by decide)
    ⟨e, he, beq_iff_eq.mp hrv⟩
  refine ⟨s, t, hs, ht, hsent.1, hgap.2.1 _ t ht ?_ hsent.2⟩
  intro hclosed
  simp [Subscriber.behind, hclosed] at hopen

end Konfig
