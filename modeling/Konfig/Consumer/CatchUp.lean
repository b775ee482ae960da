import Konfig.Consumer.Ledger
import Mathlib.Data.List.Infix

/-!
# Does a consumer catch up?

The consumer's driver and the server's subscriber as one machine: the server
moves as in `Session`, the driver takes one event at a time from the channel, and
the connection can be cut at any point; the driver then subscribes again with the
version of the last event it took.

That cursor is one number, and a snapshot comes in the order of a hash map.  A
connection that is cut after a newer entry and before an older one leaves the
driver with a cursor above a config it has never received, and the next lookup
skips it (`cut_snapshot_skips`).

`catches_up` says when a reconnect does bring everything.
-/

namespace Konfig

open Lib

section

variable [SerdeJson]

/-! ### The two machines together -/

/-- A subscription: the server's side, the driver, and the snapshot that the
current connection found in the cache. -/
structure Link where
  session : Session
  driver : Driver
  snapshot : List ConfigEvent

inductive LinkLabel
  | server (l : SessionLabel)
  | deliver (now : Instant)
  | cut (error : Bool) (now : Instant)
  | refused (now : Instant)

def LinkLabel.isCut : LinkLabel → Bool
  | .cut _ _ => true
  | _ => false

def Link.new (names : List String) (now : Instant) : Link :=
  { session := .new "", driver := .new names now, snapshot := [] }

/-- How many events of this connection the driver has taken. -/
def Link.taken (l : Link) : Nat := l.session.sub.stream.length - l.session.sub.unread

/-- What the connection's snapshot label, if it is one, finds. -/
def foundSnapshot (filter : SubscribeFilter) (old : List ConfigEvent) : SessionLabel → List ConfigEvent
  | .sub (.readCache snaps now) => snapshotEvents filter now snaps
  | _ => old

def Link.step (coalesced : Bool) (l : Link) : LinkLabel → Option Link
  | .server (.sub .take) => none
  | .server label => (l.session.step coalesced (.ofNames l.driver.names) label).map fun session =>
      { l with session, snapshot := foundSnapshot (.ofNames l.driver.names) l.snapshot label }
  | .deliver now =>
    match l.session.step coalesced (.ofNames l.driver.names) (.sub .take),
        l.session.sub.stream[l.taken]? with
    | some session, some event => some { l with session, driver := l.driver.apply now event }
    | _, _ => none
  | .cut error now => some
      { session := { l.session with sub := .new l.driver.resumeRv }
        driver := if error then l.driver.markAllStale now else l.driver
        snapshot := [] }
  | .refused now =>
    match l.session.sub.phase with
    | .connecting => some { l with driver := l.driver.markAllStale now }
    | _ => none

/-- The entries of a snapshot of which some, but not these, were delivered. -/
def undelivered (snapshot : List ConfigEvent) (taken : Nat) : List ConfigEvent :=
  if taken = 0 then [] else snapshot.drop taken

/-- The condition on each step.  A pushed frame has a positive version above those
before it, and content the consumer parses; a cache read finds no version above
what was pushed, and each tracked config at its version unless that is above
everything found; the second read of the buffer still finds each tracked config
that is above the snapshot; and a cut leaves no entry of a part-delivered snapshot
behind the cursor, unless it is held anyway. -/
def Careful (l : Link) : LinkLabel → Prop
  | .server (.pump (.watch event now)) => ∀ f ∈ frameOf now event, Readable f.event ∧
      ∃ v ∈ f.rv, 0 < v ∧ ∀ g ∈ l.session.pump.pushed, ∀ w ∈ g.rv, w < v
  | .server (.sub (.readCache snaps now)) =>
      (∀ snap ∈ snaps, Readable { eventType := .snapshot, config := some (snapshotToProto now snap) } ∧
        ∃ v ∈ parseU64 snap.resourceVersion, Reached l.session.pump.pushed v) ∧
      ∀ n ∈ l.driver.names, ∀ v ∈ currentRv l.session.pump.pushed n,
        (∃ snap ∈ snaps, snap.name = n ∧ parseU64 snap.resourceVersion = some v) ∨
        ∀ snap ∈ snaps, ∀ w ∈ parseU64 snap.resourceVersion, w < v
  | .server (.sub .readBuffer) =>
    match l.session.sub.phase with
    | .snapshotting [] maxRv => ∀ n ∈ l.driver.names, ∀ v ∈ currentRv l.session.pump.pushed n,
        maxRv < v → ∃ e ∈ l.session.pump.buffer, eventKey e.event = (some n, some v)
    | _ => True
  | .cut _ _ => ∀ e ∈ undelivered l.snapshot l.taken, ∀ n ∈ (eventKey e).1, ∀ v ∈ (eventKey e).2,
      (∃ w ∈ l.driver.ledger.held n, v ≤ w) ∨
      ∀ r ∈ parseResumeRv l.driver.ledger.resumeRv, r < v
  | _ => True

instance (l : Link) (label : LinkLabel) : Decidable (Careful l label) := by
  unfold Careful
  split
  · infer_instance
  · infer_instance
  · split <;> infer_instance
  · infer_instance
  · infer_instance

/-! ### The invariant -/

/-- What a snapshot that is being sent is worth. -/
structure SnapshotOk (names : List String) (pushed : List BroadcastFrame) (snapshot : List ConfigEvent)
    (maxRv : Nat) : Prop where
  distinct : DistinctNames snapshot
  entry : ∀ e ∈ snapshot, e.eventType = .snapshot ∧ Readable e ∧
    ∃ v ∈ (eventKey e).2, v ≤ maxRv ∧ Reached pushed v
  bound : ∀ v, maxRv < v ∨ v = 0 ∨ Reached pushed v
  complete : ∀ n ∈ names, ∀ v ∈ currentRv pushed n,
    (∃ e ∈ snapshot, eventKey e = (some n, some v)) ∨ maxRv < v

/-- What the subscriber is working on. -/
def Working (names : List String) (q : List BroadcastFrame) (a : Ledger) (snapshot : List ConfigEvent)
    (p : Pump) (sub : Subscriber) : Prop :=
  match sub.phase with
  | .connecting | .attached | .missed => snapshot = []
  | .snapshotting todo maxRv => sub.stream ++ todo = snapshot ∧
      SnapshotOk names p.pushed snapshot maxRv
  | .replaying _ | .bridging => ∃ fs start read later, p.pushed = read ++ later ∧ q <+: read ∧
      start ≤ read.length ∧ fs.Sublist read ∧
      Feed (.ofNames names) snapshot (fs.map BroadcastFrame.item) start p.sent sub ∧
      Supply names (snapshot.foldl (Ledger.apply names) a) fs read
  | .closed => True

/-- A link whose connection began with the ledger `a`, when `q` had been pushed. -/
structure LinkInv (names : List String) (q : List BroadcastFrame) (a : Ledger) (l : Link) : Prop where
  names_eq : l.driver.names = names
  tracks : l.driver.Tracks
  buffer : l.session.pump.Inv
  increasing : Increasing l.session.pump.pushed
  frames : ∀ f ∈ l.session.pump.pushed, Readable f.event ∧ ∀ v ∈ f.rv, 0 < v
  known : q <+: l.session.pump.pushed
  early : Early (.ofNames names) l.session.pump.sent l.session.sub
  resume : l.session.sub.resumeRv = a.resumeRv
  unread : l.session.sub.unread ≤ l.session.sub.stream.length
  ledger : l.driver.ledger = (l.session.sub.stream.take l.taken).foldl (Ledger.apply names) a
  cursor : ∀ r ∈ parseResumeRv a.resumeRv, Reached l.session.pump.pushed r
  events : ∀ e ∈ l.session.sub.stream, Readable e ∧
    ∀ v ∈ (eventKey e).2, Reached l.session.pump.pushed v
  caught : ∀ k ≤ l.session.sub.stream.length, CaughtAt names l.session.pump.pushed
    (undelivered l.snapshot k) ((l.session.sub.stream.take k).foldl (Ledger.apply names) a)
  working : Working names q a l.snapshot l.session.pump l.session.sub

/-! ### The pump moves -/

theorem SnapshotOk.push {names : List String} {pushed gs : List BroadcastFrame}
    {snapshot : List ConfigEvent} {maxRv : Nat} (h : SnapshotOk names pushed snapshot maxRv)
    (hinc : Increasing (pushed ++ gs)) (hpos : ∀ f ∈ gs, ∀ v ∈ f.rv, 0 < v) :
    SnapshotOk names (pushed ++ gs) snapshot maxRv where
  distinct := h.distinct
  entry e he := by
    obtain ⟨htype, hread, v, hv, hle, hreached⟩ := h.entry e he
    exact ⟨htype, hread, v, hv, hle, hreached.mono⟩
  bound v := by
    rcases h.bound v with hlt | h0 | hreached
    · exact .inl hlt
    · exact .inr (.inl h0)
    · exact .inr (.inr hreached.mono)
  complete n hn v hv := by
    by_cases habsent : ∀ g ∈ gs, configEventName g.event ≠ some n
    · rw [currentRv_append_of_absent habsent] at hv
      exact h.complete n hn v hv
    · push Not at habsent
      obtain ⟨g, hg, hname⟩ := habsent
      rw [currentRv_append_of_present hg hname] at hv
      obtain ⟨f, hf, _, hrv, _⟩ := currentRv_spec (hinc.sublist (List.sublist_append_right _ _)) hv
      rcases h.bound v with hlt | h0 | hreached
      · exact .inr hlt
      · have hlt := hpos f hf v hrv
        omega
      · have hlt := hreached.lt_of_append hinc hf hrv
        omega

theorem Working.push {names : List String} {q : List BroadcastFrame} {a : Ledger}
    {snapshot : List ConfigEvent} {p p' : Pump} {sub : Subscriber} {gs : List BroadcastFrame}
    (h : Working names q a snapshot p sub) (hpushed : p'.pushed = p.pushed ++ gs)
    (hsent : p.sent <+: p'.sent) (hinc : Increasing (p.pushed ++ gs))
    (hpos : ∀ f ∈ gs, ∀ v ∈ f.rv, 0 < v) : Working names q a snapshot p' sub := by
  cases hphase : sub.phase with
  | connecting | attached | missed => simpa only [Working, hphase] using h
  | snapshotting todo maxRv =>
    simp only [Working, hphase] at h ⊢
    exact ⟨h.1, hpushed ▸ h.2.push hinc hpos⟩
  | replaying todo | bridging =>
    simp only [Working, hphase] at h ⊢
    obtain ⟨fs, start, read, later, hsplit, hq, hstart, hfs, hfeed, hsupply⟩ := h
    refine ⟨fs, start, read, later ++ gs, ?_, hq, hstart, hfs, hfeed.mono hsent, hsupply⟩
    rw [hpushed, hsplit, List.append_assoc]
  | closed => simp only [Working, hphase]

theorem LinkInv.push {names : List String} {q : List BroadcastFrame} {a : Ledger} {l : Link} {p' : Pump}
    {gs : List BroadcastFrame} (h : LinkInv names q a l) (hbuf : p'.Inv)
    (hpushed : p'.pushed = l.session.pump.pushed ++ gs) (hsent : l.session.pump.sent <+: p'.sent)
    (hinc : Increasing (l.session.pump.pushed ++ gs))
    (hgs : ∀ f ∈ gs, Readable f.event ∧ ∀ v ∈ f.rv, 0 < v) :
    LinkInv names q a { l with session := { l.session with pump := p' } } where
  names_eq := h.names_eq
  tracks := h.tracks
  buffer := hbuf
  increasing := by rw [hpushed]; exact hinc
  frames f hf := by
    rw [hpushed, List.mem_append] at hf
    exact hf.elim (h.frames f) (hgs f)
  known := by rw [hpushed]; exact h.known.trans (List.prefix_append _ _)
  early := h.early.mono hsent
  resume := h.resume
  unread := h.unread
  ledger := h.ledger
  cursor r hr := by rw [hpushed]; exact (h.cursor r hr).mono
  events e he := by
    rw [hpushed]
    exact ⟨(h.events e he).1, fun v hv => ((h.events e he).2 v hv).mono⟩
  caught k hk := by
    rw [hpushed]
    refine (h.caught k hk).push (fun r hr => ?_) hinc
    rcases Ledger.resumeRv_foldl names (l.session.sub.stream.take k) a with hsame | ⟨e, he, hrv⟩
    · rw [hsame] at hr
      exact h.cursor r hr
    · rw [hrv] at hr
      exact (h.events e (List.mem_of_mem_take he)).2 r (parseU64_of_resumeRv hr)
  working := h.working.push hpushed hsent hinc fun f hf => (hgs f hf).2

/-! ### The subscriber moves -/

/-- The slice and the live frames go on. -/
theorem Working.of_feed {names : List String} {q : List BroadcastFrame} {a : Ledger}
    {snapshot : List ConfigEvent} {p : Pump} {sub : Subscriber} {fs read later : List BroadcastFrame}
    {start : Nat} (hpushed : p.pushed = read ++ later) (hq : q <+: read) (hstart : start ≤ read.length)
    (hfs : fs.Sublist read)
    (hfeed : Feed (.ofNames names) snapshot (fs.map BroadcastFrame.item) start p.sent sub)
    (hsupply : Supply names (snapshot.foldl (Ledger.apply names) a) fs read) :
    Working names q a snapshot p sub := by
  cases hphase : sub.phase with
  | replaying | bridging =>
    simp only [Working, hphase]
    exact ⟨fs, start, read, later, hpushed, hq, hstart, hfs, hfeed, hsupply⟩
  | closed => simp only [Working, hphase]
  | connecting | attached | missed | snapshotting => simp only [Feed, hphase] at hfeed

/-- Something is put into the channel, or nothing. -/
theorem LinkInv.extend {names : List String} {q : List BroadcastFrame} {a : Ledger} {l : Link}
    (h : LinkInv names q a l) {sub' : Subscriber} {snapshot' es : List ConfigEvent}
    (hearly : Early (.ofNames names) l.session.pump.sent sub')
    (hresume : sub'.resumeRv = l.session.sub.resumeRv)
    (hstream : sub'.stream = l.session.sub.stream ++ es)
    (hunread : sub'.stream.length + l.session.sub.unread = l.session.sub.stream.length + sub'.unread)
    (hes : ∀ e ∈ es, Readable e ∧ ∀ v ∈ (eventKey e).2, Reached l.session.pump.pushed v)
    (hcaught : ∀ k, l.session.sub.stream.length < k → k ≤ sub'.stream.length →
      CaughtAt names l.session.pump.pushed (undelivered snapshot' k)
        ((sub'.stream.take k).foldl (Ledger.apply names) a))
    (hsnap : snapshot' = l.snapshot ∨ l.session.sub.stream = [])
    (hworking : Working names q a snapshot' l.session.pump sub') :
    LinkInv names q a { l with session := { l.session with sub := sub' }, snapshot := snapshot' } where
  names_eq := h.names_eq
  tracks := h.tracks
  buffer := h.buffer
  increasing := h.increasing
  frames := h.frames
  known := h.known
  early := hearly
  resume := hresume.trans h.resume
  unread := by
    have hle := h.unread
    show sub'.unread ≤ sub'.stream.length
    omega
  ledger := by
    have hle := h.unread
    have htaken : sub'.stream.length - sub'.unread = l.taken := by
      unfold Link.taken
      omega
    show l.driver.ledger = (sub'.stream.take (sub'.stream.length - sub'.unread)).foldl _ a
    rw [htaken, hstream, List.take_append_of_le_length (by unfold Link.taken; omega)]
    exact h.ledger
  cursor := h.cursor
  events e he := by
    rw [hstream, List.mem_append] at he
    exact he.elim (h.events e) (hes e)
  caught k hk := by
    rcases Nat.lt_or_ge l.session.sub.stream.length k with hlt | hge
    · exact hcaught k hlt hk
    · have hold := h.caught k hge
      -- the snapshot is only found while the stream is empty
      have hsame : undelivered snapshot' k = undelivered l.snapshot k := by
        rcases hsnap with hsnap | hempty
        · rw [hsnap]
        · rw [hempty] at hge
          obtain rfl : k = 0 := Nat.le_zero.mp hge
          rfl
      rw [hsame, hstream, List.take_append_of_le_length hge]
      exact hold
  working := hworking

/-- A snapshot is held as a whole. -/
theorem SnapshotOk.held {names : List String} {pushed : List BroadcastFrame}
    {snapshot pre post : List ConfigEvent} {maxRv : Nat} (h : SnapshotOk names pushed snapshot maxRv)
    (hsplit : snapshot = pre ++ post) {n : String} (hn : n ∈ names) {v : Nat} {e : ConfigEvent}
    (he : e ∈ pre) (hkey : eventKey e = (some n, some v)) (a : Ledger) :
    (pre.foldl (Ledger.apply names) a).held n = some v := by
  obtain ⟨xs, ys, rfl⟩ := List.append_of_mem he
  have hname : configEventName e = some n := congrArg Prod.fst hkey
  have hrv : parseU64 (eventRv e) = some v := congrArg Prod.snd hkey
  have htype : e.eventType ≠ .deleted := by
    rw [(h.entry e (by rw [hsplit]; simp)).1]
    nofun
  rw [Ledger.held_of_last hn a hname htype]
  · exact hrv
  · intro e' he' hname'
    have hdistinct := h.distinct
    rw [hsplit, DistinctNames, List.pairwise_append, List.pairwise_append, List.pairwise_cons] at hdistinct
    exact hdistinct.1.2.1.1 e' he' (hname.trans hname'.symm)

/-- The second read of the buffer supplies what the snapshot does not have. -/
theorem supply_of_readBuffer {names : List String} {p : Pump} {snapshot : List ConfigEvent}
    {fs : List BroadcastFrame} {maxRv : Nat} (h : SnapshotOk names p.pushed snapshot maxRv)
    (hinc : Increasing p.pushed) (hfs : fs.Sublist (p.pushed.filter (·.above maxRv)))
    (hslice : postSnapshotEvents p.buffer maxRv = fs.map BroadcastFrame.item) (hbuf : p.Inv)
    (hC : ∀ n ∈ names, ∀ v ∈ currentRv p.pushed n, maxRv < v →
      ∃ e ∈ p.buffer, eventKey e.event = (some n, some v)) (a : Ledger) :
    Supply names (snapshot.foldl (Ledger.apply names) a) fs p.pushed := by
  intro n hn v hv
  obtain ⟨c, hc, hname, hrv, htype, hmax⟩ := currentRv_spec hinc hv
  rcases h.complete n hn v hv with ⟨e, he, hkey⟩ | hlt
  · -- the snapshot has the current version, and nothing newer is sent after it
    refine .inr ⟨⟨v, ?_, le_rfl⟩, fun g hg hgname => ?_⟩
    · exact h.held (List.append_nil _).symm hn he hkey a
    · obtain ⟨hg, habove⟩ := List.mem_filter.mp (hfs.subset hg)
      obtain ⟨w, hw, hlt⟩ := BroadcastFrame.above_iff.mp habove
      have hle := hmax g hg hgname w hw
      obtain ⟨_, _, x, hx, hxle, _⟩ := h.entry e he
      rw [hkey] at hx
      obtain rfl := Option.some.inj hx
      omega
  · -- the current version is beyond the snapshot, and still in the buffer
    obtain ⟨e, he, hkey⟩ := hC n hn v hv hlt
    have hfiled : e.resourceVersionU64 = v := by
      have hentry := hbuf.entry_rv he
      rw [hkey] at hentry
      exact (Option.some.inj hentry).symm
    have hmem : e.item ∈ fs.map BroadcastFrame.item := by
      rw [← hslice, postSnapshotEvents]
      exact List.mem_map_of_mem (List.mem_filter.mpr ⟨he, by rw [hfiled]; exact decide_eq_true hlt⟩)
    obtain ⟨f, hf, hitem⟩ := List.mem_map.mp hmem
    have hevent : f.event = e.event := congrArg Prod.fst hitem
    have hfrv : f.rv = some v := by
      rw [← eventKey_snd, hevent, hkey]
    obtain rfl := hinc.eq_of_rv hc (List.mem_of_mem_filter (hfs.subset hf)) hrv hfrv
    exact .inl ⟨c, hf, hname, htype, hrv⟩

theorem snapshotOk_of_readCache {names : List String} {pushed : List BroadcastFrame}
    {snaps : List ConfigSnapshot} {now : Instant} (hnodup : (snaps.map (·.name)).Nodup)
    (hentry : ∀ snap ∈ snaps, Readable { eventType := .snapshot,
                                         config := some (snapshotToProto now snap) } ∧
      ∃ v ∈ parseU64 snap.resourceVersion, Reached pushed v)
    (hcomplete : ∀ n ∈ names, ∀ v ∈ currentRv pushed n,
      (∃ snap ∈ snaps, snap.name = n ∧ parseU64 snap.resourceVersion = some v) ∨
      ∀ snap ∈ snaps, ∀ w ∈ parseU64 snap.resourceVersion, w < v)
    (hpos : ∀ n, ∀ v ∈ currentRv pushed n, 0 < v) :
    SnapshotOk names pushed (snapshotEvents (.ofNames names) now snaps) (maxSnapshotRv snaps) where
  distinct := snapshotEvents_distinct _ now hnodup
  entry e he := by
    obtain ⟨snap, hsnap, rfl⟩ := List.mem_map.mp he
    obtain ⟨hread, v, hv, hreached⟩ := hentry snap (List.mem_of_mem_filter hsnap)
    exact ⟨rfl, hread, v, hv, le_maxSnapshotRv (List.mem_of_mem_filter hsnap) hv, hreached⟩
  bound v := by
    by_cases hlt : maxSnapshotRv snaps < v
    · exact .inl hlt
    · rw [maxSnapshotRv_lt_iff] at hlt
      push Not at hlt
      rcases Nat.eq_zero_or_pos v with h0 | hposv
      · exact .inr (.inl h0)
      · obtain ⟨snap, hsnap, w, hw, hle⟩ := hlt hposv
        obtain ⟨_, x, hx, f, hf, y, hy, hxy⟩ := hentry snap hsnap
        obtain rfl := Option.some.inj (hx.symm.trans hw)
        exact .inr (.inr ⟨f, hf, y, hy, hle.trans hxy⟩)
  complete n hn v hv := by
    rcases hcomplete n hn v hv with ⟨snap, hsnap, rfl, hrv⟩ | hall
    · refine .inl ⟨_, List.mem_map_of_mem (List.mem_filter.mpr ⟨hsnap, ?_⟩), ?_⟩
      · exact SubscribeFilter.ofNames_allow hn _
      · exact congrArg (Prod.mk _) hrv
    · exact .inr (maxSnapshotRv_lt_iff.mpr ⟨hpos n v hv, hall⟩)

section

variable {names : List String} {q : List BroadcastFrame} {a : Ledger} {l : Link}

theorem LinkInv.working_hit (h : LinkInv names q a l) (hphase : l.session.sub.phase = .attached)
    {front u : Nat} {slice : List ReplayItem}
    (hlook : lookupReplay front l.session.pump.buffer (parseResumeRv l.session.sub.resumeRv) = some slice) :
    Working names q a l.snapshot l.session.pump
      { l.session.sub with phase := .replaying slice, unread := u } := by
  have hempty := h.working
  simp only [Working, hphase] at hempty
  have hearly := h.early
  simp only [Early, hphase] at hearly
  obtain ⟨e, he, hr, rfl⟩ := lookupReplay_slice h.buffer h.increasing hlook
  rw [h.resume] at hr
  refine ⟨_, l.session.sub.next, l.session.pump.pushed, [], (List.append_nil _).symm, h.known,
    hearly.2.trans l.session.pump.sent_pushed.length_le, List.filter_sublist,
    ⟨rfl, hearly.2, [], rfl, ?_⟩, ?_⟩
  · rw [hempty, allowed_nil, List.append_nil]
    exact hearly.1
  · rw [hempty]
    exact supply_of_hit h.increasing (h.caught 0 (Nat.zero_le _)) hr

theorem LinkInv.working_readCache (h : LinkInv names q a l) (hphase : l.session.sub.phase = .missed)
    {snaps : List ConfigSnapshot} {now : Instant} (hnodup : (snaps.map (·.name)).Nodup)
    (hC : Careful l (.server (.sub (.readCache snaps now)))) {u : Nat} :
    Working names q a (snapshotEvents (.ofNames names) now snaps) l.session.pump
      { l.session.sub with
        phase := .snapshotting (snapshotEvents (.ofNames names) now snaps) (maxSnapshotRv snaps)
        unread := u } := by
  have hearly := h.early
  simp only [Early, hphase] at hearly
  refine ⟨?_, snapshotOk_of_readCache hnodup hC.1 (h.names_eq ▸ hC.2) fun n v hv => ?_⟩
  · show l.session.sub.stream ++ _ = _
    rw [hearly.1, List.nil_append]
  · obtain ⟨f, hf, _, hrv, _⟩ := currentRv_spec h.increasing hv
    exact (h.frames f hf).2 v hrv

theorem LinkInv.working_readBuffer (h : LinkInv names q a l) {maxRv u : Nat}
    (hphase : l.session.sub.phase = .snapshotting [] maxRv)
    (hC : Careful l (.server (.sub .readBuffer))) :
    Working names q a l.snapshot l.session.pump
      { l.session.sub with phase := .replaying (postSnapshotEvents l.session.pump.buffer maxRv),
                           unread := u } := by
  have hwork := h.working
  simp only [Working, hphase, List.append_nil] at hwork
  have hearly := h.early
  simp only [Early, hphase] at hearly
  simp only [Careful, hphase, h.names_eq] at hC
  obtain ⟨fs, hfs, hslice⟩ := List.sublist_map_iff.mp (postSnapshotEvents_sublist h.buffer maxRv)
  refine ⟨fs, l.session.sub.next, l.session.pump.pushed, [], (List.append_nil _).symm, h.known,
    hearly.1.trans l.session.pump.sent_pushed.length_le, hfs.trans List.filter_sublist, ?_,
    supply_of_readBuffer hwork.2 h.increasing hfs hslice h.buffer hC a⟩
  exact ⟨rfl, hearly.1, [], by rw [hslice]; rfl, by rw [allowed_nil, List.append_nil]; exact hwork.1⟩

/-- In the middle of a snapshot, what is below the cursor is held or still to come. -/
theorem LinkInv.caught_snapshot (h : LinkInv names q a l) {event : ConfigEvent}
    {todo : List ConfigEvent} {maxRv : Nat}
    (hphase : l.session.sub.phase = .snapshotting (event :: todo) maxRv) :
    CaughtAt names l.session.pump.pushed (undelivered l.snapshot (l.session.sub.stream.length + 1))
      ((l.session.sub.stream ++ [event]).foldl (Ledger.apply names) a) := by
  have hwork := h.working
  simp only [Working, hphase] at hwork
  obtain ⟨hsplit, hok⟩ := hwork
  rw [List.append_cons] at hsplit
  obtain ⟨_, _, x, hx, hxle, _⟩ := hok.entry event (by rw [← hsplit]; simp)
  intro n hn v hv r hr hle
  obtain rfl := Ledger.cursor_of_last hx hr
  rcases hok.complete n hn v hv with ⟨e, he, hkey⟩ | hlt
  · rw [← hsplit, List.mem_append] at he
    rcases he with he | he
    · exact .inl ⟨v, hok.held hsplit.symm hn he hkey a, le_rfl⟩
    · refine .inr ⟨e, ?_, hkey⟩
      rw [undelivered, if_neg (Nat.succ_ne_zero _), ← hsplit, List.drop_append_of_le_length (by simp)]
      exact List.mem_append_right _ he
  · omega

theorem LinkInv.caught_replay (h : LinkInv names q a l) {it : ReplayItem} {todo : List ReplayItem}
    (hphase : l.session.sub.phase = .replaying (it :: todo))
    (hallow : filterAllowsEvent (.ofNames names) it.1 it.2 = true) (missing : List ConfigEvent) :
    CaughtAt names l.session.pump.pushed missing
      ((l.session.sub.stream ++ [it.1]).foldl (Ledger.apply names) a) := by
  have hwork := h.working
  simp only [Working, hphase] at hwork
  obtain ⟨fs, start, read, later, hpushed, _, _, hfs, hfeed, hsupply⟩ := hwork
  simp only [Feed, hphase] at hfeed
  obtain ⟨_, _, done, hslice, hstream⟩ := hfeed
  obtain ⟨gs, rest, rfl, rfl, hrest⟩ := List.map_eq_append_iff.mp hslice
  obtain ⟨f, rest, rfl, rfl, rfl⟩ := List.map_eq_cons_iff.mp hrest
  have hcaught := hsupply.caught_replay (hpushed ▸ h.increasing) hfs rfl hallow
  rw [allowed_snoc gs hallow, ← List.foldl_append, ← List.append_assoc, ← hstream, ← hpushed] at hcaught
  exact hcaught.weaken missing

theorem LinkInv.caught_recv (h : LinkInv names q a l) (hphase : l.session.sub.phase = .bridging)
    {frame : BroadcastFrame} (hframe : l.session.pump.sent[l.session.sub.next]? = some frame)
    (hallow : frame.allowedBy (.ofNames names) = true) (missing : List ConfigEvent) :
    CaughtAt names l.session.pump.pushed missing
      ((l.session.sub.stream ++ [frame.event]).foldl (Ledger.apply names) a) := by
  have hwork := h.working
  simp only [Working, hphase] at hwork
  obtain ⟨fs, start, read, later, hpushed, _, hstart, hfs, hfeed, hsupply⟩ := hwork
  simp only [Feed, hphase] at hfeed
  obtain ⟨hge, hle, hstream⟩ := hfeed
  have hlive : (l.session.pump.sent.take l.session.sub.next).drop start ++ [frame] <+:
      (read ++ later).drop start := by
    rw [← hpushed]
    have hnext : (l.session.pump.sent.take l.session.sub.next).drop start ++ [frame] =
        (l.session.pump.sent.take (l.session.sub.next + 1)).drop start := by
      rw [List.take_add_one, hframe, Option.toList_some,
        List.drop_append_of_le_length (by rw [List.length_take]; omega)]
    have hsent : l.session.pump.sent.take (l.session.sub.next + 1) <+: l.session.pump.pushed :=
      (List.take_prefix _ _).trans l.session.pump.sent_pushed
    rw [hnext]
    exact hsent.drop start
  have hcaught := hsupply.caught_live (hpushed ▸ h.increasing) hfs hstart hlive hallow
  rw [allowed_snoc _ hallow, ← List.foldl_append, ← List.foldl_append, ← List.append_assoc,
    ← List.append_assoc, ← hstream, ← hpushed] at hcaught
  exact hcaught.weaken missing

/-- A move that puts nothing into the channel. -/
theorem LinkInv.quiet (h : LinkInv names q a l) {sub' : Subscriber} {snapshot' : List ConfigEvent}
    (hearly : Early (.ofNames names) l.session.pump.sent sub')
    (hresume : sub'.resumeRv = l.session.sub.resumeRv) (hstream : sub'.stream = l.session.sub.stream)
    (hunread : sub'.stream.length + l.session.sub.unread = l.session.sub.stream.length + sub'.unread)
    (hsnap : snapshot' = l.snapshot ∨ l.session.sub.stream = [])
    (hworking : Working names q a snapshot' l.session.pump sub') :
    LinkInv names q a { l with session := { l.session with sub := sub' }, snapshot := snapshot' } := by
  have hnil : sub'.stream = l.session.sub.stream ++ [] := by rw [hstream, List.append_nil]
  refine h.extend hearly hresume hnil hunread (by simp) (fun k hlt hk => ?_) hsnap hworking
  rw [hstream] at hk
  omega

/-- A move that puts one event into the channel. -/
theorem LinkInv.emit (h : LinkInv names q a l) {sub' : Subscriber} {e : ConfigEvent}
    (hearly : Early (.ofNames names) l.session.pump.sent sub')
    (hresume : sub'.resumeRv = l.session.sub.resumeRv)
    (hstream : sub'.stream = l.session.sub.stream ++ [e])
    (hunread : sub'.stream.length + l.session.sub.unread = l.session.sub.stream.length + sub'.unread)
    (he : Readable e ∧ ∀ v ∈ (eventKey e).2, Reached l.session.pump.pushed v)
    (hcaught : CaughtAt names l.session.pump.pushed
      (undelivered l.snapshot (l.session.sub.stream.length + 1))
      ((l.session.sub.stream ++ [e]).foldl (Ledger.apply names) a))
    (hworking : Working names q a l.snapshot l.session.pump sub') :
    LinkInv names q a { l with session := { l.session with sub := sub' } } := by
  refine h.extend hearly hresume hstream hunread (fun e' he' => ?_) (fun k hlt hk => ?_) (.inl rfl)
    hworking
  · rw [List.mem_singleton.mp he']
    exact he
  · have hlen : sub'.stream.length = l.session.sub.stream.length + 1 := by rw [hstream]; simp
    obtain rfl : k = l.session.sub.stream.length + 1 := by omega
    rw [← hlen, List.take_length, hlen, hstream]
    exact hcaught

/-- A frame that has been pushed is fit to be delivered. -/
theorem LinkInv.frame_ok (h : LinkInv names q a l) {f : BroadcastFrame}
    (hf : f ∈ l.session.pump.pushed) : Readable f.event ∧
      ∀ v ∈ (eventKey f.event).2, Reached l.session.pump.pushed v :=
  ⟨(h.frames f hf).1, fun _ hv => reached_of_mem hf hv⟩

theorem LinkInv.move (h : LinkInv names q a l) {label : SubscriberLabel} {sub' : Subscriber}
    (hstep : l.session.sub.step (.ofNames names) l.session.pump label = some sub')
    (htake : label ≠ .take) (hC : Careful l (.server (.sub label))) :
    LinkInv names q a { l with session := { l.session with sub := sub' },
                               snapshot := foundSnapshot (.ofNames names) l.snapshot (.sub label) } := by
  have hm := Subscriber.step_move hstep
  have hearly := h.early.move hm
  have hunread := Subscriber.step_unread hstep htake
  have hwork := h.working
  cases hm with
  | attach hphase | miss hphase _ =>
    refine h.quiet hearly rfl rfl hunread (.inl rfl) ?_
    simpa only [Working, hphase, foundSnapshot] using hwork
  | hit hphase hlook => exact h.quiet hearly rfl rfl hunread (.inl rfl) (h.working_hit hphase hlook)
  | readCache hphase hnodup =>
    have hempty := h.early
    simp only [Early, hphase] at hempty
    exact h.quiet hearly rfl rfl hunread (.inr hempty.1) (h.working_readCache hphase hnodup hC)
  | readBuffer hphase =>
    exact h.quiet hearly rfl rfl hunread (.inl rfl) (h.working_readBuffer hphase hC)
  | snapshot hphase =>
    rename_i u maxRv event todo
    have hcaught := h.caught_snapshot hphase
    simp only [Working, hphase] at hwork
    obtain ⟨_, hread, x, hx, _, hreached⟩ := hwork.2.entry event (by rw [← hwork.1]; simp)
    refine h.emit hearly rfl rfl hunread ⟨hread, fun v hv => ?_⟩ hcaught ?_
    · obtain rfl := Option.some.inj (hx.symm.trans hv)
      exact hreached
    · exact ⟨by rw [← hwork.1, List.append_assoc]; rfl, hwork.2⟩
  | replay hphase =>
    rename_i u it todo
    have hcaught := h.caught_replay hphase
    simp only [Working, hphase] at hwork
    obtain ⟨fs, start, read, later, hpushed, hq, hstart, hfs, hfeed, hsupply⟩ := hwork
    have hworking := Working.of_feed hpushed hq hstart hfs (hfeed.move (.replay (u := u) hphase)) hsupply
    -- a frame of a config that is not tracked is taken off the slice and not sent
    have hone := allowed_singleton (.ofNames names) it
    by_cases hallow : filterAllowsEvent (.ofNames names) it.1 it.2 = true
    · rw [if_pos hallow] at hone
      simp only [hone] at hearly hunread hworking ⊢
      refine h.emit hearly rfl rfl hunread ?_ (hcaught hallow _) hworking
      simp only [Feed, hphase] at hfeed
      obtain ⟨_, _, done, hslice, _⟩ := hfeed
      obtain ⟨f, hf, rfl⟩ := List.mem_map.mp (hslice ▸ List.mem_append_right done List.mem_cons_self)
      exact h.frame_ok (hpushed ▸ List.mem_append_left _ (hfs.subset hf))
    · rw [if_neg hallow] at hone
      simp only [hone, List.append_nil] at hearly hunread hworking ⊢
      exact h.quiet hearly rfl rfl hunread (.inl rfl) hworking
  | bridge hphase =>
    rename_i u
    simp only [Working, hphase] at hwork
    obtain ⟨fs, start, read, later, hpushed, hq, hstart, hfs, hfeed, hsupply⟩ := hwork
    exact h.quiet hearly rfl rfl hunread (.inl rfl)
      (.of_feed hpushed hq hstart hfs (hfeed.move (.bridge hphase)) hsupply)
  | recv hphase hframe =>
    rename_i u frame
    have hcaught := h.caught_recv hphase hframe
    simp only [Working, hphase] at hwork
    obtain ⟨fs, start, read, later, hpushed, hq, hstart, hfs, hfeed, hsupply⟩ := hwork
    have hworking := Working.of_feed hpushed hq hstart hfs (hfeed.move (.recv (u := u) hphase hframe))
      hsupply
    have hone : allowed (.ofNames names) [frame.item] =
        if frame.allowedBy (.ofNames names) then [frame.event] else [] := allowed_singleton _ _
    by_cases hallow : frame.allowedBy (.ofNames names) = true
    · rw [if_pos hallow] at hone
      simp only [hone] at hearly hunread hworking ⊢
      refine h.emit hearly rfl rfl hunread (h.frame_ok ?_) (hcaught hallow _) hworking
      exact l.session.pump.sent_pushed.subset (List.mem_of_getElem? hframe)
    · rw [if_neg hallow] at hone
      simp only [hone, List.append_nil] at hearly hunread hworking ⊢
      exact h.quiet hearly rfl rfl hunread (.inl rfl) hworking
  | take => exact absurd rfl htake
  | close hl =>
    have hsame : foundSnapshot (.ofNames names) l.snapshot (.sub label) = l.snapshot := by
      rcases hl with rfl | rfl | rfl <;> rfl
    -- nothing is promised of a closed phase: the next connection starts anew
    rw [hsame]
    exact h.quiet hearly rfl rfl hunread (.inl rfl) trivial

/-! ### The driver moves -/

theorem LinkInv.deliver (h : LinkInv names q a l) {event : ConfigEvent}
    (hevent : l.session.sub.stream[l.taken]? = some event) (hunread : 0 < l.session.sub.unread)
    (now : Instant) : LinkInv names q a
      { l with session := { l.session with
                 sub := { l.session.sub with unread := l.session.sub.unread - 1 } }
               driver := l.driver.apply now event } := by
  have hle := h.unread
  obtain ⟨hread, _⟩ := h.events event (List.mem_of_getElem? hevent)
  obtain ⟨hledger, htracks, hnames⟩ := Driver.ledger_apply h.tracks hread now
  refine { names_eq := hnames.trans h.names_eq, tracks := htracks, buffer := h.buffer,
           increasing := h.increasing, frames := h.frames, known := h.known, early := h.early,
           resume := h.resume, unread := ?_, ledger := ?_, cursor := h.cursor, events := h.events,
           caught := h.caught, working := h.working }
  · show l.session.sub.unread - 1 ≤ l.session.sub.stream.length
    omega
  · have htaken : l.session.sub.stream.length - (l.session.sub.unread - 1) = l.taken + 1 := by
      unfold Link.taken
      omega
    show (l.driver.apply now event).ledger = (l.session.sub.stream.take
      (l.session.sub.stream.length - (l.session.sub.unread - 1))).foldl _ a
    rw [htaken, List.take_add_one, hevent, Option.toList_some, List.foldl_append, List.foldl_cons,
      List.foldl_nil, hledger, h.names_eq, h.ledger]

/-- The cursor is never above what has been pushed. -/
theorem LinkInv.cursor_reached (h : LinkInv names q a l) :
    ∀ r ∈ parseResumeRv l.driver.ledger.resumeRv, Reached l.session.pump.pushed r := by
  intro r hr
  rw [h.ledger] at hr
  rcases Ledger.resumeRv_foldl names (l.session.sub.stream.take l.taken) a with hsame | ⟨e, he, hrv⟩
  · rw [hsame] at hr
    exact h.cursor r hr
  · rw [hrv] at hr
    exact (h.events e (List.mem_of_mem_take he)).2 r (parseU64_of_resumeRv hr)

/-- After a cut, whatever is at or below the cursor is held. -/
theorem LinkInv.caught_cut (h : LinkInv names q a l)
    (hC : ∀ e ∈ undelivered l.snapshot l.taken, ∀ n ∈ (eventKey e).1, ∀ v ∈ (eventKey e).2,
      (∃ w ∈ l.driver.ledger.held n, v ≤ w) ∨ ∀ r ∈ parseResumeRv l.driver.ledger.resumeRv, r < v) :
    CaughtAt names l.session.pump.pushed [] l.driver.ledger := by
  intro n hn v hv r hr hle
  have hcaught := h.caught l.taken (Nat.sub_le _ _)
  rw [← h.ledger] at hcaught
  rcases hcaught n hn v hv r hr hle with hheld | ⟨e, he, hkey⟩
  · exact .inl hheld
  · -- an entry that was not delivered is beyond the cursor, or not needed
    rcases hC e he n (by rw [hkey]; rfl) v (by rw [hkey]; rfl) with hheld | hlt
    · exact .inl hheld
    · have hrv := hlt r hr
      omega

/-- The driver subscribes again with its cursor. -/
theorem LinkInv.reconnect (h : LinkInv names q a l) {d : Driver} (hledger : d.ledger = l.driver.ledger)
    (htracks : d.Tracks) (hnames : d.names = names)
    (hcaught : CaughtAt names l.session.pump.pushed [] l.driver.ledger) :
    LinkInv names q l.driver.ledger
      { session := { l.session with sub := .new l.driver.resumeRv }, driver := d, snapshot := [] } where
  names_eq := hnames
  tracks := htracks
  buffer := h.buffer
  increasing := h.increasing
  frames := h.frames
  known := h.known
  early := rfl
  resume := rfl
  unread := le_rfl
  ledger := hledger
  cursor := h.cursor_reached
  events := by simp [Subscriber.new]
  caught k hk := by
    obtain rfl : k = 0 := Nat.le_zero.mp hk
    exact hcaught
  working := rfl

theorem LinkInv.stale (h : LinkInv names q a l) (now : Instant) :
    LinkInv names q a { l with driver := l.driver.markAllStale now } := by
  obtain ⟨hledger, htracks⟩ := Driver.ledger_markAllStale h.tracks now
  exact { h with names_eq := h.names_eq, tracks := htracks, ledger := hledger.trans h.ledger }

end

/-! ### Runs -/

theorem linkInv_new (names : List String) (now : Instant) :
    LinkInv names [] (Driver.new names now).ledger (.new names now) where
  names_eq := rfl
  tracks := Driver.tracks_new names now
  buffer := Pump.inv_new
  increasing := ⟨by simp [Link.new, Session.new, Pump.new, Pump.pushed], List.Pairwise.nil⟩
  frames := by simp [Link.new, Session.new, Pump.new, Pump.pushed]
  known := List.nil_prefix
  early := rfl
  resume := rfl
  unread := le_rfl
  ledger := rfl
  cursor := by simp [Driver.new, Driver.ledger, parseResumeRv]
  events := by simp [Link.new, Session.new, Subscriber.new]
  caught k hk := by
    intro n hn v hv
    simp [Link.new, Session.new, Pump.new, Pump.pushed, currentRv, latestFrame] at hv
  working := rfl

theorem LinkInv.pump_step {names : List String} {q : List BroadcastFrame} {a : Ledger} {l : Link}
    {coalesced : Bool} {label : PumpLabel} {p' : Pump} (h : LinkInv names q a l)
    (hp : l.session.pump.step coalesced label = some p') (hC : Careful l (.server (.pump label))) :
    LinkInv names q a { l with session := { l.session with pump := p' } } := by
  have hbuf := h.buffer.step hp
  have hsent := Pump.sent_grows hp
  obtain ⟨fs, hlen, hframes, _, hpushed, _⟩ | ⟨f, _, hpushed, _⟩ := Pump.step_cases hp
  · have hfs : ∀ f ∈ fs, Readable f.event ∧
        ∃ v ∈ f.rv, 0 < v ∧ ∀ g ∈ l.session.pump.pushed, ∀ w ∈ g.rv, w < v := by
      intro f hf
      obtain ⟨now, event, rfl, hframe⟩ := hframes f hf
      exact hC f hframe
    refine h.push hbuf hpushed hsent ⟨fun f hf => ?_, ?_⟩ fun f hf => ⟨(hfs f hf).1, fun v hv => ?_⟩
    · rcases List.mem_append.mp hf with hf | hf
      · exact h.increasing.1 f hf
      · obtain ⟨_, v, hv, _⟩ := hfs f hf
        rw [Option.mem_def.mp hv]
        rfl
    · have hone : fs.Pairwise fun f g => ∀ v ∈ f.rv, ∀ w ∈ g.rv, v < w := by
        match fs, hlen with
        | [], _ => exact List.Pairwise.nil
        | [f], _ => exact List.pairwise_singleton _ f
      refine List.pairwise_append.mpr ⟨h.increasing.2, hone, fun g hg f hf w hw v hv => ?_⟩
      obtain ⟨_, x, hx, _, hlt⟩ := hfs f hf
      obtain rfl := Option.some.inj (hx.symm.trans hv)
      exact hlt g hg w hw
    · obtain ⟨_, x, hx, hpos, _⟩ := hfs f hf
      obtain rfl := Option.some.inj (hx.symm.trans hv)
      exact hpos
  · rw [← List.append_nil l.session.pump.pushed] at hpushed
    exact h.push hbuf hpushed hsent (by rw [List.append_nil]; exact h.increasing) (by simp)

/-- **One step keeps the invariant**, and only a cut begins a new connection. -/
theorem LinkInv.step {names : List String} {q : List BroadcastFrame} {a : Ledger} {l l' : Link}
    {coalesced : Bool} {label : LinkLabel} (h : LinkInv names q a l)
    (hstep : l.step coalesced label = some l') (hC : Careful l label) :
    ∃ a', LinkInv names q a' l' ∧ l.session.pump.pushed <+: l'.session.pump.pushed ∧
      (label.isCut = false → a' = a ∧ l.session.sub.stream <+: l'.session.sub.stream) := by
  cases label with
  | server label =>
    cases label with
    | pump label =>
      obtain ⟨session, hsession, rfl⟩ := Option.map_eq_some_iff.mp hstep
      obtain ⟨p', hp, rfl⟩ := Option.map_eq_some_iff.mp hsession
      exact ⟨a, h.pump_step hp hC, Pump.pushed_grows hp, fun _ => ⟨rfl, List.prefix_refl _⟩⟩
    | sub label =>
      by_cases htake : label = .take
      · subst htake
        cases hstep
      · have hmap : l.step coalesced (.server (.sub label)) =
            (l.session.step coalesced (.ofNames l.driver.names) (.sub label)).map fun session =>
              { l with session, snapshot := foundSnapshot (.ofNames l.driver.names) l.snapshot
                                              (.sub label) } := by
          cases label <;> first | rfl | exact absurd rfl htake
        rw [hmap] at hstep
        obtain ⟨session, hsession, rfl⟩ := Option.map_eq_some_iff.mp hstep
        obtain ⟨sub', hsub, rfl⟩ := Option.map_eq_some_iff.mp hsession
        rw [h.names_eq] at hsub ⊢
        exact ⟨a, h.move hsub htake hC, List.prefix_refl _,
          fun _ => ⟨rfl, (Subscriber.step_move hsub).stream_grows⟩⟩
  | deliver now =>
    simp only [Link.step] at hstep
    split at hstep
    · rename_i session event hsession hevent
      cases hstep
      obtain ⟨sub', hsub, rfl⟩ := Option.map_eq_some_iff.mp hsession
      simp only [Subscriber.step] at hsub
      split at hsub
      · cases hsub
        exact ⟨a, h.deliver hevent ‹_› now, List.prefix_refl _, fun _ => ⟨rfl, List.prefix_refl _⟩⟩
      · cases hsub
    · cases hstep
  | cut error now =>
    cases hstep
    obtain ⟨hledger, htracks⟩ := Driver.ledger_markAllStale h.tracks now
    have hcaught := h.caught_cut hC
    refine ⟨l.driver.ledger, ?_, List.prefix_refl _, fun hcut => by cases hcut⟩
    cases error with
    | true => exact h.reconnect hledger htracks h.names_eq hcaught
    | false => exact h.reconnect rfl h.tracks h.names_eq hcaught
  | refused now =>
    simp only [Link.step] at hstep
    split at hstep
    · cases hstep
      exact ⟨a, h.stale now, List.prefix_refl _, fun _ => ⟨rfl, List.prefix_refl _⟩⟩
    · cases hstep

theorem linkInv_run {names : List String} {q : List BroadcastFrame} {a : Ledger} {l l' : Link}
    {coalesced : Bool} {labels : List LinkLabel} (h : LinkInv names q a l)
    (hrun : run (Link.step coalesced) l labels = some l')
    (hC : Along (Link.step coalesced) (fun _ => Careful) l labels) :
    ∃ a', LinkInv names q a' l' ∧ l.session.pump.pushed <+: l'.session.pump.pushed ∧
      ((∀ x ∈ labels, x.isCut = false) →
        a' = a ∧ l.session.sub.stream <+: l'.session.sub.stream) := by
  refine run_induction_along (fun _ => Careful) (fun labels m => ∃ a', LinkInv names q a' m ∧
    l.session.pump.pushed <+: m.session.pump.pushed ∧ ((∀ x ∈ labels, x.isCut = false) →
      a' = a ∧ l.session.sub.stream <+: m.session.sub.stream))
    ⟨a, h, List.prefix_refl _, fun _ => ⟨rfl, List.prefix_refl _⟩⟩ ?_ labels l' hrun hC
  rintro labels m label m' _ ⟨a', hm, hpushed, hsame⟩ hc hstep
  obtain ⟨a'', hm', hpushed', hsame'⟩ := hm.step hstep hc
  refine ⟨a'', hm', hpushed.trans hpushed', fun hcut => ?_⟩
  obtain ⟨rfl, hgrow⟩ := hsame fun x hx => hcut x (List.mem_append_left _ hx)
  obtain ⟨rfl, hgrow'⟩ := hsame' (hcut label (by simp))
  exact ⟨rfl, hgrow.trans hgrow'⟩

/-- A lookup is made by a subscriber that has attached. -/
theorem LinkInv.rebase {names : List String} {q : List BroadcastFrame} {a : Ledger} {l l' : Link}
    {coalesced : Bool} {front : Nat} (h : LinkInv names q a l)
    (hstep : l.step coalesced (.server (.sub (.lookup front))) = some l') :
    LinkInv names l.session.pump.pushed a l := by
  obtain ⟨session, hsession, _⟩ := Option.map_eq_some_iff.mp hstep
  obtain ⟨sub', hsub, _⟩ := Option.map_eq_some_iff.mp hsession
  have hwork := h.working
  simp only [Subscriber.step] at hsub
  split at hsub
  · rename_i hphase
    refine { h with known := List.prefix_refl _, working := ?_ }
    simpa only [Working, hphase] using hwork
  · cases hsub

/-- All of the replay has been taken and nothing more: each config is held as it
was when the buffer was read. -/
theorem LinkInv.held_replayed {names : List String} {q : List BroadcastFrame} {a : Ledger} {l l' : Link}
    (h : LinkInv names q a l) (hsent : l.session.sub.phase = .replaying []) (h' : LinkInv names q a l')
    (hgrow : l.session.sub.stream <+: l'.session.sub.stream)
    (htaken : l'.taken = l.session.sub.stream.length) : ∃ read, q <+: read ∧
      read <+: l.session.pump.pushed ∧ ∀ n ∈ names, ∀ v ∈ currentRv read n,
        ∃ w ∈ l'.driver.ledger.held n, v ≤ w := by
  have hwork := h.working
  simp only [Working, hsent] at hwork
  obtain ⟨fs, start, read, later, hpushed, hq, _, hfs, hfeed, hsupply⟩ := hwork
  simp only [Feed, hsent, List.append_nil] at hfeed
  obtain ⟨_, _, done, rfl, hstream⟩ := hfeed
  refine ⟨read, hq, ⟨later, hpushed.symm⟩, fun n hn v hv => ?_⟩
  have hread : Increasing read := by
    have hinc := h.increasing
    rw [hpushed] at hinc
    exact hinc.sublist (List.sublist_append_left _ _)
  have hledger : l'.driver.ledger = (allowed (.ofNames names) (fs.map BroadcastFrame.item)).foldl
      (Ledger.apply names) (l.snapshot.foldl (Ledger.apply names) a) := by
    rw [h'.ledger, htaken, ← List.prefix_iff_eq_take.mp hgrow, hstream, List.foldl_append]
  rw [hledger]
  exact hsupply.held hread hfs hn hv

/-- **A consumer catches up.**  In a run whose steps are all careful, a connection
looks its cursor up in `s₁`, has sent all its snapshot and its slice in `s₃`, and
the driver has taken just these in `s`.  Then every tracked config that existed at
the lookup, and was not deleted since, is held at that version or a later one. -/
theorem catches_up {coalesced : Bool} {names : List String} {now : Instant}
    {before mid after : List LinkLabel} {front : Nat} {s₁ s₂ s₃ s : Link}
    (h₁ : run (Link.step coalesced) (.new names now) before = some s₁)
    (h₂ : s₁.step coalesced (.server (.sub (.lookup front))) = some s₂)
    (h₃ : run (Link.step coalesced) s₂ mid = some s₃)
    (hsent : s₃.session.sub.phase = .replaying [])
    (h : run (Link.step coalesced) s₃ after = some s)
    (hcut : ∀ x ∈ mid ++ after, x.isCut = false)
    (htaken : s.taken = s₃.session.sub.stream.length)
    (hC : Along (Link.step coalesced) (fun _ => Careful) (.new names now)
      (before ++ .server (.sub (.lookup front)) :: (mid ++ after))) :
    ∀ n ∈ names, ∀ v ∈ currentRv s₁.session.pump.pushed n,
      (∀ f ∈ s.session.pump.pushed.drop s₁.session.pump.pushed.length,
        configEventName f.event = some n → f.event.eventType ≠ .deleted) →
      ∃ w ∈ s.driver.ledger.held n, v ≤ w := by
  intro n hn v hv hkeep
  obtain ⟨a₁, hinv₁, _, _⟩ := linkInv_run (linkInv_new names now) h₁ hC.left
  have hC₁ := hC.right h₁
  have hrun₃ : run (Link.step coalesced) s₁ (.server (.sub (.lookup front)) :: mid) = some s₃ := by
    rw [run_cons, h₂, Option.bind_some, h₃]
  rw [← List.cons_append] at hC₁
  -- from the lookup on the invariant counts what was pushed there
  obtain ⟨a₃, hinv₃, _, _⟩ := linkInv_run (hinv₁.rebase h₂) hrun₃ hC₁.left
  obtain ⟨a', hinv, hpushed, hsame⟩ := linkInv_run hinv₃ h (hC₁.right hrun₃)
  obtain ⟨rfl, hgrow⟩ := hsame fun x hx => hcut x (List.mem_append_right _ hx)
  obtain ⟨read, ⟨gs, rfl⟩, hread, hheld⟩ := hinv₃.held_replayed hsent hinv hgrow htaken
  obtain ⟨rest, hrest⟩ := hread.trans hpushed
  have hinc : Increasing (s₁.session.pump.pushed ++ gs) := hinv₃.increasing.sublist hread.sublist
  obtain ⟨v', hv', hle⟩ := currentRv_grow hinc hv fun f hf => by
    refine hkeep f ?_
    rw [← hrest, List.append_assoc, List.drop_left]
    exact List.mem_append_left _ hf
  obtain ⟨w, hw, hvw⟩ := hheld n hn v' hv'
  exact ⟨w, hw, hle.trans hvw⟩

end

/-! ### One run that catches up and one that does not -/

/-- A parser for the one text that these runs carry. -/
local instance emptyObject : SerdeJson where
  fromStr s := if s = "\x7b\x7d" then .ok (.object []) else .error "unexpected"
  fromValueError _ := ""

/-- Two configs are pushed and sent, the driver connects, and finds both in the
cache; `firstEvents` is what it does then. -/
def twoConfigs (firstEvents : List LinkLabel) : List LinkLabel :=
  [.server (applied "web" "5"), .server (.pump .send), .server (applied "api" "7"),
    .server (.pump .send), .server (.sub .attach), .server (.sub (.lookup 0)),
    .server (.sub (.readCache [cached "api" "7", cached "web" "5"] 0))] ++ firstEvents

/-- Both entries are delivered before the cut, and `web` moves on before the
driver is back. -/
def afterBoth : List LinkLabel := twoConfigs
  [.server (.sub .emit), .deliver 0, .server (.sub .emit), .deliver 0, .cut true 0,
    .server (applied "web" "8"), .server (.pump .send), .server (.sub .attach)]

/-- One entry is delivered before the cut. -/
def afterOne : List LinkLabel := twoConfigs
  [.server (.sub .emit), .deliver 0, .cut true 0, .server (.sub .attach)]

def replayBoth : List LinkLabel := [.server (.sub .emit), .deliver 0, .server (.sub .emit)]

/-- The subscriber has sent all it replays. -/
def Link.hasReplayed (l : Link) : Bool :=
  match l.session.sub.phase with
  | .replaying [] => true
  | _ => false

theorem Link.phase_of_hasReplayed {l : Link} (h : l.hasReplayed = true) :
    l.session.sub.phase = .replaying [] := by
  unfold Link.hasReplayed at h
  split at h
  · assumption
  · cases h

theorem catches_up_after_both : ∃ s₁ s : Link,
    run (Link.step false) (.new ["api", "web"] 0) afterBoth = some s₁ ∧
    run (Link.step false) (.new ["api", "web"] 0)
      ((afterBoth ++ .server (.sub (.lookup 0)) :: replayBoth) ++ [.deliver 0]) = some s ∧
    currentRv s₁.session.pump.pushed "web" = some 8 ∧ ∃ w ∈ s.driver.ledger.held "web", 8 ≤ w := by
  obtain ⟨s₁, h₁, hcurrent⟩ := (Option.any_eq_true _ _).mp
    (show (run (Link.step false) (.new ["api", "web"] 0) afterBoth).any (fun l =>
      decide (currentRv l.session.pump.pushed "web" = some 8)) = true by decide +kernel)
  obtain ⟨s₃, h₃, hsent⟩ := (Option.any_eq_true _ _).mp
    (show (run (Link.step false) (.new ["api", "web"] 0)
      (afterBoth ++ .server (.sub (.lookup 0)) :: replayBoth)).any (fun l =>
        l.hasReplayed && decide (l.session.sub.stream.length = 2)) = true by decide +kernel)
  obtain ⟨s, h, hend⟩ := (Option.any_eq_true _ _).mp
    (show (run (Link.step false) (.new ["api", "web"] 0)
      ((afterBoth ++ .server (.sub (.lookup 0)) :: replayBoth) ++ [.deliver 0])).any (fun l =>
        decide (l.taken = 2) && decide (∀ f ∈ l.session.pump.pushed, f.event.eventType ≠ .deleted)) =
          true by decide +kernel)
  rw [decide_eq_true_eq] at hcurrent
  rw [Bool.and_eq_true, decide_eq_true_eq] at hsent
  rw [Bool.and_eq_true, decide_eq_true_eq, decide_eq_true_eq] at hend
  obtain ⟨s₁', s₂, h₁', h₂, hmid⟩ := run_append_cons.mp h₃
  obtain rfl := Option.some.inj (h₁.symm.trans h₁')
  obtain ⟨s₃', h₃', hlast⟩ := run_append_some h
  obtain rfl := Option.some.inj (h₃.symm.trans h₃')
  refine ⟨s₁, s, h₁, h, hcurrent, ?_⟩
  exact catches_up h₁ h₂ hmid (Link.phase_of_hasReplayed hsent.1) hlast (by decide)
    (hend.1.trans hsent.2.symm) (by decide +kernel) "web" (by decide) 8 hcurrent
    fun f hf _ => hend.2 f (List.mem_of_mem_drop hf)

/-- **A cut in the middle of a snapshot loses a config.**  The driver takes `api`
at version 7 and the connection is cut; `web`, at version 5, is below its cursor,
and the next lookup finds 7 and replays nothing. -/
theorem cut_snapshot_skips : ¬ ∀ (coalesced : Bool) (names : List String) (now : Instant)
    (before mid after : List LinkLabel) (front : Nat) (s₁ s₂ s₃ s : Link),
    run (Link.step coalesced) (.new names now) before = some s₁ →
    s₁.step coalesced (.server (.sub (.lookup front))) = some s₂ →
    run (Link.step coalesced) s₂ mid = some s₃ → s₃.session.sub.phase = .replaying [] →
    run (Link.step coalesced) s₃ after = some s → (∀ x ∈ mid ++ after, x.isCut = false) →
    s.taken = s₃.session.sub.stream.length →
    ∀ n ∈ names, ∀ v ∈ currentRv s₁.session.pump.pushed n,
      (∀ f ∈ s.session.pump.pushed.drop s₁.session.pump.pushed.length,
        configEventName f.event = some n → f.event.eventType ≠ .deleted) →
      ∃ w ∈ s.driver.ledger.held n, v ≤ w := by
  intro hall
  obtain ⟨s₁, h₁, hcurrent⟩ := (Option.any_eq_true _ _).mp
    (show (run (Link.step false) (.new ["api", "web"] 0) afterOne).any (fun l =>
      decide (currentRv l.session.pump.pushed "web" = some 5)) = true by decide +kernel)
  obtain ⟨s, h, hend⟩ := (Option.any_eq_true _ _).mp
    (show (run (Link.step false) (.new ["api", "web"] 0)
      (afterOne ++ [.server (.sub (.lookup 0))])).any (fun l => l.hasReplayed &&
        decide (l.taken = l.session.sub.stream.length) && decide (l.driver.ledger.held "web" = none) &&
        decide (∀ f ∈ l.session.pump.pushed, f.event.eventType ≠ .deleted)) = true by decide +kernel)
  rw [decide_eq_true_eq] at hcurrent
  simp only [Bool.and_eq_true, decide_eq_true_eq] at hend
  obtain ⟨⟨⟨hsent, htaken⟩, hheld⟩, hkeep⟩ := hend
  obtain ⟨s₁', h₁', h₂⟩ := run_snoc.mp h
  obtain rfl := Option.some.inj (h₁.symm.trans h₁')
  obtain ⟨w, hw, _⟩ := hall false _ 0 _ [] [] 0 s₁ s s s h₁ h₂ rfl (Link.phase_of_hasReplayed hsent) rfl
    (by simp) htaken "web" (by decide) 5 hcurrent fun f hf _ => hkeep f (List.mem_of_mem_drop hf)
  rw [hheld] at hw
  cases hw

end Konfig
