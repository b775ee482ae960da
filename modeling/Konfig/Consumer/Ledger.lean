import Konfig.Consumer.Stream
import Konfig.Subscribe.Order

/-!
# What a consumer holds, and what there is to hold

The stores hold more than versions, and each delivery reads the clock.  `Ledger`
is what the resume protocol depends on: the cursor, and the version at which each
tracked config is held.  `Driver.ledger_apply` says that a driver's ledger follows
the ledger's own, simpler `apply`.

* `Ledger.held_of_last`, `Ledger.held_of_absent`: what is held after a list of
  events is the last one of the name.
* `currentRv`: the version a config is at on the server, and how it moves as
  frames are pushed.
-/

namespace Konfig

open Lib

/-! ### What is held -/

/-- The cursor and the version at which each config is held. -/
structure Ledger where
  resumeRv : String
  held : String → Option Nat

def Ledger.apply (names : List String) (a : Ledger) (event : ConfigEvent) : Ledger where
  resumeRv := advance a.resumeRv event
  held n := if n ∈ names ∧ configEventName event = some n ∧ event.eventType ≠ .deleted then
      parseU64 (eventRv event) else a.held n

theorem advance_of_rv {resumeRv : String} {event : ConfigEvent} (h : eventRv event ≠ "") :
    advance resumeRv event = eventRv event := by
  unfold advance eventRv at *
  cases hcfg : event.config with
  | none => simp [hcfg] at h
  | some cfg =>
    simp only [hcfg, Option.map_some, Option.getD_some] at h ⊢
    exact if_neg h

theorem advance_of_empty {resumeRv : String} {event : ConfigEvent} (h : eventRv event = "") :
    advance resumeRv event = resumeRv := by
  unfold advance eventRv at *
  cases hcfg : event.config with
  | none => rfl
  | some cfg =>
    simp only [hcfg, Option.map_some, Option.getD_some] at h ⊢
    exact if_pos h

/-- A cursor comes from the events applied, or was there before. -/
theorem Ledger.resumeRv_foldl (names : List String) : ∀ (events : List ConfigEvent) (a : Ledger),
    (events.foldl (Ledger.apply names) a).resumeRv = a.resumeRv ∨
    ∃ e ∈ events, (events.foldl (Ledger.apply names) a).resumeRv = eventRv e := by
  intro events
  induction events with
  | nil => intro a; exact .inl rfl
  | cons e events ih =>
    intro a
    rcases ih (a.apply names e) with h | ⟨e', he', h⟩
    · rw [List.foldl_cons, h]
      by_cases hrv : eventRv e = ""
      · exact .inl (advance_of_empty hrv)
      · exact .inr ⟨e, List.mem_cons_self, advance_of_rv hrv⟩
    · exact .inr ⟨e', List.mem_cons_of_mem _ he', h⟩

/-- Events of other configs change nothing. -/
theorem Ledger.held_of_absent {names : List String} {n : String} : ∀ (events : List ConfigEvent)
    (a : Ledger), (∀ e ∈ events, configEventName e ≠ some n) →
    (events.foldl (Ledger.apply names) a).held n = a.held n := by
  intro events
  induction events with
  | nil => intro a _; rfl
  | cons e events ih =>
    intro a h
    rw [List.foldl_cons, ih _ fun e' he' => h e' (List.mem_cons_of_mem _ he')]
    exact if_neg fun hand => h e List.mem_cons_self hand.2.1

/-- The last event of a config is the one that is held. -/
theorem Ledger.held_of_last {names : List String} {n : String} (hn : n ∈ names)
    {pre post : List ConfigEvent} {e : ConfigEvent} (a : Ledger)
    (hname : configEventName e = some n) (htype : e.eventType ≠ .deleted)
    (hpost : ∀ e' ∈ post, configEventName e' ≠ some n) :
    ((pre ++ e :: post).foldl (Ledger.apply names) a).held n = parseU64 (eventRv e) := by
  rw [List.foldl_append, List.foldl_cons, held_of_absent post _ hpost]
  exact if_pos ⟨hn, hname, htype⟩

/-! ### The driver follows its ledger -/

def Driver.ledger (d : Driver) : Ledger where
  resumeRv := d.resumeRv
  held n := (d.stores.lookup n).bind fun snap => parseU64 snap.resourceVersion

/-- There is a store for each name and no other. -/
def Driver.Tracks (d : Driver) : Prop := ∀ n, n ∈ d.stores ↔ n ∈ d.names

theorem Driver.tracks_new (names : List String) (now : Instant) : (Driver.new names now).Tracks := by
  suffices h : ∀ (ns : List String) (stores : Map String ConsumerSnapshot) (n : String),
      n ∈ ns.foldl (fun stores name => stores.insert name (.default now)) stores ↔
        n ∈ stores ∨ n ∈ ns by
    intro n
    rw [Driver.new, h]
    simp
  intro ns
  induction ns with
  | nil => intro stores n; simp
  | cons m ns ih =>
    intro stores n
    rw [List.foldl_cons, ih, AList.mem_insert, List.mem_cons]
    tauto

theorem rv_markStore (now : Instant) (stores : Map String ConsumerSnapshot) (name n : String) :
    ((markStore now stores name).lookup n).map (·.resourceVersion) =
      (stores.lookup n).map (·.resourceVersion) := by
  unfold markStore
  cases hlook : stores.lookup name with
  | none => rfl
  | some snap =>
    dsimp only
    by_cases hn : n = name
    · subst hn
      rw [AList.lookup_insert, hlook, Option.map_some, Option.map_some, ConsumerSnapshot.markStale]
      split <;> rfl
    · rw [AList.lookup_insert_ne hn]

theorem rv_foldl_markStore (now : Instant) (n : String) : ∀ (ns : List String)
    (stores : Map String ConsumerSnapshot),
    ((ns.foldl (markStore now) stores).lookup n).map (·.resourceVersion) =
      (stores.lookup n).map (·.resourceVersion) := by
  intro ns
  induction ns with
  | nil => intro stores; rfl
  | cons m ns ih =>
    intro stores
    rw [List.foldl_cons, ih, rv_markStore]

/-- A lost connection changes no version. -/
theorem Driver.ledger_markAllStale {d : Driver} (ht : d.Tracks) (now : Instant) :
    (d.markAllStale now).ledger = d.ledger ∧ (d.markAllStale now).Tracks := by
  have hrv := fun n => rv_foldl_markStore now n d.names d.stores
  refine ⟨?_, fun n => ?_⟩
  · simp only [Driver.ledger, Ledger.mk.injEq]
    refine ⟨rfl, funext fun n => ?_⟩
    have hbind : ∀ o : Option ConsumerSnapshot, (o.bind fun snap => parseU64 snap.resourceVersion) =
        (o.map (·.resourceVersion)).bind parseU64 := by
      intro o
      cases o <;> rfl
    rw [hbind, hbind]
    exact congrArg (·.bind parseU64) (hrv n)
  · rw [← AList.lookup_isSome]
    refine Iff.trans ?_ (AList.lookup_isSome.trans (ht n))
    have hsome := congrArg Option.isSome (hrv n)
    rw [Option.isSome_map, Option.isSome_map] at hsome
    rw [← hsome]
    rfl

section

variable [SerdeJson]

/-- The consumer can parse what the event carries. -/
def Readable (event : ConfigEvent) : Prop :=
  ∀ cfg ∈ event.config, cfg.contentJson = "" ∨ (SerdeJson.fromStr cfg.contentJson).isOk = true

instance (event : ConfigEvent) : Decidable (Readable event) :=
  inferInstanceAs (Decidable (∀ cfg ∈ event.config, _))

theorem snapshotFromProto_of_readable {event : ConfigEvent} (h : Readable event) {cfg : Config}
    (hcfg : event.config = some cfg) (now : Instant) :
    ∃ snap, snapshotFromProto now cfg = .ok snap ∧ snap.resourceVersion = cfg.resourceVersion := by
  unfold snapshotFromProto
  by_cases hempty : cfg.contentJson = ""
  · rw [if_pos hempty]
    exact ⟨_, rfl, rfl⟩
  · rw [if_neg hempty]
    have hok := (h cfg hcfg).resolve_left hempty
    cases hv : SerdeJson.fromStr cfg.contentJson with
    | error e =>
      rw [hv] at hok
      cases hok
    | ok v => exact ⟨_, rfl, rfl⟩

/-- A readable event of a tracked config that is not a delete is stored. -/
theorem Driver.apply_stored {d : Driver} {event : ConfigEvent} {cfg : Config}
    (hcfg : event.config = some cfg) (hmem : cfg.name ∈ d.stores) (htype : event.eventType ≠ .deleted)
    {now : Instant} {snap : ConsumerSnapshot} (hsnap : snapshotFromProto now cfg = .ok snap) :
    d.apply now event = { d with resumeRv := advance d.resumeRv event,
                                 stores := d.stores.insert cfg.name snap } := by
  obtain ⟨old, hold⟩ := Option.isSome_iff_exists.mp (AList.lookup_isSome.mpr hmem)
  simp only [Driver.apply, hcfg, hold]
  cases htp : event.eventType with
  | deleted => exact absurd htp htype
  | added | modified | snapshot => simp only [hsnap]

/-- An event of an untracked config, or a delete, only moves the cursor. -/
theorem Driver.apply_skipped {d : Driver} {event : ConfigEvent} {cfg : Config}
    (hcfg : event.config = some cfg) (h : cfg.name ∉ d.stores ∨ event.eventType = .deleted)
    (now : Instant) : d.apply now event = { d with resumeRv := advance d.resumeRv event } := by
  simp only [Driver.apply, hcfg]
  rcases h with h | h
  · rw [AList.lookup_eq_none.mpr h]
  · simp only [h]
    split <;> rfl

/-- **An event does to a driver what it does to its ledger.** -/
theorem Driver.ledger_apply {d : Driver} (ht : d.Tracks) {event : ConfigEvent} (hr : Readable event)
    (now : Instant) : (d.apply now event).ledger = d.ledger.apply d.names event ∧
      (d.apply now event).Tracks ∧ (d.apply now event).names = d.names := by
  cases hcfg : event.config with
  | none =>
    have hsame : d.apply now event = d := by simp only [Driver.apply, hcfg]
    rw [hsame]
    refine ⟨?_, ht, rfl⟩
    simp only [Ledger.apply, advance, configEventName, hcfg, Option.map_none, reduceCtorEq, false_and,
      and_false, if_false]
  | some cfg =>
    have hname : configEventName event = some cfg.name := by simp [configEventName, hcfg]
    have hrv : eventRv event = cfg.resourceVersion := by simp [eventRv, hcfg]
    by_cases hstore : cfg.name ∈ d.stores ∧ event.eventType ≠ .deleted
    · obtain ⟨snap, hsnap, hsnapRv⟩ := snapshotFromProto_of_readable hr hcfg now
      rw [Driver.apply_stored hcfg hstore.1 hstore.2 hsnap]
      refine ⟨?_, fun n => ?_, rfl⟩
      · simp only [Driver.ledger, Ledger.apply, hname, hrv, Option.some.injEq, Ledger.mk.injEq, true_and]
        funext n
        by_cases hn : cfg.name = n
        · subst hn
          rw [AList.lookup_insert, if_pos ⟨(ht _).mp hstore.1, rfl, hstore.2⟩, Option.bind_some, hsnapRv]
        · rw [AList.lookup_insert_ne (Ne.symm hn), if_neg fun hand => hn hand.2.1]
      · rw [AList.mem_insert, ← ht n]
        constructor
        · rintro (rfl | hn)
          · exact hstore.1
          · exact hn
        · exact .inr
    · have hskip : cfg.name ∉ d.stores ∨ event.eventType = .deleted := by
        by_cases hmem : cfg.name ∈ d.stores
        · exact .inr (not_not.mp fun htype => hstore ⟨hmem, htype⟩)
        · exact .inl hmem
      rw [Driver.apply_skipped hcfg hskip]
      refine ⟨?_, ht, rfl⟩
      simp only [Driver.ledger, Ledger.apply, hname, Option.some.injEq, Ledger.mk.injEq, true_and]
      funext n
      refine (if_neg fun hand => hstore ?_).symm
      obtain ⟨hn, rfl, htype⟩ := hand
      exact ⟨(ht _).mpr hn, htype⟩

end

/-! ### What a config is at -/

/-- The last frame pushed for a config. -/
def latestFrame (pushed : List BroadcastFrame) (name : String) : Option BroadcastFrame :=
  (pushed.filter fun f => decide (configEventName f.event = some name)).getLast?

/-- The version a config is at, if it exists. -/
def currentRv (pushed : List BroadcastFrame) (name : String) : Option Nat :=
  (latestFrame pushed name).bind fun f => if f.event.eventType = .deleted then none else f.rv

/-- Something at or above `r` has been pushed. -/
def Reached (pushed : List BroadcastFrame) (r : Nat) : Prop := ∃ f ∈ pushed, ∃ w ∈ f.rv, r ≤ w

instance (pushed : List BroadcastFrame) (r : Nat) : Decidable (Reached pushed r) :=
  inferInstanceAs (Decidable (∃ f ∈ pushed, _))

theorem Reached.mono {pushed gs : List BroadcastFrame} {r : Nat} (h : Reached pushed r) :
    Reached (pushed ++ gs) r := by
  obtain ⟨f, hf, hle⟩ := h
  exact ⟨f, List.mem_append_left _ hf, hle⟩

/-- What is pushed later is above everything reached before. -/
theorem Reached.lt_of_append {pushed gs : List BroadcastFrame} {r : Nat} (h : Reached pushed r)
    (hinc : Increasing (pushed ++ gs)) {g : BroadcastFrame} (hg : g ∈ gs) {w : Nat} (hw : g.rv = some w) :
    r < w := by
  obtain ⟨f, hf, x, hx, hle⟩ := h
  have hlt := (List.pairwise_append.mp hinc.2).2.2 f hf g hg x hx w hw
  omega

theorem reached_of_mem {pushed : List BroadcastFrame} {f : BroadcastFrame} (hf : f ∈ pushed) {v : Nat}
    (hv : f.rv = some v) : Reached pushed v :=
  ⟨f, hf, v, hv, le_rfl⟩

theorem currentRv_append_of_absent {fs gs : List BroadcastFrame} {n : String}
    (h : ∀ g ∈ gs, configEventName g.event ≠ some n) : currentRv (fs ++ gs) n = currentRv fs n := by
  have hnone : (gs.filter fun f => decide (configEventName f.event = some n)) = [] := by
    rw [List.filter_eq_nil_iff]
    intro g hg
    simpa using h g hg
  rw [currentRv, latestFrame, List.filter_append, hnone, List.append_nil]
  rfl

theorem currentRv_append_of_present {fs gs : List BroadcastFrame} {n : String} {g : BroadcastFrame}
    (hg : g ∈ gs) (hname : configEventName g.event = some n) :
    currentRv (fs ++ gs) n = currentRv gs n := by
  have hne : (gs.filter fun f => decide (configEventName f.event = some n)) ≠ [] :=
    List.ne_nil_of_mem (List.mem_filter.mpr ⟨hg, decide_eq_true hname⟩)
  rw [currentRv, latestFrame, List.filter_append, List.getLast?_append_of_ne_nil _ hne]
  rfl

/-- The current version is that of a frame, and the highest of the config. -/
theorem currentRv_spec {fs : List BroadcastFrame} (hinc : Increasing fs) {n : String} {v : Nat}
    (h : currentRv fs n = some v) : ∃ f ∈ fs, configEventName f.event = some n ∧ f.rv = some v ∧
      f.event.eventType ≠ .deleted ∧
      ∀ g ∈ fs, configEventName g.event = some n → ∀ w ∈ g.rv, w ≤ v := by
  obtain ⟨f, hlast, hf⟩ := Option.bind_eq_some_iff.mp h
  split at hf
  · cases hf
  · rename_i htype
    obtain ⟨ys, hys⟩ := List.getLast?_eq_some_iff.mp hlast
    have hmem : f ∈ fs.filter fun f => decide (configEventName f.event = some n) := by
      rw [hys]
      exact List.mem_append_right _ List.mem_cons_self
    obtain ⟨hfs, hname⟩ := List.mem_filter.mp hmem
    refine ⟨f, hfs, of_decide_eq_true hname, hf, htype, fun g hg hgname w hw => ?_⟩
    have hgmem : g ∈ ys ++ [f] := by
      rw [← hys]
      exact List.mem_filter.mpr ⟨hg, decide_eq_true hgname⟩
    rcases List.mem_append.mp hgmem with hgys | hgf
    · have hsub : (ys ++ [f]).Sublist fs := hys ▸ List.filter_sublist
      have hpair := (hinc.sublist hsub).2
      rw [List.pairwise_append] at hpair
      exact Nat.le_of_lt (hpair.2.2 g hgys f List.mem_cons_self w hw v hf)
    · rw [List.mem_singleton.mp hgf, hf] at hw
      exact (Option.some.inj hw).ge

/-- A config that is not deleted only moves up. -/
theorem currentRv_grow {q gs : List BroadcastFrame} (hinc : Increasing (q ++ gs)) {n : String} {v : Nat}
    (h : currentRv q n = some v)
    (hkeep : ∀ f ∈ gs, configEventName f.event = some n → f.event.eventType ≠ .deleted) :
    ∃ v' ∈ currentRv (q ++ gs) n, v ≤ v' := by
  by_cases habsent : ∀ g ∈ gs, configEventName g.event ≠ some n
  · exact ⟨v, by rw [currentRv_append_of_absent habsent]; exact h, le_rfl⟩
  · push Not at habsent
    obtain ⟨g, hg, hname⟩ := habsent
    rw [currentRv_append_of_present hg hname]
    have hne : (gs.filter fun f => decide (configEventName f.event = some n)) ≠ [] :=
      List.ne_nil_of_mem (List.mem_filter.mpr ⟨hg, decide_eq_true hname⟩)
    obtain ⟨hlast, hlastname⟩ := List.mem_filter.mp (List.getLast_mem hne)
    obtain ⟨v', hv'⟩ := Option.isSome_iff_exists.mp (hinc.1 _ (List.mem_append_right _ hlast))
    refine ⟨v', ?_, ?_⟩
    · rw [Option.mem_def, currentRv, latestFrame, List.getLast?_eq_some_getLast hne, Option.bind_some,
        if_neg (hkeep _ hlast (of_decide_eq_true hlastname)), hv']
    · obtain ⟨f, hf, _, hrv, _⟩ := currentRv_spec (hinc.sublist (List.sublist_append_left _ _)) h
      exact Nat.le_of_lt ((reached_of_mem hf hrv).lt_of_append hinc hlast hv')

/-! ### Frames that are delivered -/

theorem parseU64_of_resumeRv {s : String} {r : Nat} (h : parseResumeRv s = some r) :
    parseU64 s = some r := by
  unfold parseResumeRv at h
  split at h
  · cases h
  · exact h

theorem rv_ne_empty {e : ConfigEvent} {v : Nat} (h : parseU64 (eventRv e) = some v) :
    eventRv e ≠ "" := by
  intro hempty
  rw [hempty] at h
  cases h

/-- A numbered event becomes the cursor. -/
theorem Ledger.cursor_of_last {names : List String} {events : List ConfigEvent} {e : ConfigEvent}
    {a : Ledger} {v r : Nat} (hv : parseU64 (eventRv e) = some v)
    (hr : parseResumeRv ((events ++ [e]).foldl (Ledger.apply names) a).resumeRv = some r) : r = v := by
  rw [List.foldl_append, List.foldl_cons, List.foldl_nil, Ledger.apply,
    advance_of_rv (rv_ne_empty hv)] at hr
  exact Option.some.inj ((parseU64_of_resumeRv hr).symm.trans hv)

theorem allowedBy_ofNames {names : List String} {n : String} (hn : n ∈ names) {f : BroadcastFrame}
    (hname : configEventName f.event = some n) : f.allowedBy (.ofNames names) = true := by
  rw [BroadcastFrame.allowedBy, filterAllowsEvent, hname]
  exact SubscribeFilter.ofNames_allow hn _

theorem allowed_snoc {filter : SubscribeFilter} (fs : List BroadcastFrame) {f : BroadcastFrame}
    (h : f.allowedBy filter = true) : allowed filter ((fs ++ [f]).map BroadcastFrame.item) =
      allowed filter (fs.map BroadcastFrame.item) ++ [f.event] := by
  rw [List.map_append, List.map_singleton, allowed_append, allowed_singleton]
  rw [if_pos (show filterAllowsEvent filter f.item.1 f.item.2 = true from h)]
  rfl

/-- After increasing frames, a config is held at its highest. -/
theorem Ledger.held_of_frames {names : List String} {n : String} (hn : n ∈ names)
    {fs : List BroadcastFrame} (hinc : Increasing fs) {f : BroadcastFrame} (hf : f ∈ fs)
    (hname : configEventName f.event = some n) (htype : f.event.eventType ≠ .deleted) {v : Nat}
    (hv : f.rv = some v)
    (hmax : ∀ g ∈ fs, configEventName g.event = some n → ∀ w ∈ g.rv, w ≤ v) (a : Ledger) :
    ((allowed (.ofNames names) (fs.map BroadcastFrame.item)).foldl (Ledger.apply names) a).held n =
      some v := by
  have hmem : f ∈ fs.filter (·.allowedBy (.ofNames names)) :=
    List.mem_filter.mpr ⟨hf, allowedBy_ofNames hn hname⟩
  have hsub : (fs.filter (·.allowedBy (.ofNames names))).Sublist fs := List.filter_sublist
  rw [allowed_map_item]
  obtain ⟨pre, post, hsplit⟩ := List.append_of_mem hmem
  rw [hsplit] at hsub ⊢
  rw [List.map_append, List.map_cons, Ledger.held_of_last hn a hname htype]
  · exact hv
  · intro e he hename
    obtain ⟨g, hg, rfl⟩ := List.mem_map.mp he
    have hgfs : g ∈ fs := hsub.subset (List.mem_append_right _ (List.mem_cons_of_mem _ hg))
    obtain ⟨w, hw⟩ := Option.isSome_iff_exists.mp (hinc.1 g hgfs)
    have hlt := (List.pairwise_cons.mp (List.pairwise_append.mp (hinc.sublist hsub).2).2.1).1 g hg
      v hv w hw
    have hle := hmax g hgfs hename w hw
    omega

theorem Ledger.held_of_no_frames {names : List String} {n : String} {fs : List BroadcastFrame}
    (h : ∀ f ∈ fs, configEventName f.event ≠ some n) (filter : SubscribeFilter) (a : Ledger) :
    ((allowed filter (fs.map BroadcastFrame.item)).foldl (Ledger.apply names) a).held n = a.held n := by
  refine Ledger.held_of_absent _ a fun e he => ?_
  rw [allowed_map_item] at he
  obtain ⟨f, hf, rfl⟩ := List.mem_map.mp he
  exact h f (List.mem_of_mem_filter hf)

/-! ### Nothing below the cursor is missing -/

/-- Every config that is at or below the cursor is held, or is among `missing`. -/
def CaughtAt (names : List String) (pushed : List BroadcastFrame) (missing : List ConfigEvent)
    (a : Ledger) : Prop :=
  ∀ n ∈ names, ∀ v ∈ currentRv pushed n, ∀ r ∈ parseResumeRv a.resumeRv, v ≤ r →
    (∃ w ∈ a.held n, v ≤ w) ∨ ∃ e ∈ missing, eventKey e = (some n, some v)

/-- What is pushed later is above the cursor. -/
theorem CaughtAt.push {names : List String} {pushed gs : List BroadcastFrame}
    {missing : List ConfigEvent} {a : Ledger} (h : CaughtAt names pushed missing a)
    (hr : ∀ r ∈ parseResumeRv a.resumeRv, Reached pushed r) (hinc : Increasing (pushed ++ gs)) :
    CaughtAt names (pushed ++ gs) missing a := by
  intro n hn v hv r hcur hle
  by_cases habsent : ∀ g ∈ gs, configEventName g.event ≠ some n
  · rw [currentRv_append_of_absent habsent] at hv
    exact h n hn v hv r hcur hle
  · push Not at habsent
    obtain ⟨g, hg, hname⟩ := habsent
    rw [currentRv_append_of_present hg hname] at hv
    obtain ⟨f, hf, _, hrv, _⟩ := currentRv_spec (hinc.sublist (List.sublist_append_right _ _)) hv
    have hlt := (hr r hcur).lt_of_append hinc hf hrv
    omega

theorem CaughtAt.weaken {names : List String} {pushed : List BroadcastFrame} {a : Ledger}
    (h : CaughtAt names pushed [] a) (missing : List ConfigEvent) :
    CaughtAt names pushed missing a := by
  intro n hn v hv r hr hle
  rcases h n hn v hv r hr hle with hheld | ⟨e, he, _⟩
  · exact .inl hheld
  · cases he

/-- What the buffer read brings: each config is in the slice at its version, or
not in the slice and already held. -/
def Supply (names : List String) (a : Ledger) (fs read : List BroadcastFrame) : Prop :=
  ∀ n ∈ names, ∀ v ∈ currentRv read n,
    (∃ f ∈ fs, configEventName f.event = some n ∧ f.event.eventType ≠ .deleted ∧ f.rv = some v) ∨
    ((∃ w ∈ a.held n, v ≤ w) ∧ ∀ f ∈ fs, configEventName f.event ≠ some n)

/-- A hit supplies everything above the cursor, and the rest is held. -/
theorem supply_of_hit {names : List String} {pushed : List BroadcastFrame} {a : Ledger} {r : Nat}
    (hinc : Increasing pushed) (hcaught : CaughtAt names pushed [] a)
    (hr : parseResumeRv a.resumeRv = some r) :
    Supply names a (pushed.filter (·.above r)) pushed := by
  intro n hn v hv
  obtain ⟨f, hf, hname, hrv, htype, hmax⟩ := currentRv_spec hinc hv
  rcases Nat.lt_or_ge r v with hlt | hge
  · refine .inl ⟨f, List.mem_filter.mpr ⟨hf, ?_⟩, hname, htype, hrv⟩
    exact BroadcastFrame.above_iff.mpr ⟨v, hrv, hlt⟩
  · refine .inr ⟨?_, fun g hg hgname => ?_⟩
    · rcases hcaught n hn v hv r hr hge with hheld | ⟨e, he, _⟩
      · exact hheld
      · cases he
    · obtain ⟨hg, habove⟩ := List.mem_filter.mp hg
      obtain ⟨w, hw, hlt⟩ := BroadcastFrame.above_iff.mp habove
      have hle := hmax g hg hgname w hw
      omega

section

variable {names : List String} {a : Ledger} {fs read later : List BroadcastFrame}

/-- After the slice, everything that was there at the read is held. -/
theorem Supply.held (hs : Supply names a fs read) (hinc : Increasing read) (hfs : fs.Sublist read)
    {n : String} (hn : n ∈ names) {v : Nat} (hv : currentRv read n = some v) :
    ∃ w ∈ ((allowed (.ofNames names) (fs.map BroadcastFrame.item)).foldl (Ledger.apply names) a).held n,
      v ≤ w := by
  rcases hs n hn v hv with ⟨f, hf, hname, htype, hrv⟩ | ⟨hheld, habsent⟩
  · obtain ⟨_, _, _, _, _, hmax⟩ := currentRv_spec hinc hv
    refine ⟨v, ?_, le_rfl⟩
    exact Ledger.held_of_frames hn (hinc.sublist hfs) hf hname htype hrv
      (fun g hg => hmax g (hfs.subset hg)) a
  · rw [Ledger.held_of_no_frames habsent]
    exact hheld

/-- In the middle of the slice. -/
theorem Supply.caught_replay (hs : Supply names a fs read) (hinc : Increasing (read ++ later))
    (hfs : fs.Sublist read) {gs rest : List BroadcastFrame} {f : BroadcastFrame}
    (hsplit : fs = gs ++ f :: rest) (hallow : f.allowedBy (.ofNames names) = true) :
    CaughtAt names (read ++ later) [] ((allowed (.ofNames names)
      ((gs ++ [f]).map BroadcastFrame.item)).foldl (Ledger.apply names) a) := by
  have hread : Increasing read := hinc.sublist (List.sublist_append_left _ _)
  have hf : f ∈ read := hfs.subset (by rw [hsplit]; simp)
  obtain ⟨x, hx⟩ := Option.isSome_iff_exists.mp (hread.1 f hf)
  intro n hn v hv r hr hle
  rw [allowed_snoc gs hallow] at hr
  obtain rfl := Ledger.cursor_of_last hx hr
  -- a config at or below the cursor was there when the buffer was read
  have habsent : ∀ g ∈ later, configEventName g.event ≠ some n := by
    intro g hg hname
    rw [currentRv_append_of_present hg hname] at hv
    obtain ⟨c, hc, _, hrv, _⟩ := currentRv_spec (hinc.sublist (List.sublist_append_right _ _)) hv
    have hlt := (reached_of_mem hf hx).lt_of_append hinc hc hrv
    omega
  rw [currentRv_append_of_absent habsent] at hv
  have hsub : (gs ++ [f]).Sublist fs := by
    rw [hsplit, List.append_cons gs f rest]
    exact List.sublist_append_left _ _
  rcases hs n hn v hv with ⟨c, hc, hname, htype, hrv⟩ | ⟨hheld, hnone⟩
  · obtain ⟨_, _, _, _, _, hmax⟩ := currentRv_spec hread hv
    have hmem : c ∈ gs ++ [f] := by
      rw [hsplit, List.append_cons, List.mem_append] at hc
      rcases hc with hc | hc
      · exact hc
      · have hpair := (hread.sublist hfs).2
        rw [hsplit] at hpair
        have hlt := (List.pairwise_cons.mp (List.pairwise_append.mp hpair).2.1).1 c hc r hx v hrv
        omega
    refine .inl ⟨v, ?_, le_rfl⟩
    exact Ledger.held_of_frames hn (hread.sublist (hsub.trans hfs)) hmem hname htype hrv
      (fun g hg => hmax g (hfs.subset (hsub.subset hg))) a
  · rw [Ledger.held_of_no_frames fun g hg => hnone g (hsub.subset hg)]
    exact .inl hheld

/-- In the middle of the live frames. -/
theorem Supply.caught_live (hs : Supply names a fs read) (hinc : Increasing (read ++ later))
    (hfs : fs.Sublist read) {start : Nat} (hstart : start ≤ read.length) {gs : List BroadcastFrame}
    {f : BroadcastFrame} (hlive : gs ++ [f] <+: (read ++ later).drop start)
    (hallow : f.allowedBy (.ofNames names) = true) :
    CaughtAt names (read ++ later) [] ((allowed (.ofNames names)
      ((gs ++ [f]).map BroadcastFrame.item)).foldl (Ledger.apply names) ((allowed (.ofNames names)
        (fs.map BroadcastFrame.item)).foldl (Ledger.apply names) a)) := by
  have hsub : (gs ++ [f]).Sublist (read ++ later) := hlive.sublist.trans (List.drop_sublist _ _)
  have hread : Increasing read := hinc.sublist (List.sublist_append_left _ _)
  obtain ⟨x, hx⟩ := Option.isSome_iff_exists.mp (hinc.1 f (hsub.subset (by simp)))
  intro n hn v hv r hr hle
  rw [allowed_snoc gs hallow] at hr
  obtain rfl := Ledger.cursor_of_last hx hr
  obtain ⟨c, hc, hname, hrv, htype, hmax⟩ := currentRv_spec hinc hv
  by_cases hsome : ∃ g ∈ (read ++ later).drop start, configEventName g.event = some n
  · -- the config comes live, and its last frame is not beyond the cursor
    have hmem : c ∈ gs ++ [f] := by
      obtain ⟨g, hg, hgname⟩ := hsome
      obtain ⟨w, hw⟩ := Option.isSome_iff_exists.mp (hinc.1 g (List.mem_of_mem_drop hg))
      have hle' := hmax g (List.mem_of_mem_drop hg) hgname w hw
      have hpair := hinc.2
      rw [← List.take_append_drop start (read ++ later), List.pairwise_append] at hpair
      rw [← List.take_append_drop start (read ++ later), List.mem_append] at hc
      rcases hc with hc | hc
      · have hlt := hpair.2.2 c hc g hg v hrv w hw
        omega
      · obtain ⟨rest, hrest⟩ := hlive
        rw [← hrest, List.mem_append] at hc
        rcases hc with hc | hc
        · exact hc
        · have hpair' := hpair.2.1
          rw [← hrest, List.pairwise_append] at hpair'
          have hlt := hpair'.2.2 f (by simp) c hc r hx v hrv
          omega
    refine .inl ⟨v, ?_, le_rfl⟩
    exact Ledger.held_of_frames hn (hinc.sublist hsub) hmem hname htype hrv
      (fun g hg => hmax g (hsub.subset hg)) _
  · -- it does not come live, so what it was at the read is what it is
    push Not at hsome
    have habsent : ∀ g ∈ later, configEventName g.event ≠ some n := by
      intro g hg
      refine hsome g ?_
      rw [List.drop_append_of_le_length hstart]
      exact List.mem_append_right _ hg
    rw [currentRv_append_of_absent habsent] at hv
    rw [Ledger.held_of_no_frames fun g hg => hsome g (hlive.subset hg)]
    exact .inl (hs.held hread hfs hn hv)

end

end Konfig
