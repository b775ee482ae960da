import Konfig.Consumer.Ledger
import Konfig.Lib.FeedStore

/-!
# How the consumer marks what it holds

`StreamDriver::run` of `konfig-consumer`: a subscription is opened, pumped until it
ends, and opened again.  An error of the stream or of the `Subscribe` call marks every
store that is not marked yet; a stream that is closed cleanly marks none.  The back-off
between two attempts decides nothing here and is left out.

* `Driver.written`: the snapshot an event stores.
* `StreamDriver`: the loop as a machine, with the journal of what happened to its stores.
* `StreamDriver.Inv.fromDisconnect`: a store shows the first loss since it was written.
-/

namespace Konfig

open Lib

/-! ### Marking -/

@[simp] theorem ConsumerSnapshot.staleSince_markStale (now : Instant) (snap : ConsumerSnapshot) :
    (snap.markStale now).staleSince = snap.staleSince.or (some now) := by
  unfold ConsumerSnapshot.markStale
  cases hs : snap.staleSince with
  | none => rfl
  | some t => exact hs

theorem ConsumerSnapshot.markStale_markStale (now : Instant) (snap : ConsumerSnapshot) :
    (snap.markStale now).markStale now = snap.markStale now := by
  have hsome : (snap.markStale now).staleSince.isSome = true := by simp
  rw [ConsumerSnapshot.markStale, if_pos hsome]

theorem lookup_markStore (now : Instant) (stores : Map String ConsumerSnapshot) (name n : String) :
    (markStore now stores name).lookup n =
      if n = name then (stores.lookup n).map (·.markStale now) else stores.lookup n := by
  unfold markStore
  by_cases hn : n = name
  · subst hn
    rw [if_pos rfl]
    cases hlook : stores.lookup n with
    | none => exact hlook
    | some snap => exact AList.lookup_insert _
  · rw [if_neg hn]
    cases stores.lookup name with
    | none => rfl
    | some snap => exact AList.lookup_insert_ne hn

theorem lookup_foldl_markStore (now : Instant) (n : String) : ∀ (names : List String)
    (stores : Map String ConsumerSnapshot), (names.foldl (markStore now) stores).lookup n =
      if n ∈ names then (stores.lookup n).map (·.markStale now) else stores.lookup n := by
  intro names
  induction names with
  | nil => intro stores; rfl
  | cons name names ih =>
    intro stores
    rw [List.foldl_cons, ih, lookup_markStore]
    by_cases hn : n = name
    · rw [if_pos hn, if_pos (List.mem_cons.mpr (.inl hn)), Option.map_map]
      split
      · congr 1
        funext snap
        exact snap.markStale_markStale now
      · rfl
    · rw [if_neg hn]
      simp [hn]

/-- **A lost connection marks every store.** -/
theorem Driver.lookup_markAllStale {d : Driver} (ht : d.Tracks) (now : Instant) (n : String) :
    (d.markAllStale now).stores.lookup n = (d.stores.lookup n).map (·.markStale now) := by
  rw [Driver.markAllStale, lookup_foldl_markStore]
  split
  · rfl
  · rename_i hn
    rw [AList.lookup_eq_none.mpr fun hmem => hn ((ht n).mp hmem)]
    rfl

theorem Driver.staleSince_new {names : List String} {now : Instant} {n : String} :
    ∀ snap ∈ (Driver.new names now).stores.lookup n, snap.staleSince = none := by
  suffices h : ∀ (ns : List String) (stores : Map String ConsumerSnapshot),
      (∀ snap ∈ stores.lookup n, snap.staleSince = none) →
        ∀ snap ∈ (ns.foldl (fun stores name => stores.insert name (.default now)) stores).lookup n,
          snap.staleSince = none from h names ∅ (by simp)
  intro ns
  induction ns with
  | nil => intro stores h; exact h
  | cons name ns ih =>
    intro stores h
    refine ih (stores.insert name (.default now)) ?_
    intro snap hsnap
    by_cases hn : n = name
    · rw [hn, AList.lookup_insert, Option.mem_def, Option.some.injEq] at hsnap
      rw [← hsnap]
      rfl
    · rw [AList.lookup_insert_ne hn] at hsnap
      exact h snap hsnap

/-! ### The loop -/

/-- The driver with its stores.  `journal` is a history variable: what happened to the
stores so far. -/
structure StreamDriver where
  driver : Driver
  connected : Bool
  journal : List (FeedOp String ConsumerSnapshot Unit Instant)

def StreamDriver.start (names : List String) (now : Instant) : StreamDriver :=
  { driver := .new names now, connected := false, journal := [] }

inductive StreamDriverLabel
  | subscribed
  /-- The `Subscribe` call fails. -/
  | refused (now : Instant)
  | event (event : ConfigEvent) (now : Instant)
  /-- The server closes the stream without an error. -/
  | closed
  /-- The stream errors. -/
  | broke (now : Instant)

/-- The connection is lost: every store is marked. -/
def StreamDriver.lose (d : StreamDriver) (now : Instant) : StreamDriver :=
  { driver := d.driver.markAllStale now, connected := false, journal := d.journal ++ [.lose () now] }

/-- A store shows the first loss since it was written. -/
def StreamDriver.FromDisconnect (d : StreamDriver) : Prop :=
  ∀ name snap, d.driver.stores.lookup name = some snap →
    snap.staleSince = (losses (since name d.journal)).head?

/-- The stores are what the journal makes of the first ones, and nothing stale is stored. -/
structure StreamDriver.Inv (initial : Map String ConsumerSnapshot) (d : StreamDriver) : Prop where
  tracks : d.driver.Tracks
  follows : ∀ name, d.driver.stores.lookup name =
    entryAfter ConsumerSnapshot.markStale name (initial.lookup name) d.journal
  fresh : FreshWrites ConsumerSnapshot.staleSince d.journal

variable {initial : Map String ConsumerSnapshot} {d d' : StreamDriver}

theorem StreamDriver.Inv.lose (h : d.Inv initial) (now : Instant) : (d.lose now).Inv initial where
  tracks := (Driver.ledger_markAllStale h.tracks now).2
  follows name := by
    rw [StreamDriver.lose, entryAfter_snoc, ← h.follows]
    exact Driver.lookup_markAllStale h.tracks now name
  fresh name snap hmem := h.fresh name snap (by simpa [StreamDriver.lose] using hmem)

/-- **The consumer measures from the disconnect.** -/
theorem StreamDriver.Inv.fromDisconnect (h : d.Inv initial)
    (hinitial : ∀ name, ∀ snap ∈ initial.lookup name, snap.staleSince = none) : d.FromDisconnect := by
  intro name snap hsnap
  rw [h.follows] at hsnap
  exact stale_first ConsumerSnapshot.staleSince_markStale (hinitial name) h.fresh hsnap

/-! ### What an event stores -/

section

variable [SerdeJson]

/-- The name and the snapshot that an event stores. -/
def Driver.written (now : Instant) (d : Driver) (event : ConfigEvent) :
    Option (String × ConsumerSnapshot) :=
  match event.config with
  | none => none
  | some cfg =>
    if cfg.name ∈ d.stores ∧ event.eventType ≠ .deleted then
      (snapshotFromProto now cfg).toOption.map fun snap => (cfg.name, snap)
    else none

theorem staleSince_snapshotFromProto {now : Instant} {cfg : Config} {snap : ConsumerSnapshot}
    (h : snapshotFromProto now cfg = .ok snap) : snap.staleSince = none := by
  unfold snapshotFromProto at h
  split at h
  · cases h
    rfl
  · split at h
    · cases h
      rfl
    · cases h

theorem Driver.written_eq_some {now : Instant} {d : Driver} {event : ConfigEvent} {name : String}
    {new : ConsumerSnapshot} : d.written now event = some (name, new) ↔ name ∈ d.stores ∧
      ∃ cfg, event.config = some cfg ∧ cfg.name = name ∧ event.eventType ≠ .deleted ∧
        snapshotFromProto now cfg = .ok new := by
  unfold Driver.written
  cases hcfg : event.config with
  | none => simp
  | some cfg =>
    dsimp only
    constructor
    · intro h
      split at h
      · rename_i hstore
        cases hs : snapshotFromProto now cfg with
        | error e =>
          rw [hs] at h
          cases h
        | ok snap =>
          rw [hs] at h
          cases h
          exact ⟨hstore.1, cfg, rfl, rfl, hstore.2, hs⟩
      · cases h
    · rintro ⟨hmem, cfg', hcfg', rfl, htype, hs⟩
      cases hcfg'
      rw [if_pos ⟨hmem, htype⟩, hs]
      rfl

theorem Driver.written_some {now : Instant} {d : Driver} {event : ConfigEvent}
    {p : String × ConsumerSnapshot} (h : d.written now event = some p) :
    p.1 ∈ d.stores ∧ p.2.staleSince = none := by
  obtain ⟨hmem, cfg, -, -, -, hs⟩ := Driver.written_eq_some.mp h
  exact ⟨hmem, staleSince_snapshotFromProto hs⟩

/-- **What an event does to the stores.** -/
theorem Driver.stores_apply (now : Instant) (d : Driver) (event : ConfigEvent) :
    (d.apply now event).stores =
      match d.written now event with
      | some (name, snap) => d.stores.insert name snap
      | none => d.stores := by
  cases hcfg : event.config with
  | none => simp [Driver.apply, Driver.written, hcfg]
  | some cfg =>
    by_cases hstore : cfg.name ∈ d.stores ∧ event.eventType ≠ .deleted
    · cases hs : snapshotFromProto now cfg with
      | ok snap =>
        rw [Driver.apply_stored hcfg hstore.1 hstore.2 hs]
        simp [Driver.written, hcfg, hstore, hs, Except.toOption]
      | error e =>
        obtain ⟨old, hold⟩ := Option.isSome_iff_exists.mp (AList.lookup_isSome.mpr hstore.1)
        have hnone : d.written now event = none := by
          simp [Driver.written, hcfg, hs, Except.toOption]
        rw [hnone]
        simp only [Driver.apply, hcfg, hold, hs]
        cases event.eventType <;> rfl
    · have hskip : cfg.name ∉ d.stores ∨ event.eventType = .deleted := by
        by_cases hmem : cfg.name ∈ d.stores
        · exact .inr (not_not.mp fun htype => hstore ⟨hmem, htype⟩)
        · exact .inl hmem
      rw [Driver.apply_skipped hcfg hskip]
      simp only [Driver.written, hcfg, if_neg hstore]

theorem Driver.names_apply (now : Instant) (d : Driver) (event : ConfigEvent) :
    (d.apply now event).names = d.names := by
  unfold Driver.apply
  cases event.config with
  | none => rfl
  | some cfg =>
    dsimp only
    split
    · rfl
    · split <;> first | rfl | (split <;> rfl)

theorem Driver.Tracks.apply {d : Driver} (ht : d.Tracks) (now : Instant) (event : ConfigEvent) :
    (d.apply now event).Tracks := by
  intro n
  rw [Driver.names_apply, Driver.stores_apply, ← ht n]
  split
  · rename_i name snap hw
    have hmem := (Driver.written_some hw).1
    rw [AList.mem_insert]
    constructor
    · rintro (rfl | hn)
      · exact hmem
      · exact hn
    · exact .inr
  · exact Iff.rfl

/-! ### Runs -/

/-- `StreamDriver::run`. -/
def StreamDriver.step (d : StreamDriver) : StreamDriverLabel → Option StreamDriver
  | .subscribed => if d.connected then none else some { d with connected := true }
  | .refused now => if d.connected then none else some (d.lose now)
  | .event event now =>
    if d.connected then
      some { d with
        driver := d.driver.apply now event
        journal := d.journal ++ (d.driver.written now event).toList.map fun p => .write p.1 p.2 }
    else none
  | .closed => if d.connected then some { d with connected := false } else none
  | .broke now => if d.connected then some (d.lose now) else none

theorem StreamDriver.Inv.event (h : d.Inv initial) (now : Instant) (event : ConfigEvent) :
    StreamDriver.Inv initial { d with
      driver := d.driver.apply now event
      journal := d.journal ++ (d.driver.written now event).toList.map fun p => .write p.1 p.2 } := by
  refine ⟨h.tracks.apply now event, fun n => ?_, fun n s hmem => ?_⟩
  · dsimp only
    rw [Driver.stores_apply]
    cases d.driver.written now event with
    | none =>
      rw [Option.toList_none, List.map_nil, List.append_nil]
      exact h.follows n
    | some p =>
      rw [Option.toList_some, List.map_singleton, entryAfter_snoc, ← h.follows, ← lookup_applyTo]
      rfl
  · rcases List.mem_append.mp hmem with hmem | hmem
    · exact h.fresh n s hmem
    · obtain ⟨p, hp, he⟩ := List.mem_map.mp hmem
      cases he
      exact (Driver.written_some (Option.mem_toList.mp hp)).2

theorem StreamDriver.Inv.step {l : StreamDriverLabel} (h : d.Inv initial) (hstep : d.step l = some d') :
    d'.Inv initial := by
  cases l with
  | subscribed | closed =>
    simp only [StreamDriver.step] at hstep
    split at hstep
    · cases hstep <;> exact ⟨h.tracks, h.follows, h.fresh⟩
    · cases hstep <;> exact ⟨h.tracks, h.follows, h.fresh⟩
  | refused now | broke now =>
    simp only [StreamDriver.step] at hstep
    split at hstep
    · cases hstep <;> exact h.lose now
    · cases hstep <;> exact h.lose now
  | event event now =>
    simp only [StreamDriver.step] at hstep
    split at hstep
    · cases hstep
      exact h.event now event
    · cases hstep

theorem StreamDriver.inv_run {names : List String} {now : Instant} {labels : List StreamDriverLabel}
    (hrun : run StreamDriver.step (.start names now) labels = some d) :
    d.Inv (Driver.new names now).stores :=
  run_induction (fun _ d => d.Inv (Driver.new names now).stores)
    ⟨Driver.tracks_new names now, fun _ => rfl, fun _ _ h => by cases h⟩
    (fun _ _ _ _ _ h hstep => h.step hstep) labels d hrun

end

end Konfig
