import Konfig.Consumer.Outage

/-!
# What a consumer reads

The stores of the consumer after any sequence of events and connection losses.  What a store
reads is said of the sequence alone: the last event that was stored under its name, and the
first loss since.

* `readModel`: what is to be read under a name.
* `Driver.lookup_op`: what one event or loss does to one store.
* `driver_reads`: all stores and the cursor after any sequence.
-/

namespace Konfig

open Lib

/-- What happens to the stores: an event is applied, or the connection is lost. -/
inductive ConsumerOp
  | event (now : Instant) (event : ConfigEvent)
  | lost (now : Instant)

section

variable [SerdeJson]

def Driver.op (d : Driver) : ConsumerOp → Driver
  | .event now event => d.apply now event
  | .lost now => d.markAllStale now

/-! ### What a sequence says -/

/-- The snapshot to be stored under a name: that of an event that is not a delete and
whose content parses. -/
def storedFor (name : String) : ConsumerOp → Option ConsumerSnapshot
  | .event now event => event.config.bind fun cfg =>
    if cfg.name = name ∧ event.eventType ≠ .deleted then (snapshotFromProto now cfg).toOption else none
  | .lost _ => none

/-- The last snapshot to be stored under a name. -/
def lastStored (name : String) (ops : List ConsumerOp) : Option ConsumerSnapshot :=
  (ops.filterMap (storedFor name)).getLast?

/-- What happened after it. -/
def sinceStored (name : String) (ops : List ConsumerOp) : List ConsumerOp :=
  (ops.reverse.takeWhile fun op => (storedFor name op).isNone).reverse

omit [SerdeJson] in
/-- The instant of the first connection loss. -/
def firstLoss (ops : List ConsumerOp) : Option Instant :=
  (ops.filterMap fun
    | .lost now => some now
    | .event _ _ => none).head?

omit [SerdeJson] in
/-- The last version that is not empty of any event with a payload. -/
def lastRv (ops : List ConsumerOp) : Option String :=
  (ops.filterMap fun
    | .event _ event => event.config.bind fun cfg =>
      if cfg.resourceVersion = "" then none else some cfg.resourceVersion
    | .lost _ => none).getLast?

/-- What is to be read under a name that starts with the snapshot `first`. -/
def readModel (name : String) (first : ConsumerSnapshot) (ops : List ConsumerOp) : ConsumerSnapshot :=
  { (lastStored name ops).getD first with staleSince := firstLoss (sinceStored name ops) }

/-! ### One more operation -/

variable {name : String} {op : ConsumerOp} {new first : ConsumerSnapshot}

theorem storedFor_event {now : Instant} {event : ConfigEvent} :
    storedFor name (.event now event) = some new ↔ ∃ cfg, event.config = some cfg ∧ cfg.name = name ∧
      event.eventType ≠ .deleted ∧ snapshotFromProto now cfg = .ok new := by
  unfold storedFor
  rw [Option.bind_eq_some_iff]
  refine exists_congr fun cfg => and_congr_right fun _ => ?_
  by_cases h : cfg.name = name ∧ event.eventType ≠ .deleted
  · rw [if_pos h]
    cases snapshotFromProto now cfg <;> simp [Except.toOption, h]
  · rw [if_neg h]
    constructor
    · intro hnone
      cases hnone
    · rintro ⟨hname, htype, -⟩
      exact absurd ⟨hname, htype⟩ h

theorem staleSince_storedFor (h : storedFor name op = some new) : new.staleSince = none := by
  cases op with
  | lost now => cases h
  | event now event =>
    obtain ⟨cfg, -, -, -, hsnap⟩ := storedFor_event.mp h
    exact staleSince_snapshotFromProto hsnap

theorem readModel_snoc_stored (h : storedFor name op = some new) (ops : List ConsumerOp) :
    readModel name first (ops ++ [op]) = new := by
  have hlast : lastStored name (ops ++ [op]) = some new := by simp [lastStored, h]
  have hsince : sinceStored name (ops ++ [op]) = [] := by simp [sinceStored, h]
  rw [readModel, hlast, hsince]
  show { new with staleSince := none } = new
  rw [← staleSince_storedFor h]

theorem lastStored_snoc (h : storedFor name op = none) (ops : List ConsumerOp) :
    lastStored name (ops ++ [op]) = lastStored name ops := by
  simp [lastStored, h]

theorem sinceStored_snoc (h : storedFor name op = none) (ops : List ConsumerOp) :
    sinceStored name (ops ++ [op]) = sinceStored name ops ++ [op] := by
  simp [sinceStored, h]

theorem readModel_snoc_event {now : Instant} {event : ConfigEvent}
    (h : storedFor name (.event now event) = none) (ops : List ConsumerOp) :
    readModel name first (ops ++ [.event now event]) = readModel name first ops := by
  rw [readModel, lastStored_snoc h, sinceStored_snoc h, readModel]
  simp [firstLoss]

theorem readModel_snoc_lost (now : Instant) (ops : List ConsumerOp) :
    readModel name first (ops ++ [.lost now]) = (readModel name first ops).markStale now := by
  rw [readModel, lastStored_snoc rfl, sinceStored_snoc rfl]
  have hloss : firstLoss (sinceStored name ops ++ [.lost now]) =
      (firstLoss (sinceStored name ops)).or (some now) := by
    simp [firstLoss, List.head?_append]
  rw [hloss, readModel, ConsumerSnapshot.markStale]
  cases firstLoss (sinceStored name ops) <;> rfl

/-- What a loss does to a snapshot, and an event that is not stored. -/
def ConsumerOp.mark (op : ConsumerOp) (snap : ConsumerSnapshot) : ConsumerSnapshot :=
  match op with
  | .lost now => snap.markStale now
  | .event _ _ => snap

theorem readModel_snoc (name : String) (first : ConsumerSnapshot) (ops : List ConsumerOp)
    (op : ConsumerOp) : readModel name first (ops ++ [op]) =
      (storedFor name op).getD (op.mark (readModel name first ops)) := by
  cases h : storedFor name op with
  | some new => exact readModel_snoc_stored h ops
  | none =>
    cases op with
    | lost now => exact readModel_snoc_lost now ops
    | event now event => exact readModel_snoc_event h ops

/-! ### The stores -/

variable {d : Driver}

theorem Driver.written_iff {now : Instant} {event : ConfigEvent} :
    d.written now event = some (name, new) ↔
      name ∈ d.stores ∧ storedFor name (.event now event) = some new := by
  rw [storedFor_event, Driver.written_eq_some]

theorem storedFor_unique {name' : String} {new' : ConsumerSnapshot} (h : storedFor name op = some new)
    (h' : storedFor name' op = some new') : name' = name := by
  cases op with
  | lost now => cases h
  | event now event =>
    obtain ⟨cfg, hcfg, rfl, -, -⟩ := storedFor_event.mp h
    obtain ⟨cfg', hcfg', rfl, -, -⟩ := storedFor_event.mp h'
    rw [hcfg] at hcfg'
    cases hcfg'
    rfl

/-- An event writes to the store of its name only, and what `storedFor` says. -/
theorem Driver.lookup_apply (d : Driver) (now : Instant) (event : ConfigEvent) (name : String) :
    (d.apply now event).stores.lookup name =
      (d.stores.lookup name).map fun snap => (storedFor name (.event now event)).getD snap := by
  rw [Driver.stores_apply]
  cases hw : d.written now event with
  | none =>
    dsimp only
    cases hlook : d.stores.lookup name with
    | none => rfl
    | some old =>
      cases hs : storedFor name (.event now event) with
      | none => rfl
      | some new =>
        rw [Driver.written_iff.mpr ⟨AList.lookup_isSome.mp (by rw [hlook]; rfl), hs⟩] at hw
        cases hw
  | some p =>
    obtain ⟨name', new⟩ := p
    obtain ⟨hmem, hs⟩ := Driver.written_iff.mp hw
    dsimp only
    by_cases hn : name = name'
    · subst hn
      obtain ⟨old, hold⟩ := Option.isSome_iff_exists.mp (AList.lookup_isSome.mpr hmem)
      rw [AList.lookup_insert, hold, hs]
      rfl
    · rw [AList.lookup_insert_ne hn]
      cases hs' : storedFor name (.event now event) with
      | none => exact Option.map_id'.symm
      | some new' => exact absurd (storedFor_unique hs hs') hn

/-- **What one event or loss does to one store.** -/
theorem Driver.lookup_op (ht : d.Tracks) (op : ConsumerOp) (name : String) :
    (d.op op).stores.lookup name =
      (d.stores.lookup name).map fun snap => (storedFor name op).getD (op.mark snap) := by
  cases op with
  | event now event => exact Driver.lookup_apply d now event name
  | lost now => exact Driver.lookup_markAllStale ht now name

theorem Driver.tracks_op (ht : d.Tracks) (op : ConsumerOp) : (d.op op).Tracks := by
  cases op with
  | event now event => exact ht.apply now event
  | lost now => exact (Driver.ledger_markAllStale ht now).2

theorem Driver.tracks_foldl (ht : d.Tracks) (ops : List ConsumerOp) : (ops.foldl Driver.op d).Tracks := by
  induction ops using List.reverseRecOn with
  | nil => exact ht
  | append_singleton ops op ih =>
    rw [List.foldl_append]
    exact Driver.tracks_op ih op

/-- No store is marked. -/
def Driver.Fresh (d : Driver) : Prop :=
  ∀ name, ∀ snap ∈ d.stores.lookup name, snap.staleSince = none

theorem Driver.lookup_foldl (ht : d.Tracks) (hfresh : d.Fresh) (name : String) (ops : List ConsumerOp) :
    (ops.foldl Driver.op d).stores.lookup name =
      (d.stores.lookup name).map fun first => readModel name first ops := by
  -- the induction is on the last operation
  induction ops using List.reverseRecOn with
  | nil =>
    cases hlook : d.stores.lookup name with
    | none => exact hlook
    | some first =>
      have hnone := hfresh name first hlook
      show d.stores.lookup name = some { first with staleSince := none }
      rw [hlook, ← hnone]
  | append_singleton ops op ih =>
    rw [List.foldl_append, List.foldl_cons, List.foldl_nil, Driver.lookup_op (Driver.tracks_foldl ht ops),
      ih, Option.map_map]
    refine congrArg (fun f => Option.map f (d.stores.lookup name)) (funext fun first => ?_)
    exact (readModel_snoc name first ops op).symm

/-! ### The cursor -/

theorem Driver.resumeRv_apply (now : Instant) (d : Driver) (event : ConfigEvent) :
    (d.apply now event).resumeRv = advance d.resumeRv event := by
  cases hcfg : event.config with
  | none => simp [Driver.apply, advance, hcfg]
  | some cfg =>
    simp only [Driver.apply, hcfg]
    split
    · rfl
    · split
      · rfl
      all_goals
        split
        · rfl
        · rfl

theorem Driver.resumeRv_foldl (d : Driver) (ops : List ConsumerOp) :
    (ops.foldl Driver.op d).resumeRv = (lastRv ops).getD d.resumeRv := by
  induction ops using List.reverseRecOn with
  | nil => rfl
  | append_singleton ops op ih =>
    rw [List.foldl_append, List.foldl_cons, List.foldl_nil]
    cases op with
    | lost now =>
      have hlast : lastRv (ops ++ [.lost now]) = lastRv ops := by simp [lastRv]
      rw [hlast, ← ih]
      rfl
    | event now event =>
      rw [Driver.op, Driver.resumeRv_apply, ih, advance]
      cases hcfg : event.config with
      | none => simp [lastRv, hcfg]
      | some cfg =>
        by_cases hrv : cfg.resourceVersion = ""
        · simp [lastRv, hcfg, hrv]
        · simp [lastRv, hcfg, hrv]

/-! ### All of it -/

/-- **What a consumer reads after any sequence of events and losses.**  The names stay; each
store is the last snapshot that was stored under its name, or the first one, marked with
the first loss since; an event of no tracked name changes no store; the cursor is the last
version of all events. -/
theorem driver_reads (d : Driver) (ht : d.Tracks) (hfresh : d.Fresh) (ops : List ConsumerOp) :
    (∀ name, name ∈ (ops.foldl Driver.op d).stores ↔ name ∈ d.stores) ∧
      (∀ name first, d.stores.lookup name = some first →
        ∃ snap, (ops.foldl Driver.op d).stores.lookup name = some snap ∧
          snap.content = ((lastStored name ops).getD first).content ∧
          snap.schemaVersion = ((lastStored name ops).getD first).schemaVersion ∧
          snap.resourceVersion = ((lastStored name ops).getD first).resourceVersion ∧
          snap.staleSince = firstLoss (sinceStored name ops)) ∧
      (∀ now event, (∀ cfg ∈ event.config, cfg.name ∉ d.stores) →
        ((ops.foldl Driver.op d).apply now event).stores = (ops.foldl Driver.op d).stores) ∧
      (ops.foldl Driver.op d).resumeRv = (lastRv ops).getD d.resumeRv := by
  have hlookup := fun name => Driver.lookup_foldl ht hfresh name ops
  have hnames : ∀ name, name ∈ (ops.foldl Driver.op d).stores ↔ name ∈ d.stores := by
    intro name
    rw [← AList.lookup_isSome, ← AList.lookup_isSome, hlookup, Option.isSome_map]
  refine ⟨hnames, fun name first hfirst => ?_, fun now event hevent => ?_, Driver.resumeRv_foldl d ops⟩
  · exact ⟨readModel name first ops, by rw [hlookup, hfirst, Option.map_some], rfl, rfl, rfl, rfl⟩
  · cases hcfg : event.config with
    | none => simp only [Driver.apply, hcfg]
    | some cfg =>
      have hmem : cfg.name ∉ (ops.foldl Driver.op d).stores := fun h => hevent cfg hcfg ((hnames _).mp h)
      rw [Driver.apply_skipped hcfg (.inl hmem)]

end

/-! ### An outage -/

local instance braces : SerdeJson where
  fromStr s := if s = "\x7b\x7d" then .ok (.object []) else .error "expected value"
  fromValueError _ := "invalid type"

/-- An event of `api` at a version. -/
def apiEvent (eventType : EventType) (resourceVersion contentJson : String) : ConfigEvent :=
  { eventType
    config := some { ns := "team", name := "api", schemaVersion := 2, contentJson, resourceVersion,
                     ageMs := 0, staleSinceMs := -1 } }

/-- `api` is read, lost, deleted, lost again, and then an unreadable version of it comes. -/
def outageOps : List ConsumerOp :=
  [.event 1 (apiEvent .added "7" "\x7b\x7d"), .lost 2, .event 3 (apiEvent .deleted "8" "\x7b\x7d"), .lost 4,
    .event 5 (apiEvent .modified "9" "\x7b")]

theorem driver_reads_outage :
    (∀ name, name ∈ (outageOps.foldl Driver.op (.new ["api", "web"] 0)).stores ↔
        name ∈ (Driver.new ["api", "web"] 0).stores) ∧
      (∀ name first, (Driver.new ["api", "web"] 0).stores.lookup name = some first →
        ∃ snap, (outageOps.foldl Driver.op (.new ["api", "web"] 0)).stores.lookup name = some snap ∧
          snap.content = ((lastStored name outageOps).getD first).content ∧
          snap.schemaVersion = ((lastStored name outageOps).getD first).schemaVersion ∧
          snap.resourceVersion = ((lastStored name outageOps).getD first).resourceVersion ∧
          snap.staleSince = firstLoss (sinceStored name outageOps)) ∧
      (∀ now event, (∀ cfg ∈ event.config, cfg.name ∉ (Driver.new ["api", "web"] 0).stores) →
        ((outageOps.foldl Driver.op (.new ["api", "web"] 0)).apply now event).stores =
          (outageOps.foldl Driver.op (.new ["api", "web"] 0)).stores) ∧
      (outageOps.foldl Driver.op (.new ["api", "web"] 0)).resumeRv = (lastRv outageOps).getD "" :=
  driver_reads (.new ["api", "web"] 0) (Driver.tracks_new _ 0) (fun _ => Driver.staleSince_new) outageOps

/-- It reads version 7, marked with the first loss; the cursor is at 9. -/
example : (lastStored "api" outageOps).map (·.resourceVersion) = some "7" ∧
    firstLoss (sinceStored "api" outageOps) = some 2 ∧ lastRv outageOps = some "9" := by
  decide

end Konfig
