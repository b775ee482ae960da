import Konfig.Subscribe.Shards

/-!
# The coalesced fan-out

`pump_subscribe_namespace_events` with its two loops, `pump_immediate` and
`pump_coalesced`, over a whole watch stream.  The coalesced loop keeps what it has
processed in a batch, and flushes it when the window of the first frame has passed, when
the batch is full, and when the stream ends or fails.  A flush hands one frame after the
other to `send_to_all`; other tasks attach and drop receivers at any time.

* `NamespacePump.Inv`: what was taken from the stream, what of it was pushed, and how
  much of that was sent.  `NamespacePump.Inv.step`: kept by every step.
* `coalesced_immediate`: when the pump returns, the window does not show.
* `NamespacePump.run_pump`: its runs are runs of the `Pump`.
-/

namespace Konfig

open Lib

inductive StreamEnd
  | clean
  | error (message : String)

/-- What the watch stream has still to yield. -/
structure EventStream where
  events : List (WatchEvent DynamicObject)
  ending : StreamEnd

/-- `try_next`; a poll that is dropped before it resolves takes nothing. -/
def EventStream.tryNext (stream : EventStream) :
    Except String (Option (WatchEvent DynamicObject)) × EventStream :=
  match stream.events with
  | event :: events => (.ok (some event), { stream with events })
  | [] =>
    match stream.ending with
    | .clean => (.ok none, stream)
    | .error message => (.error message, stream)

def classifyStreamItem : Except String (Option (WatchEvent DynamicObject)) →
    Option (WatchEvent DynamicObject)
  | .ok (some event) => some event
  | .ok none => none
  | .error _ => none

/-- Where the loop is; after a flush that ends the pump it returns. -/
inductive PumpStage
  | waiting
  | flushing (ends : Bool)
  | returned
  deriving DecidableEq, Repr

/-- The pump and what it shares.  `pushed` and `sent` are history variables: the frames
that were processed, and those `send_to_all` was called with. -/
structure NamespacePump where
  stream : EventStream
  buffer : List ReplayEntry
  batch : List BroadcastFrame
  deadline : Option Instant
  shards : ShardSet
  stage : PumpStage
  pushed : List BroadcastFrame
  sent : List BroadcastFrame

def NamespacePump.start (stream : EventStream) (buffer : List ReplayEntry) (shards : ShardSet) :
    NamespacePump :=
  { stream, buffer, batch := [], deadline := none, shards, stage := .waiting, pushed := [], sent := [] }

/-- One round of `pump_immediate`, up to the call of `send_to_all`. -/
def NamespacePump.pumpImmediate (p : NamespacePump) (now : Instant) : NamespacePump :=
  let (item, stream) := p.stream.tryNext
  match classifyStreamItem item with
  | none => { p with stream, stage := .returned }
  | some event =>
    match processNamespaceEvent now event p.buffer with
    | (buffer, none) => { p with stream, buffer }
    | (buffer, some frame) =>
      { p with
        stream, buffer
        batch := [frame]
        stage := .flushing false
        pushed := p.pushed ++ [frame] }

/-- One round of `pump_coalesced` whose poll resolves, up to the call of `flush_batch`. -/
def NamespacePump.pumpCoalesced (coalesceWindow : Nat) (p : NamespacePump) (now : Instant) :
    NamespacePump :=
  let (item, stream) := p.stream.tryNext
  match classifyStreamItem item with
  | none => { p with stream, stage := .flushing true }
  | some event =>
    match processNamespaceEvent now event p.buffer with
    | (buffer, none) => { p with stream, buffer }
    | (buffer, some frame) =>
      let deadline := if p.batch.isEmpty then some (now + coalesceWindow) else p.deadline
      let batch := p.batch ++ [frame]
      { p with
        stream, buffer, batch, deadline
        stage := if COALESCE_MAX_BATCH ≤ batch.length then .flushing false else p.stage
        pushed := p.pushed ++ [frame] }

/-- One round of the loop that sends the batch, or its end. -/
def NamespacePump.sendNext (p : NamespacePump) (ends : Bool) : NamespacePump :=
  match p.batch with
  | frame :: batch =>
    { p with batch, shards := (p.shards.sendToAll frame).2, sent := p.sent ++ [frame] }
  | [] => { p with deadline := none, stage := if ends then .returned else .waiting }

inductive NamespacePumpLabel
  /-- The next item of the stream arrives. -/
  | poll (now : Instant)
  /-- The timeout fires. -/
  | elapsed (now : Instant)
  | send
  /-- Another task attaches a receiver. -/
  | attach
  /-- Another task drops a receiver. -/
  | detach (rx : BroadcastReceiver)

def NamespacePump.step (coalesceWindow : Nat) (p : NamespacePump) : NamespacePumpLabel → Option NamespacePump
  | .poll now =>
    match p.stage with
    | .waiting =>
      -- a timeout polls the stream before it looks at the clock
      if coalesceWindow = 0 then some (p.pumpImmediate now) else some (p.pumpCoalesced coalesceWindow now)
    | _ => none
  | .elapsed now =>
    match p.stage, p.deadline with
    | .waiting, some deadline => if deadline ≤ now then some { p with stage := .flushing false } else none
    | _, _ => none
  | .send =>
    match p.stage with
    | .flushing ends => some (p.sendNext ends)
    | _ => none
  | .attach => some { p with shards := p.shards.nextReceiver.1 }
  | .detach rx => some { p with shards := p.shards.dropReceiver rx }

/-! ### The frames of a stream -/

/-- A frame does not tell when it was made. -/
theorem frameOf_now (now : Instant) (event : WatchEvent DynamicObject) :
    frameOf now event = frameOf 0 event := by
  unfold frameOf
  congr 1
  funext p
  unfold parseConfigObject
  cases p.2.data.get "spec" with
  | none => rfl
  | some specValue =>
    cases hspec : ConfigSpec.fromValue specValue with
    | none => simp [hspec]
    | some spec =>
      simp only [hspec, Option.bind_eq_bind, Option.bind_some, Option.pure_def, Option.map_some,
        snapshotToProto, ConfigSnapshot.fromSpec, Nat.sub_self]
      rfl

/-- The frames of a list of events. -/
def framesIn (events : List (WatchEvent DynamicObject)) : List BroadcastFrame :=
  events.filterMap (frameOf 0)

theorem framesIn_snoc (events : List (WatchEvent DynamicObject)) (event : WatchEvent DynamicObject) :
    framesIn (events ++ [event]) = framesIn events ++ (frameOf 0 event).toList := by
  rw [framesIn, List.filterMap_append, ← framesIn]
  cases h : frameOf 0 event <;> simp [h]

/-- What `send` was called with, shard by shard. -/
def ShardSet.offered (set : ShardSet) : List (List BroadcastFrame) := set.senders.map (·.offered)

theorem ShardSet.offered_modify (set : ShardSet) (idx : Nat) {f : BroadcastChannel → BroadcastChannel}
    (hf : ∀ tx, (f tx).offered = tx.offered) : (set.modify idx f).offered = set.offered := by
  refine List.ext_getElem? fun k => ?_
  rw [ShardSet.offered, ShardSet.offered, List.getElem?_map, List.getElem?_map,
    ShardSet.modify_getElem?, Option.map_map]
  congr 1
  funext tx
  simp only [Function.comp_apply]
  split
  · exact hf tx
  · rfl

theorem ShardSet.offered_sendToAll (set : ShardSet) (frame : BroadcastFrame) :
    (set.sendToAll frame).2.offered = set.offered.map (· ++ [frame]) := by
  simp only [ShardSet.offered, ShardSet.sendToAll, List.map_map]
  exact List.map_congr_left fun tx _ => tx.send_offered frame

/-! ### What a step can do -/

/-- The transitions of `NamespacePump.step`. -/
inductive NamespacePump.Move (coalesceWindow : Nat) (p : NamespacePump) :
    NamespacePumpLabel → NamespacePump → Prop
  | ended {now : Instant} {stage : PumpStage} (hstage : p.stage = .waiting)
      (hevents : p.stream.events = [])
      (hnext : stage = .flushing true ∨ stage = .returned ∧ coalesceWindow = 0) :
      Move coalesceWindow p (.poll now) { p with stage }
  | skipped {now : Instant} {event : WatchEvent DynamicObject} {events : List (WatchEvent DynamicObject)}
      (hstage : p.stage = .waiting) (hevents : p.stream.events = event :: events)
      (hframe : frameOf 0 event = none) :
      Move coalesceWindow p (.poll now) { p with stream := { p.stream with events } }
  | handed {now : Instant} {event : WatchEvent DynamicObject} {events : List (WatchEvent DynamicObject)}
      {frame : BroadcastFrame} (hwindow : coalesceWindow = 0) (hstage : p.stage = .waiting)
      (hevents : p.stream.events = event :: events) (hframe : frameOf 0 event = some frame) :
      Move coalesceWindow p (.poll now)
        { p with
          stream := { p.stream with events }
          buffer := pushFrame p.buffer frame
          batch := [frame]
          stage := .flushing false
          pushed := p.pushed ++ [frame] }
  | batched {now : Instant} {event : WatchEvent DynamicObject} {events : List (WatchEvent DynamicObject)}
      {frame : BroadcastFrame} (hwindow : coalesceWindow ≠ 0) (hstage : p.stage = .waiting)
      (hevents : p.stream.events = event :: events) (hframe : frameOf 0 event = some frame) :
      Move coalesceWindow p (.poll now)
        { p with
          stream := { p.stream with events }
          buffer := pushFrame p.buffer frame
          batch := p.batch ++ [frame]
          deadline := if p.batch.isEmpty then some (now + coalesceWindow) else p.deadline
          stage := if COALESCE_MAX_BATCH ≤ (p.batch ++ [frame]).length then .flushing false else p.stage
          pushed := p.pushed ++ [frame] }
  | elapsed {now deadline : Instant} (hstage : p.stage = .waiting) (hdeadline : p.deadline = some deadline)
      (hnow : deadline ≤ now) : Move coalesceWindow p (.elapsed now) { p with stage := .flushing false }
  | sent {ends : Bool} {frame : BroadcastFrame} {batch : List BroadcastFrame}
      (hstage : p.stage = .flushing ends) (hbatch : p.batch = frame :: batch) :
      Move coalesceWindow p .send
        { p with batch, shards := (p.shards.sendToAll frame).2, sent := p.sent ++ [frame] }
  | flushed {ends : Bool} (hstage : p.stage = .flushing ends) (hbatch : p.batch = []) :
      Move coalesceWindow p .send
        { p with deadline := none, stage := if ends then .returned else .waiting }
  | audience {l : NamespacePumpLabel} {shards : ShardSet} (hl : l = .attach ∨ ∃ rx, l = .detach rx)
      (hoffered : shards.offered = p.shards.offered) : Move coalesceWindow p l { p with shards }

theorem classify_tryNext (stream : EventStream) :
    (stream.events = [] ∧ classifyStreamItem stream.tryNext.1 = none ∧ stream.tryNext.2 = stream) ∨
    ∃ event events, stream.events = event :: events ∧
      classifyStreamItem stream.tryNext.1 = some event ∧ stream.tryNext.2 = { stream with events } := by
  unfold EventStream.tryNext
  cases hevents : stream.events with
  | nil =>
    cases stream.ending with
    | clean => exact Or.inl ⟨rfl, rfl, rfl⟩
    | error message => exact Or.inl ⟨rfl, rfl, rfl⟩
  | cons event events => exact Or.inr ⟨event, events, rfl, rfl, rfl⟩

theorem NamespacePump.move_immediate (p : NamespacePump) (now : Instant) (hstage : p.stage = .waiting) :
    p.Move 0 (.poll now) (p.pumpImmediate now) := by
  unfold NamespacePump.pumpImmediate
  obtain ⟨hevents, hitem, hstream⟩ | ⟨event, events, hevents, hitem, hstream⟩ := classify_tryNext p.stream
  · simp only [hitem, hstream]
    exact .ended hstage hevents (Or.inr ⟨rfl, rfl⟩)
  · simp only [hitem, hstream, processNamespaceEvent_eq, frameOf_now now]
    cases hframe : frameOf 0 event with
    | none => exact .skipped hstage hevents hframe
    | some frame => exact .handed rfl hstage hevents hframe

theorem NamespacePump.move_coalesced {coalesceWindow : Nat} (hwindow : coalesceWindow ≠ 0)
    (p : NamespacePump) (now : Instant) (hstage : p.stage = .waiting) :
    p.Move coalesceWindow (.poll now) (p.pumpCoalesced coalesceWindow now) := by
  unfold NamespacePump.pumpCoalesced
  obtain ⟨hevents, hitem, hstream⟩ | ⟨event, events, hevents, hitem, hstream⟩ := classify_tryNext p.stream
  · simp only [hitem, hstream]
    exact .ended hstage hevents (Or.inl rfl)
  · simp only [hitem, hstream, processNamespaceEvent_eq, frameOf_now now]
    cases hframe : frameOf 0 event with
    | none => exact .skipped hstage hevents hframe
    | some frame => exact .batched hwindow hstage hevents hframe

theorem NamespacePump.step_move {coalesceWindow : Nat} {p p' : NamespacePump} {l : NamespacePumpLabel}
    (h : p.step coalesceWindow l = some p') : p.Move coalesceWindow l p' := by
  cases l with
  | poll now =>
    simp only [NamespacePump.step] at h
    split at h
    · split at h
      · rename_i hwindow
        cases h
        subst hwindow
        exact p.move_immediate now ‹_›
      · cases h
        exact NamespacePump.move_coalesced ‹_› p now ‹_›
    · cases h
  | elapsed now =>
    simp only [NamespacePump.step] at h
    split at h
    · split at h
      · cases h
        exact .elapsed ‹_› ‹_› ‹_›
      · cases h
    · cases h
  | send =>
    simp only [NamespacePump.step] at h
    split at h
    · cases h
      unfold NamespacePump.sendNext
      split
      · exact .sent ‹_› ‹_›
      · exact .flushed ‹_› ‹_›
    · cases h
  | attach =>
    cases h
    exact .audience (Or.inl rfl) (p.shards.offered_modify p.shards.idx fun _ => rfl)
  | detach rx =>
    cases h
    exact .audience (Or.inr ⟨rx, rfl⟩) (p.shards.offered_modify rx.shard fun _ => rfl)

/-! ### What a run keeps -/

/-- How the loop waits for the stream: the batch has room, and a batch that is not empty
has a deadline. -/
structure BatchWaits (coalesceWindow : Nat) (batch : List BroadcastFrame) (deadline : Option Instant) :
    Prop where
  room : batch.length < COALESCE_MAX_BATCH
  immediate : coalesceWindow = 0 → batch = []
  timed : batch ≠ [] → deadline.isSome = true

/-- A pump that was started on `stream`, with `buffer` and `shards`. -/
structure NamespacePump.Inv (coalesceWindow : Nat) (stream : EventStream) (buffer : List ReplayEntry)
    (shards : ShardSet) (p : NamespacePump) : Prop where
  taken : ∃ events, stream.events = events ++ p.stream.events ∧ p.pushed = framesIn events
  buffer : p.buffer = p.pushed.foldl pushFrame buffer
  unsent : p.sent ++ p.batch = p.pushed
  offered : p.shards.offered = shards.offered.map (· ++ p.sent)
  waits : p.stage = .waiting → BatchWaits coalesceWindow p.batch p.deadline
  ended : p.stage = .flushing true ∨ p.stage = .returned → p.stream.events = []
  returned : p.stage = .returned → p.batch = []

theorem batchWaits_nil (coalesceWindow : Nat) (deadline : Option Instant) :
    BatchWaits coalesceWindow [] deadline where
  room := by decide
  immediate := fun _ => rfl
  timed := fun h => absurd rfl h

theorem NamespacePump.inv_start (coalesceWindow : Nat) (stream : EventStream) (buffer : List ReplayEntry)
    (shards : ShardSet) :
    (NamespacePump.start stream buffer shards).Inv coalesceWindow stream buffer shards where
  taken := ⟨[], rfl, rfl⟩
  buffer := rfl
  unsent := rfl
  offered := by simp [NamespacePump.start]
  waits := fun _ => batchWaits_nil coalesceWindow none
  ended := by simp [NamespacePump.start]
  returned := fun _ => rfl

/-- One more event is taken from the stream. -/
theorem NamespacePump.Inv.take {coalesceWindow : Nat} {stream : EventStream} {buffer : List ReplayEntry}
    {shards : ShardSet} {p : NamespacePump} (hi : p.Inv coalesceWindow stream buffer shards)
    {event : WatchEvent DynamicObject} {events : List (WatchEvent DynamicObject)}
    (hevents : p.stream.events = event :: events) :
    ∃ taken, stream.events = taken ++ events ∧
      p.pushed ++ (frameOf 0 event).toList = framesIn taken := by
  obtain ⟨taken, htaken, hpushed⟩ := hi.taken
  refine ⟨taken ++ [event], ?_, ?_⟩
  · rw [htaken, hevents, List.append_assoc, List.singleton_append]
  · rw [hpushed, framesIn_snoc]

theorem NamespacePump.Inv.step {coalesceWindow : Nat} {stream : EventStream} {buffer : List ReplayEntry}
    {shards : ShardSet} {p p' : NamespacePump} {l : NamespacePumpLabel}
    (hi : p.Inv coalesceWindow stream buffer shards) (h : p.step coalesceWindow l = some p') :
    p'.Inv coalesceWindow stream buffer shards := by
  cases NamespacePump.step_move h with
  | ended hstage hevents hnext =>
    refine { hi with waits := fun h' => ?_, ended := fun _ => hevents, returned := fun h' => ?_ }
    · rcases hnext with rfl | ⟨rfl, _⟩ <;> cases h'
    · rcases hnext with rfl | ⟨_, hwindow⟩
      · cases h'
      · exact (hi.waits hstage).immediate hwindow
  | skipped hstage hevents hframe =>
    obtain ⟨taken, htaken, hpushed⟩ := hi.take hevents
    rw [hframe, Option.toList_none, List.append_nil] at hpushed
    exact { hi with taken := ⟨taken, htaken, hpushed⟩, ended := fun h' => by simp [hstage] at h' }
  | handed hwindow hstage hevents hframe =>
    obtain ⟨taken, htaken, hpushed⟩ := hi.take hevents
    rw [hframe, Option.toList_some] at hpushed
    have hidle : p.sent = p.pushed := by
      rw [← hi.unsent, (hi.waits hstage).immediate hwindow, List.append_nil]
    refine { hi with taken := ⟨taken, htaken, hpushed⟩, buffer := ?_, unsent := ?_, waits := nofun,
                     ended := by simp, returned := nofun }
    · rw [List.foldl_append, ← hi.buffer]
      rfl
    · rw [hidle]
  | @batched now event events frame hwindow hstage hevents hframe =>
    obtain ⟨taken, htaken, hpushed⟩ := hi.take hevents
    rw [hframe, Option.toList_some] at hpushed
    -- a full batch is flushed before the loop waits again
    have hstages : ∀ {stage}, (if COALESCE_MAX_BATCH ≤ (p.batch ++ [frame]).length then
        PumpStage.flushing false else p.stage) = stage → stage = .flushing false ∨
          stage = .waiting ∧ (p.batch ++ [frame]).length < COALESCE_MAX_BATCH := by
      rintro _ rfl
      split
      · exact Or.inl rfl
      · exact Or.inr ⟨hstage, Nat.lt_of_not_le ‹_›⟩
    refine { hi with taken := ⟨taken, htaken, hpushed⟩, buffer := ?_, unsent := ?_,
                     waits := fun h' => ?_, ended := fun h' => ?_, returned := fun h' => ?_ }
    · rw [List.foldl_append, ← hi.buffer]
      rfl
    · rw [← List.append_assoc, hi.unsent]
    · rcases hstages h' with h' | ⟨_, hroom⟩
      · cases h'
      · refine ⟨hroom, fun h' => absurd h' hwindow, fun _ => ?_⟩
        dsimp only
        split
        · rfl
        · rename_i hne
          exact (hi.waits hstage).timed fun hnil => hne (List.isEmpty_iff.mpr hnil)
    · rcases h' with h' | h'
      · rcases hstages h' with h' | ⟨h', _⟩ <;> cases h'
      · rcases hstages h' with h' | ⟨h', _⟩ <;> cases h'
    · rcases hstages h' with h' | ⟨h', _⟩ <;> cases h'
  | elapsed hstage hdeadline hnow =>
    exact { hi with waits := nofun, ended := by simp, returned := nofun }
  | @sent ends frame batch hstage hbatch =>
    refine { hi with unsent := ?_, offered := ?_, waits := fun h' => ?_, returned := fun h' => ?_ }
    · rw [← hi.unsent, hbatch, List.append_assoc, List.singleton_append]
    · rw [ShardSet.offered_sendToAll, hi.offered, List.map_map]
      exact List.map_congr_left fun fs _ => List.append_assoc fs p.sent [frame]
    · simp [hstage] at h'
    · simp [hstage] at h'
  | @flushed ends hstage hbatch =>
    refine { hi with waits := fun _ => hbatch ▸ batchWaits_nil coalesceWindow none, ended := fun h' => ?_,
                     returned := fun _ => hbatch }
    cases ends with
    | true => exact hi.ended (Or.inl hstage)
    | false => simp at h'
  | audience hl hoffered => exact { hi with offered := hoffered.trans hi.offered }

theorem NamespacePump.inv_run {coalesceWindow : Nat} {stream : EventStream} {buffer : List ReplayEntry}
    {shards : ShardSet} {ls : List NamespacePumpLabel} {p : NamespacePump}
    (h : run (NamespacePump.step coalesceWindow) (.start stream buffer shards) ls = some p) :
    p.Inv coalesceWindow stream buffer shards :=
  run_induction (fun _ => NamespacePump.Inv coalesceWindow stream buffer shards)
    (NamespacePump.inv_start coalesceWindow stream buffer shards) (fun _ _ _ _ _ hi ha => hi.step ha) ls p h

/-! ### The pump returns -/

/-- A flush comes to its end. -/
theorem NamespacePump.flush_ends (coalesceWindow : Nat) (ends : Bool) : ∀ (batch : List BroadcastFrame)
    (p : NamespacePump), p.batch = batch → p.stage = .flushing ends →
    ∃ ls q, run (NamespacePump.step coalesceWindow) p ls = some q ∧
      q.stage = (if ends then .returned else .waiting) ∧ q.stream = p.stream := by
  intro batch
  induction batch with
  | nil =>
    intro p hbatch hstage
    have hstep : p.step coalesceWindow .send = some (p.sendNext ends) := by
      simp only [NamespacePump.step, hstage]
    refine ⟨[.send], p.sendNext ends, by rw [run_singleton, hstep], ?_⟩
    rw [NamespacePump.sendNext, hbatch]
    exact ⟨rfl, rfl⟩
  | cons frame batch ih =>
    intro p hbatch hstage
    have hstep : p.step coalesceWindow .send = some (p.sendNext ends) := by
      simp only [NamespacePump.step, hstage]
    have hnext : (p.sendNext ends).batch = batch ∧ (p.sendNext ends).stage = .flushing ends ∧
        (p.sendNext ends).stream = p.stream := by
      rw [NamespacePump.sendNext, hbatch]
      exact ⟨rfl, hstage, rfl⟩
    obtain ⟨ls, q, hq, hend, hstream⟩ := ih (p.sendNext ends) hnext.1 hnext.2.1
    refine ⟨.send :: ls, q, ?_, hend, hstream.trans hnext.2.2⟩
    rw [run_cons, hstep, Option.bind_some, hq]

/-- Every pump can go on until it returns: the induction is on what the stream still
yields. -/
theorem NamespacePump.returns (coalesceWindow : Nat) : ∀ (n : Nat) (p : NamespacePump),
    p.stream.events.length = n →
    ∃ ls q, run (NamespacePump.step coalesceWindow) p ls = some q ∧ q.stage = .returned := by
  intro n
  induction n using Nat.strongRecOn with
  | ind n ih =>
    -- from a flush that does not end the pump, and from a wait
    have hwait : ∀ p : NamespacePump, p.stream.events.length = n → p.stage = .waiting →
        ∃ ls q, run (NamespacePump.step coalesceWindow) p ls = some q ∧ q.stage = .returned := by
      intro p hn hstage
      obtain ⟨p', hp'⟩ : ∃ p', p.step coalesceWindow (.poll 0) = some p' := by
        simp only [NamespacePump.step, hstage]
        split <;> exact ⟨_, rfl⟩
      have hrest : p'.stream.events.length < n →
          ∃ ls q, run (NamespacePump.step coalesceWindow) p ls = some q ∧ q.stage = .returned := by
        intro hlt
        obtain ⟨ls, q, hq, hend⟩ := ih _ hlt p' rfl
        exact ⟨.poll 0 :: ls, q, by rw [run_cons, hp', Option.bind_some, hq], hend⟩
      cases NamespacePump.step_move hp' with
      | ended _ hevents hnext =>
        rcases hnext with rfl | ⟨rfl, _⟩
        · obtain ⟨ls, q, hq, hend, _⟩ := NamespacePump.flush_ends coalesceWindow true _
            { p with stage := .flushing true } rfl rfl
          exact ⟨.poll 0 :: ls, q, by rw [run_cons, hp', Option.bind_some, hq], hend⟩
        · exact ⟨[.poll 0], _, by rw [run_singleton, hp'], rfl⟩
      | skipped _ hevents _ => exact hrest (by rw [← hn, hevents]; exact Nat.lt_succ_self _)
      | handed _ _ hevents _ => exact hrest (by rw [← hn, hevents]; exact Nat.lt_succ_self _)
      | batched _ _ hevents _ => exact hrest (by rw [← hn, hevents]; exact Nat.lt_succ_self _)
      | audience hl => rcases hl with hl | ⟨rx, hl⟩ <;> cases hl
    intro p hn
    cases hstage : p.stage with
    | waiting => exact hwait p hn hstage
    | flushing ends =>
      obtain ⟨ls, q, hq, hend, hstream⟩ := NamespacePump.flush_ends coalesceWindow ends _ p rfl hstage
      cases ends with
      | true => exact ⟨ls, q, hq, hend⟩
      | false =>
        obtain ⟨ls', q', hq', hend'⟩ := hwait q (by rw [hstream, hn]) hend
        exact ⟨ls ++ ls', q', by rw [run_append, hq, Option.bind_some, hq'], hend'⟩
    | returned => exact ⟨[], p, rfl, hstage⟩

/-- **Coalesced and immediate fan-out are equivalent.**  At every point of a run with any
window, what was sent is the same on every shard and the first part of what was pushed,
the rest is the batch, and the batch has room while the loop waits for the stream.  The
pump can always go on until it returns, and then it has sent the frames of the stream and
left the buffer that the immediate pump leaves. -/
theorem coalesced_immediate (coalesceWindow : Nat) (stream : EventStream) (buffer : List ReplayEntry)
    (shards : ShardSet) (ls : List NamespacePumpLabel) (p : NamespacePump)
    (hrun : run (NamespacePump.step coalesceWindow) (.start stream buffer shards) ls = some p) :
    (p.sent <+: p.pushed ∧ p.sent ++ p.batch = p.pushed ∧
      p.shards.offered = shards.offered.map (· ++ p.sent)) ∧
    (p.stage = .waiting → p.batch.length < COALESCE_MAX_BATCH) ∧
    (∃ ls' q, run (NamespacePump.step coalesceWindow) p ls' = some q ∧ q.stage = .returned) ∧
    (p.stage = .returned → p.sent = framesIn stream.events ∧
      ∀ ls' q, run (NamespacePump.step 0) (.start stream buffer shards) ls' = some q →
        q.stage = .returned →
        p.buffer = q.buffer ∧ p.sent = q.sent ∧ p.shards.offered = q.shards.offered) := by
  have hall : ∀ {window ls q}, run (NamespacePump.step window) (.start stream buffer shards) ls = some q →
      q.stage = .returned → q.sent = framesIn stream.events ∧
        q.buffer = (framesIn stream.events).foldl pushFrame buffer ∧
        q.shards.offered = shards.offered.map (· ++ framesIn stream.events) := by
    intro window ls q hq hend
    have hi := NamespacePump.inv_run hq
    obtain ⟨events, hevents, hpushed⟩ := hi.taken
    rw [hi.ended (Or.inr hend), List.append_nil] at hevents
    have hsent : q.sent = q.pushed := by
      rw [← hi.unsent, hi.returned hend, List.append_nil]
    rw [hevents, ← hpushed]
    exact ⟨hsent, hi.buffer, hsent ▸ hi.offered⟩
  have hi := NamespacePump.inv_run hrun
  refine ⟨⟨⟨p.batch, hi.unsent⟩, hi.unsent, hi.offered⟩, fun hstage => (hi.waits hstage).room,
    NamespacePump.returns coalesceWindow _ p rfl, fun hend => ?_⟩
  obtain ⟨hsent, hbuffer, hoffered⟩ := hall hrun hend
  refine ⟨hsent, fun ls' q hq hend' => ?_⟩
  obtain ⟨hsent', hbuffer', hoffered'⟩ := hall hq hend'
  exact ⟨by rw [hbuffer, hbuffer'], by rw [hsent, hsent'], by rw [hoffered, hoffered']⟩

/-- A watch that fails after three frames. -/
def brokenStream : EventStream :=
  { events := [.init, .initApply (configObject "api" "7" 2), .initDone,
      .apply (configObject "web" "8" 1), .delete (configObject "api" "9" 2)]
    ending := .error "connection reset" }

/-- The window of the first frame passes, that of the second does not. -/
def coalescedSteps : List NamespacePumpLabel :=
  [.poll 0, .poll 0, .poll 0, .elapsed 60, .send, .attach, .send, .poll 60, .poll 70, .poll 80, .send,
    .send, .send]

def immediateSteps : List NamespacePumpLabel :=
  [.poll 0, .poll 0, .send, .send, .poll 0, .poll 60, .send, .send, .poll 70, .send, .send, .poll 80]

theorem coalesced_immediate_broken : ∃ p q,
    run (NamespacePump.step 50) (.start brokenStream [] (ShardSet.new 2).1) coalescedSteps = some p ∧
    run (NamespacePump.step 0) (.start brokenStream [] (ShardSet.new 2).1) immediateSteps = some q ∧
    p.buffer = q.buffer ∧ p.sent = q.sent ∧ p.shards.offered = q.shards.offered := by
  obtain ⟨p, hp, hpend⟩ := (Option.any_eq_true _ _).mp
    (show (run (NamespacePump.step 50) (.start brokenStream [] (ShardSet.new 2).1) coalescedSteps).any
      (fun p => p.stage = .returned) = true by decide +kernel)
  obtain ⟨q, hq, hqend⟩ := (Option.any_eq_true _ _).mp
    (show (run (NamespacePump.step 0) (.start brokenStream [] (ShardSet.new 2).1) immediateSteps).any
      (fun p => p.stage = .returned) = true by decide +kernel)
  obtain ⟨_, _, _, hreturned⟩ := coalesced_immediate 50 brokenStream [] (ShardSet.new 2).1 coalescedSteps p hp
  exact ⟨p, q, hp, hq, (hreturned (of_decide_eq_true hpend)).2 immediateSteps q hq (of_decide_eq_true hqend)⟩

/-! ### The pump of one subscriber -/

/-- What `Pump` keeps. -/
def NamespacePump.view (p : NamespacePump) : Pump :=
  { buffer := p.buffer
    batch := if p.stage = .waiting then p.batch else []
    flushing := if p.stage = .waiting then [] else p.batch
    sent := p.sent }

theorem NamespacePump.view_waiting {p : NamespacePump} (h : p.stage = .waiting) :
    p.view = ⟨p.buffer, p.batch, [], p.sent⟩ := by
  rw [NamespacePump.view, if_pos h, if_pos h]

theorem NamespacePump.view_busy {p : NamespacePump} (h : p.stage ≠ .waiting) :
    p.view = ⟨p.buffer, [], p.batch, p.sent⟩ := by
  rw [NamespacePump.view, if_neg h, if_neg h]

/-- The batch becomes the flush. -/
theorem NamespacePump.view_flush {coalesced : Bool} {p : NamespacePump} {stage : PumpStage}
    (h : p.stage = .waiting) (hbusy : stage ≠ .waiting) :
    ({ p with stage } : NamespacePump).view = p.view ∨
      ∃ l', p.view.step coalesced l' = some ({ p with stage } : NamespacePump).view := by
  rw [NamespacePump.view_waiting h, NamespacePump.view_busy hbusy]
  cases hbatch : p.batch with
  | nil => exact Or.inl rfl
  | cons frame batch => exact Or.inr ⟨.elapsed, rfl⟩

/-- **Every step is a step of the `Pump`**, or one it does not see. -/
theorem NamespacePump.step_pump {coalesceWindow : Nat} {p p' : NamespacePump} {l : NamespacePumpLabel}
    (hwaits : p.stage = .waiting → BatchWaits coalesceWindow p.batch p.deadline)
    (h : p.step coalesceWindow l = some p') :
    p'.view = p.view ∨ ∃ l', p.view.step (coalesceWindow ≠ 0) l' = some p'.view := by
  cases NamespacePump.step_move h with
  | ended hstage hevents hnext =>
    refine NamespacePump.view_flush hstage ?_
    rcases hnext with rfl | ⟨rfl, _⟩ <;> exact fun hwaiting => by cases hwaiting
  | skipped hstage hevents hframe => exact Or.inl rfl
  | @handed now event events frame hwindow hstage hevents hframe =>
    refine Or.inr ⟨.watch event 0, ?_⟩
    rw [NamespacePump.view_waiting hstage, (hwaits hstage).immediate hwindow, NamespacePump.view_busy]
    · simp [Pump.step, processNamespaceEvent_eq, hframe, hwindow]
    · exact fun hwaiting => by cases hwaiting
  | @batched now event events frame hwindow hstage hevents hframe =>
    refine Or.inr ⟨.watch event 0, ?_⟩
    rw [NamespacePump.view_waiting hstage]
    simp only [Pump.step, processNamespaceEvent_eq, hframe, NamespacePump.view, hstage]
    simp only [List.isEmpty_nil, if_true, hwindow, ne_eq, not_false_eq_true, decide_true]
    split <;> simp
  | elapsed hstage hdeadline hnow => exact NamespacePump.view_flush hstage fun hwaiting => by cases hwaiting
  | @sent ends frame batch hstage hbatch =>
    refine Or.inr ⟨.send, ?_⟩
    rw [NamespacePump.view_busy (p := p) (by simp [hstage]), NamespacePump.view_busy (by simp [hstage]), hbatch]
    rfl
  | @flushed ends hstage hbatch =>
    refine Or.inl ?_
    rw [NamespacePump.view_busy (p := p) (by simp [hstage])]
    unfold NamespacePump.view
    simp [hbatch]
  | audience hl hoffered => exact Or.inl rfl

/-- A run over a new namespace is a run of the `Pump`. -/
theorem NamespacePump.run_pump {coalesceWindow : Nat} {stream : EventStream} {shards : ShardSet}
    {ls : List NamespacePumpLabel} {p : NamespacePump}
    (h : run (NamespacePump.step coalesceWindow) (.start stream [] shards) ls = some p) :
    ∃ ls', run (Pump.step (coalesceWindow ≠ 0)) .new ls' = some p.view := by
  refine run_induction (fun _ p => ∃ ls', run (Pump.step (coalesceWindow ≠ 0)) .new ls' = some p.view)
    ⟨[], rfl⟩ (fun as p l p' hp hi hstep => ?_) ls p h
  obtain ⟨ls', hls'⟩ := hi
  rcases NamespacePump.step_pump (NamespacePump.inv_run hp).waits hstep with hview | ⟨l', hl'⟩
  · exact ⟨ls', by rw [hview, hls']⟩
  · exact ⟨ls' ++ [l'], run_snoc.mpr ⟨_, hls', hl'⟩⟩

end Konfig
