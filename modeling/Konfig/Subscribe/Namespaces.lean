import Konfig.Lib.Machine
import Konfig.Lib.WatchMirror
import Konfig.Types

/-!
# The namespace maps

`get_or_create_broadcast`, `run_namespace_watcher` and `gc_tick` share four maps
keyed by the namespace: the `ShardSet`s, the replay buffers, the watchers'
handles and the idle timers.  Each of them takes several map operations, and
nothing holds the maps together between two operations, so the machine's labels
are the single operations.

A `ShardSet` is named by the order of its creation, a number `g`; its `Generation`
holds the watcher task that feeds it and the number of receivers that calls have
returned.  Buffers are named the same way.  An occupied entry is locked until
the call that holds it has its receiver: no other operation on the broadcast
map at that key happens meanwhile.

* `Namespaces.step`: one operation of a call, a watcher or a sweep.
* `Move`, `Namespaces.step_move`: what one operation can do.
-/

namespace Konfig

open Lib

def GC_GRACE : Nat := 30000

/-- Where the watcher task of a `ShardSet` is. -/
inductive Task
  | unspawned
  | running
  /-- Aborted, and not yet stopped: an abort works at the task's next await. -/
  | aborting
  /-- The pump has returned. -/
  | ended
  /-- The task has removed its namespace from the broadcast map. -/
  | unlisted
  | finished
  | aborted
  deriving DecidableEq, Repr

/-- The task exists and holds the `ShardSet`. -/
def Task.alive : Task → Bool
  | .running | .aborting | .ended | .unlisted => true
  | .unspawned | .finished | .aborted => false

/-- The task has not been stopped and has its namespace still to remove. -/
def Task.listed : Task → Bool
  | .unspawned | .running | .ended => true
  | .aborting | .unlisted | .finished | .aborted => false

/-- `JoinHandle::abort`: a task past its last await is not stopped. -/
def Task.abort : Task → Task
  | .running => .aborting
  | task => task

structure Generation where
  ns : String
  task : Task
  subs : Nat
  deriving DecidableEq, Repr

/-- Change the task of one generation. -/
def onTask (gens : List Generation) (g : Nat) (f : Task → Task) : List Generation :=
  gens.modify g fun x => { x with task := f x.task }

/-- Change the number of receivers of one generation. -/
def onSubs (gens : List Generation) (g : Nat) (f : Nat → Nat) : List Generation :=
  gens.modify g fun x => { x with subs := f x.subs }

def nsOf (gens : List Generation) (g : Nat) : Option String := (gens[g]?).map (·.ns)

def taskOf (gens : List Generation) (g : Nat) : Option Task := (gens[g]?).map (·.task)

def subsOf (gens : List Generation) (g : Nat) : Nat := ((gens[g]?).map (·.subs)).getD 0

/-- A call of `get_or_create_broadcast` between two of its operations. -/
inductive BroadcastCall
  | started (ns : String)
  /-- Fast path, with a clone of the `ShardSet`. -/
  | found (ns : String) (g : Nat)
  | ready (ns : String) (g : Nat) (buf : Nat)
  | missed (ns : String)
  /-- The entry is occupied, and locked. -/
  | occupied (ns : String) (g : Nat)
  | held (ns : String) (g : Nat) (buf : Nat)
  | inserted (ns : String) (g : Nat)
  | buffered (ns : String) (g : Nat) (buf : Nat)
  | spawned (ns : String) (g : Nat) (buf : Nat)
  | returned (ns : String) (g : Nat) (buf : Nat)
  deriving DecidableEq, Repr

/-- The `ShardSet` this call has created and whose first receiver it holds. -/
def BroadcastCall.creates : BroadcastCall → Option (String × Nat)
  | .inserted ns g | .buffered ns g _ | .spawned ns g _ => some (ns, g)
  | _ => none

/-- The `ShardSet` whose watcher this call has yet to spawn. -/
def BroadcastCall.spawns : BroadcastCall → Option Nat
  | .inserted _ g | .buffered _ g _ => some g
  | _ => none

/-- The watcher whose handle the call's next operation stores. -/
def BroadcastCall.stores : BroadcastCall → Option (String × Nat)
  | .spawned ns g _ => some (ns, g)
  | _ => none

/-- The `ShardSet` of which the call's next operation returns a receiver. -/
def BroadcastCall.gets : BroadcastCall → Option Nat
  | .ready _ g _ | .held _ g _ | .spawned _ g _ => some g
  | _ => none

/-- The `ShardSet` of which the call holds a clone. -/
def BroadcastCall.clone : BroadcastCall → Option Nat
  | .found _ g | .ready _ g _ => some g
  | _ => none

/-- The entry the call has locked. -/
def BroadcastCall.locks : BroadcastCall → Option (String × Nat)
  | .occupied ns g | .held ns g _ => some (ns, g)
  | _ => none

/-- `gc_tick` between two of its operations. -/
inductive Gc
  | idle
  /-- `unseen`: the keys that have been there since the sweep began and have
  not been visited. -/
  | scanning (now : Instant) (unseen seen toGc : List String)
  | collecting (toGc : List String)
  /-- The `ShardSet` of `ns` has been removed, its handle not yet. -/
  | removed (ns : String) (g : Nat) (rest : List String)
  | unhandled (ns : String) (rest : List String)
  | unbuffered (ns : String) (rest : List String)
  deriving DecidableEq, Repr

/-- The sweep does not wait for a key that has gone. -/
def Gc.forget (ns : String) : Gc → Gc
  | .scanning now unseen seen toGc => .scanning now (unseen.filter (· != ns)) seen toGc
  | gc => gc

structure Namespaces where
  broadcasts : Map String Nat
  buffers : Map String Nat
  handles : Map String Nat
  idleSince : Map String Instant
  gens : List Generation
  calls : List BroadcastCall
  gc : Gc
  nextBuffer : Nat

def Namespaces.new : Namespaces where
  broadcasts := ∅
  buffers := ∅
  handles := ∅
  idleSince := ∅
  gens := []
  calls := []
  gc := .idle
  nextBuffer := 0

inductive NamespacesLabel
  | subscribe (ns : String)
  | call (i : Nat)
  /-- A subscriber drops its receiver. -/
  | leave (g : Nat)
  | streamEnds (g : Nat)
  | unlist (g : Nat)
  | finish (g : Nat)
  | cancel (g : Nat)
  | gcStart (now : Instant)
  | gcVisit (ns : String) (clock : Instant)
  | gcCollect
  | gcNext
  deriving DecidableEq, Repr

namespace Namespaces

/-! ### Operations -/

def locked (s : Namespaces) (ns : String) : Bool :=
  s.calls.any fun c => c.locks.any (·.1 == ns)

/-- `total_receiver_count`: the subscribers' receivers, and the first one while
its creator has not returned. -/
def totalReceiverCount (s : Namespaces) (g : Nat) : Nat :=
  subsOf s.gens g + s.calls.countP fun c => c.creates.any (·.2 == g)

def setCall (s : Namespaces) (i : Nat) (c : BroadcastCall) : Namespaces :=
  { s with calls := s.calls.set i c }

def setTask (s : Namespaces) (g : Nat) (task : Task) : Namespaces :=
  { s with gens := onTask s.gens g fun _ => task }

/-- `next_receiver`, or the receiver the creator kept. -/
def attach (s : Namespaces) (g : Nat) : Namespaces :=
  { s with gens := onSubs s.gens g (· + 1) }

/-- The replay buffer of `ns`, created when there is none. -/
def replayBuffer (s : Namespaces) (ns : String) : Namespaces × Nat :=
  match s.buffers.lookup ns with
  | some buf => (s, buf)
  | none =>
    ({ s with buffers := s.buffers.insert ns s.nextBuffer, nextBuffer := s.nextBuffer + 1 },
      s.nextBuffer)

/-- The next operation of a call. -/
def getOrCreateBroadcast (s : Namespaces) (i : Nat) : BroadcastCall → Option Namespaces
  | .started ns =>
    if s.locked ns then none
    else match s.broadcasts.lookup ns with
      | some g => some (s.setCall i (.found ns g))
      | none => some (s.setCall i (.missed ns))
  | .found ns g =>
    let (s, buf) := s.replayBuffer ns
    some (s.setCall i (.ready ns g buf))
  | .ready ns g buf => some ((s.attach g).setCall i (.returned ns g buf))
  | .missed ns =>
    if s.locked ns then none
    else match s.broadcasts.lookup ns with
      | some g => some (s.setCall i (.occupied ns g))
      | none =>
        let g := s.gens.length
        some { s with
          broadcasts := s.broadcasts.insert ns g
          gens := s.gens ++ [{ ns, task := .unspawned, subs := 0 }]
          calls := s.calls.set i (.inserted ns g) }
  | .occupied ns g =>
    let (s, buf) := s.replayBuffer ns
    some (s.setCall i (.held ns g buf))
  | .held ns g buf => some ((s.attach g).setCall i (.returned ns g buf))
  | .inserted ns g =>
    let (s, buf) := s.replayBuffer ns
    some (s.setCall i (.buffered ns g buf))
  | .buffered ns g buf => some ((s.setTask g .running).setCall i (.spawned ns g buf))
  | .spawned ns g buf =>
    some { s.attach g with
      handles := s.handles.insert ns g
      calls := s.calls.set i (.returned ns g buf) }
  | .returned _ _ _ => none

/-- One entry of the scan: the idle timer starts at the clock, not at `now`, and
`duration_since` saturates. -/
def gcVisit (s : Namespaces) (now : Instant) (unseen seen toGc : List String) (ns : String)
    (g : Nat) (clock : Instant) : Namespaces :=
  let scanned (toGc : List String) := Gc.scanning now (unseen.filter (· != ns)) (ns :: seen) toGc
  if s.totalReceiverCount g = 0 then
    let since := (s.idleSince.lookup ns).getD clock
    { s with
      idleSince := s.idleSince.insert ns since
      gc := scanned (if GC_GRACE < now - since then toGc ++ [ns] else toGc) }
  else { s with idleSince := s.idleSince.erase ns, gc := scanned toGc }

/-- The next operation of `gc_tick` after its scan. -/
def gcNext (s : Namespaces) : Gc → Option Namespaces
  | .collecting [] => some { s with gc := .idle }
  | .collecting (ns :: rest) =>
    if s.locked ns then none
    else match s.broadcasts.lookup ns with
      | none => some { s with gc := .unbuffered ns rest }
      | some g =>
        if s.totalReceiverCount g = 0 then
          some { s with broadcasts := s.broadcasts.erase ns, gc := .removed ns g rest }
        -- re-subscribed since the scan: only the idle timer goes
        else some { s with gc := .unbuffered ns rest }
  | .removed ns _ rest =>
    match s.handles.lookup ns with
    | none => some { s with gc := .unhandled ns rest }
    | some h =>
      some { s with
        handles := s.handles.erase ns
        gens := onTask s.gens h Task.abort
        gc := .unhandled ns rest }
  | .unhandled ns rest => some { s with buffers := s.buffers.erase ns, gc := .unbuffered ns rest }
  | .unbuffered ns rest =>
    some { s with idleSince := s.idleSince.erase ns, gc := .collecting rest }
  | .idle | .scanning _ _ _ _ => none

/-- The operations of the calls, the watchers and the sweeps, in any order. -/
def step (s : Namespaces) : NamespacesLabel → Option Namespaces
  | .subscribe ns => some { s with calls := s.calls ++ [.started ns] }
  | .call i => (s.calls[i]?).bind (s.getOrCreateBroadcast i)
  | .leave g => do
    let x ← s.gens[g]?
    if 0 < x.subs then some { s with gens := onSubs s.gens g (· - 1) } else none
  | .streamEnds g => do
    let x ← s.gens[g]?
    if x.task = .running ∨ x.task = .aborting then some (s.setTask g .ended) else none
  | .unlist g => do
    let x ← s.gens[g]?
    if x.task = .ended ∧ !s.locked x.ns then
      some { s.setTask g .unlisted with
        broadcasts := s.broadcasts.erase x.ns, gc := s.gc.forget x.ns }
    else none
  | .finish g => do
    let x ← s.gens[g]?
    if x.task = .unlisted then
      some { s.setTask g .finished with buffers := s.buffers.erase x.ns }
    else none
  | .cancel g => do
    let x ← s.gens[g]?
    if x.task = .aborting then some (s.setTask g .aborted) else none
  | .gcStart now =>
    match s.gc with
    | .idle => some { s with gc := .scanning now s.broadcasts.keys [] [] }
    | _ => none
  | .gcVisit ns clock =>
    match s.gc, s.broadcasts.lookup ns with
    | .scanning now unseen seen toGc, some g =>
      if ns ∈ seen ∨ s.locked ns then none
      else some (s.gcVisit now unseen seen toGc ns g clock)
    | _, _ => none
  | .gcCollect =>
    match s.gc with
    | .scanning _ [] _ toGc => some { s with gc := .collecting toGc }
    | _ => none
  | .gcNext => s.gcNext s.gc

/-! ### Generations -/

section Generations

variable (gens : List Generation) (g g' : Nat)

@[simp] theorem nsOf_onTask (f : Task → Task) : nsOf (onTask gens g f) g' = nsOf gens g' := by
  simp only [nsOf, onTask, List.getElem?_modify]
  cases gens[g']? with
  | none => rfl
  | some x => by_cases h : g = g' <;> simp [h]

@[simp] theorem nsOf_onSubs (f : Nat → Nat) : nsOf (onSubs gens g f) g' = nsOf gens g' := by
  simp only [nsOf, onSubs, List.getElem?_modify]
  cases gens[g']? with
  | none => rfl
  | some x => by_cases h : g = g' <;> simp [h]

@[simp] theorem taskOf_onSubs (f : Nat → Nat) : taskOf (onSubs gens g f) g' = taskOf gens g' := by
  simp only [taskOf, onSubs, List.getElem?_modify]
  cases gens[g']? with
  | none => rfl
  | some x => by_cases h : g = g' <;> simp [h]

@[simp] theorem subsOf_onTask (f : Task → Task) : subsOf (onTask gens g f) g' = subsOf gens g' := by
  simp only [subsOf, onTask, List.getElem?_modify]
  cases gens[g']? with
  | none => rfl
  | some x => by_cases h : g = g' <;> simp [h]

theorem taskOf_onTask_self (f : Task → Task) :
    taskOf (onTask gens g f) g = (taskOf gens g).map f := by
  simp only [taskOf, onTask, List.getElem?_modify]
  cases gens[g]? <;> simp

variable {g g'} in
theorem taskOf_onTask_ne (f : Task → Task) (h : g' ≠ g) :
    taskOf (onTask gens g f) g' = taskOf gens g' := by
  simp only [taskOf, onTask, List.getElem?_modify]
  cases gens[g']? <;> simp [h.symm]

variable {g g'} in
theorem subsOf_onSubs_ne (f : Nat → Nat) (h : g' ≠ g) :
    subsOf (onSubs gens g f) g' = subsOf gens g' := by
  simp only [subsOf, onSubs, List.getElem?_modify]
  cases gens[g']? <;> simp [h.symm]

theorem subsOf_leave_le : subsOf (onSubs gens g (· - 1)) g' ≤ subsOf gens g' := by
  simp only [subsOf, onSubs, List.getElem?_modify]
  cases gens[g']? with
  | none => simp
  | some x => by_cases h : g = g' <;> simp [h]

@[simp] theorem length_onTask (f : Task → Task) : (onTask gens g f).length = gens.length := by
  simp [onTask]

@[simp] theorem length_onSubs (f : Nat → Nat) : (onSubs gens g f).length = gens.length := by
  simp [onSubs]

variable {gens g}

theorem lt_of_nsOf {ns : String} (h : nsOf gens g = some ns) : g < gens.length := by
  obtain ⟨x, hx, -⟩ := Option.map_eq_some_iff.mp h
  exact (List.getElem?_eq_some_iff.mp hx).1

theorem lt_of_taskOf {task : Task} (h : taskOf gens g = some task) : g < gens.length := by
  obtain ⟨x, hx, -⟩ := Option.map_eq_some_iff.mp h
  exact (List.getElem?_eq_some_iff.mp hx).1

theorem getElem?_append_ne (x : Generation) (h : g ≠ gens.length) :
    (gens ++ [x])[g]? = gens[g]? := by
  rcases Nat.lt_or_gt_of_ne h with hlt | hgt
  · exact List.getElem?_append_left hlt
  · have hge : (gens ++ [x]).length ≤ g := by
      rw [List.length_append, List.length_singleton]
      omega
    rw [List.getElem?_eq_none hge, List.getElem?_eq_none (Nat.le_of_lt hgt)]

theorem taskOf_append_ne (x : Generation) (h : g ≠ gens.length) :
    taskOf (gens ++ [x]) g = taskOf gens g := by
  rw [taskOf, getElem?_append_ne x h, taskOf]

theorem subsOf_append_ne (x : Generation) (h : g ≠ gens.length) :
    subsOf (gens ++ [x]) g = subsOf gens g := by
  rw [subsOf, getElem?_append_ne x h, subsOf]

theorem taskOf_unspawned_onTask {f : Task → Task}
    (h : ∀ task, taskOf gens g = some task → (f task = .unspawned ↔ task = .unspawned)) :
    taskOf (onTask gens g f) g' = some .unspawned ↔ taskOf gens g' = some .unspawned := by
  by_cases hgg : g' = g
  · subst hgg
    rw [taskOf_onTask_self]
    cases htask : taskOf gens g' with
    | none => simp
    | some task => simpa using h task htask
  · rw [taskOf_onTask_ne _ _ hgg]

/-- What one task keeps, every task keeps. -/
theorem any_taskOf_onTask {f : Task → Task} {P : Task → Bool} (h : (taskOf gens g').any P)
    (hf : ∀ task, taskOf gens g = some task → P task → P (f task)) :
    (taskOf (onTask gens g f) g').any P := by
  by_cases hgg : g' = g
  · subst hgg
    rw [taskOf_onTask_self]
    cases htask : taskOf gens g' with
    | none => simp [htask] at h
    | some task =>
      rw [htask] at h
      exact hf task htask h
  · rw [taskOf_onTask_ne _ _ hgg]
    exact h

theorem nsOf_append {x : Generation} {ns : String} (h : nsOf (gens ++ [x]) g = some ns) :
    nsOf gens g = some ns ∨ (g = gens.length ∧ x.ns = ns) := by
  by_cases hlt : g < gens.length
  · left
    simpa [nsOf, List.getElem?_append_left hlt] using h
  · right
    have hg : g = gens.length := by
      have := lt_of_nsOf h
      simp only [List.length_append, List.length_cons, List.length_nil] at this
      omega
    refine ⟨hg, ?_⟩
    simpa [nsOf, hg] using h

end Generations

/-! ### What one operation can do -/

/-- A call moves on without touching the broadcast map, the handles or a
`ShardSet`: it keeps what it has, or takes what is registered. -/
structure Quiet (s : Namespaces) (c c' : BroadcastCall) : Prop where
  creates : c'.creates = c.creates
  spawns : c'.spawns = c.spawns
  clone : ∀ g, c'.clone = some g → c.clone = some g ∨ ∃ ns, s.broadcasts.lookup ns = some g

/-- A watcher task moves on. -/
inductive Turn (g : Nat) : NamespacesLabel → Task → Task → Prop
  | streamEnds {task : Task} (h : task = .running ∨ task = .aborting) :
      Turn g (.streamEnds g) task .ended
  | finish : Turn g (.finish g) .unlisted .finished
  | cancel : Turn g (.cancel g) .aborting .aborted

inductive Move (s : Namespaces) : NamespacesLabel → Namespaces → Prop
  | subscribe (ns : String) :
      Move s (.subscribe ns) { s with calls := s.calls ++ [.started ns] }
  | quiet {i : Nat} {c c' : BroadcastCall} {buffers : Map String Nat} {nextBuffer : Nat}
      (hc : s.calls[i]? = some c) (hq : Quiet s c c') :
      Move s (.call i) { s with calls := s.calls.set i c', buffers, nextBuffer }
  | attach {i : Nat} {c : BroadcastCall} {ns : String} {g : Nat} {buf : Nat}
      (hc : s.calls[i]? = some c) (hret : c = .ready ns g buf ∨ c = .held ns g buf) :
      Move s (.call i)
        { s with gens := onSubs s.gens g (· + 1), calls := s.calls.set i (.returned ns g buf) }
  | create {i : Nat} {ns : String} (hc : s.calls[i]? = some (.missed ns))
      (hvacant : s.broadcasts.lookup ns = none) :
      Move s (.call i)
        { s with
          broadcasts := s.broadcasts.insert ns s.gens.length
          gens := s.gens ++ [{ ns, task := .unspawned, subs := 0 }]
          calls := s.calls.set i (.inserted ns s.gens.length) }
  | spawn {i : Nat} {ns : String} {g : Nat} {buf : Nat}
      (hc : s.calls[i]? = some (.buffered ns g buf)) :
      Move s (.call i)
        { s with
          gens := onTask s.gens g fun _ => .running
          calls := s.calls.set i (.spawned ns g buf) }
  | store {i : Nat} {ns : String} {g : Nat} {buf : Nat}
      (hc : s.calls[i]? = some (.spawned ns g buf)) :
      Move s (.call i)
        { s with
          gens := onSubs s.gens g (· + 1)
          handles := s.handles.insert ns g
          calls := s.calls.set i (.returned ns g buf) }
  | leave (g : Nat) : Move s (.leave g) { s with gens := onSubs s.gens g (· - 1) }
  | turn {l : NamespacesLabel} {g : Nat} {task task' : Task} {buffers : Map String Nat}
      (htask : taskOf s.gens g = some task) (hturn : Turn g l task task') :
      Move s l { s with gens := onTask s.gens g fun _ => task', buffers }
  | unlist {g : Nat} {ns : String} {gc : Gc} (hns : nsOf s.gens g = some ns)
      (htask : taskOf s.gens g = some .ended)
      (hgc : ∀ ns g rest, gc = .removed ns g rest → s.gc = gc) :
      Move s (.unlist g)
        { s with
          gens := onTask s.gens g fun _ => .unlisted
          broadcasts := s.broadcasts.erase ns
          gc }
  | sweep {l : NamespacesLabel} {gc : Gc} {buffers : Map String Nat}
      {idleSince : Map String Instant} (hgc : ∀ ns g rest, gc ≠ .removed ns g rest) :
      Move s l { s with gc, buffers, idleSince }
  | remove {ns : String} {g : Nat} {rest : List String} (hg : s.broadcasts.lookup ns = some g)
      (hidle : s.totalReceiverCount g = 0) :
      Move s .gcNext
        { s with broadcasts := s.broadcasts.erase ns, gc := .removed ns g rest }
  | take {ns : String} {g h : Nat} {rest : List String} (hgc : s.gc = .removed ns g rest)
      (hh : s.handles.lookup ns = some h) :
      Move s .gcNext
        { s with
          handles := s.handles.erase ns
          gens := onTask s.gens h Task.abort
          gc := .unhandled ns rest }

theorem replayBuffer_eq (s : Namespaces) (ns : String) :
    ∃ buffers nextBuffer,
      (s.replayBuffer ns).1 = { s with buffers := buffers, nextBuffer := nextBuffer } := by
  unfold replayBuffer
  split
  · exact ⟨s.buffers, s.nextBuffer, rfl⟩
  · exact ⟨_, _, rfl⟩

theorem getOrCreateBroadcast_move {s t : Namespaces} {i : Nat} {c : BroadcastCall}
    (hc : s.calls[i]? = some c) (h : s.getOrCreateBroadcast i c = some t) :
    Move s (.call i) t := by
  cases c with
  | started ns =>
    simp only [getOrCreateBroadcast] at h
    split at h
    · cases h
    · split at h
      · rename_i g hg
        cases h
        exact .quiet hc ⟨rfl, rfl, fun g' hg' => .inr ⟨ns, by simpa [BroadcastCall.clone] using hg' ▸ hg⟩⟩
      · cases h
        exact .quiet hc ⟨rfl, rfl, nofun⟩
  | found ns g =>
    obtain ⟨buffers, nextBuffer, hbuf⟩ := s.replayBuffer_eq ns
    simp only [getOrCreateBroadcast, hbuf, Option.some.injEq] at h
    subst h
    exact .quiet hc ⟨rfl, rfl, fun _ => .inl⟩
  | ready ns g buf =>
    cases h
    exact .attach hc (.inl rfl)
  | missed ns =>
    simp only [getOrCreateBroadcast] at h
    split at h
    · cases h
    · split at h
      · cases h
        exact .quiet hc ⟨rfl, rfl, nofun⟩
      · rename_i hvacant
        cases h
        exact .create hc hvacant
  | occupied ns g | inserted ns g =>
    obtain ⟨buffers, nextBuffer, hbuf⟩ := s.replayBuffer_eq ns
    simp only [getOrCreateBroadcast, hbuf, Option.some.injEq] at h
    subst h
    exact .quiet hc ⟨rfl, rfl, nofun⟩
  | held ns g buf =>
    cases h
    exact .attach hc (.inr rfl)
  | buffered ns g buf =>
    cases h
    exact .spawn hc
  | spawned ns g buf =>
    cases h
    exact .store hc
  | returned ns g buf => cases h

theorem gcNext_move {s t : Namespaces} (h : s.gcNext s.gc = some t) : Move s .gcNext t := by
  cases hgc : s.gc with
  | idle => simp [gcNext, hgc] at h
  | scanning now unseen seen toGc => simp [gcNext, hgc] at h
  | collecting toGc =>
    cases toGc with
    | nil =>
      simp only [hgc, gcNext, Option.some.injEq] at h
      subst h
      exact .sweep nofun
    | cons ns rest =>
      simp only [hgc, gcNext] at h
      split at h
      · cases h
      · split at h
        · cases h
          exact .sweep nofun
        · rename_i g hg
          split at h
          · rename_i hidle
            cases h
            exact .remove hg hidle
          · cases h
            exact .sweep nofun
  | removed ns g rest =>
    simp only [hgc, gcNext] at h
    split at h
    · cases h
      exact .sweep nofun
    · rename_i h' hh
      cases h
      exact .take hgc hh
  | unhandled ns rest | unbuffered ns rest =>
    simp only [hgc, gcNext, Option.some.injEq] at h
    subst h
    exact .sweep nofun

theorem step_move {s t : Namespaces} {l : NamespacesLabel} (h : s.step l = some t) :
    Move s l t := by
  cases l with
  | subscribe ns =>
    cases h
    exact .subscribe ns
  | call i =>
    obtain ⟨c, hc, h⟩ := Option.bind_eq_some_iff.mp h
    exact getOrCreateBroadcast_move hc h
  | leave g =>
    obtain ⟨x, hx, h⟩ := Option.bind_eq_some_iff.mp h
    split at h
    · cases h
      exact .leave g
    · cases h
  | streamEnds g =>
    obtain ⟨x, hx, h⟩ := Option.bind_eq_some_iff.mp h
    split at h
    · rename_i htask
      cases h
      exact .turn (by rw [taskOf, hx]; rfl) (.streamEnds htask)
    · cases h
  | unlist g =>
    obtain ⟨x, hx, h⟩ := Option.bind_eq_some_iff.mp h
    split at h
    · rename_i hguard
      cases h
      refine .unlist (by rw [nsOf, hx]; rfl) (by rw [taskOf, hx, ← hguard.1]; rfl) ?_
      intro ns g' rest hgc
      cases hs : s.gc <;> simp_all [Gc.forget]
    · cases h
  | finish g =>
    obtain ⟨x, hx, h⟩ := Option.bind_eq_some_iff.mp h
    split at h
    · rename_i htask
      cases h
      exact .turn (by rw [taskOf, hx, ← htask]; rfl) .finish
    · cases h
  | cancel g =>
    obtain ⟨x, hx, h⟩ := Option.bind_eq_some_iff.mp h
    split at h
    · rename_i htask
      cases h
      exact .turn (by rw [taskOf, hx, ← htask]; rfl) .cancel
    · cases h
  | gcStart _ | gcCollect =>
    simp only [step] at h
    split at h
    · cases h
      exact .sweep nofun
    · cases h
  | gcVisit ns clock =>
    simp only [step] at h
    split at h
    · split at h
      · cases h
      · simp only [gcVisit] at h
        split at h
        · cases h
          exact .sweep nofun
        · cases h
          exact .sweep nofun
    · cases h
  | gcNext => exact gcNext_move h

end Namespaces

end Konfig
