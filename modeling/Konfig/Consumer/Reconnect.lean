import Konfig.Consumer.ReadModel
import Konfig.Service.Rpc

/-!
# The two loops of the consumer

`stream.rs` of `konfig-consumer` has the reconnect loop twice: `StreamDriver::run` keeps a
store for each name, and `reconnecting_event_stream` hands out the events.  A `ClientIo` is
what either of them exchanges with the world: a `Subscribe` call, a read of its stream, a
pause.

* `Conversation`: what a client may do, said of its exchanges alone.  It asks for what comes
  after the last version it was sent, reads until the stream ends, and then pauses for
  longer and longer.
* `StreamTask.converses`, `ReconnectingStream.converses`: both loops have exactly these
  conversations.
* `clients_agree`: in the same conversation the stores of the one are what the events of
  the other make of them, but for the marks of the losses.
-/

namespace Konfig

open Lib

deriving instance DecidableEq for SubscribeRequest

/-! ### What a client exchanges -/

/-- An exchange of a client. -/
inductive ClientIo
  /-- A `Subscribe` call, which opens a stream or fails. -/
  | subscribe (req : SubscribeRequest) (opened : Bool)
  /-- `stream.message()`: an event, the end of the stream, or an error. -/
  | message (answer : Except Status (Option ConfigEvent))
  /-- `tokio::time::sleep`, in seconds. -/
  | sleep (secs : ℕ)

def BACKOFF_STEPS_SECS : List ℕ := [1, 2, 4, 8, 16, 30]

/-- `backoff_delay`: the last step from then on. -/
def backoffDelay (attempt : ℕ) : ℕ := BACKOFF_STEPS_SECS[attempt]?.getD 30

def USIZE_MAX : ℕ := 2 ^ 64 - 1

/-- `usize::saturating_add(1)`. -/
def saturatingIncr (attempt : ℕ) : ℕ := min (attempt + 1) USIZE_MAX

theorem backoffDelay_of_ge {attempt : ℕ} (h : 6 ≤ attempt) : backoffDelay attempt = 30 := by
  unfold backoffDelay
  rw [List.getElem?_eq_none (by exact h), Option.getD_none]

/-- A saturated counter is long past the last step. -/
theorem backoffDelay_min (n : ℕ) : backoffDelay (min n USIZE_MAX) = backoffDelay n := by
  by_cases h : n ≤ USIZE_MAX
  · rw [min_eq_left h]
  · have hmax : 6 ≤ USIZE_MAX := by decide
    rw [min_eq_right (by omega), backoffDelay_of_ge hmax, backoffDelay_of_ge (by omega)]

/-- Where a loop is: before a call, in the inner loop, or before the pause. -/
inductive LoopPhase
  | connect
  | read
  | pause
  deriving DecidableEq, Repr

/-! ### `reconnecting_event_stream` -/

/-- The generator with its locals.  `yielded` is a history variable: what it has handed out. -/
structure ReconnectingStream where
  ns : String
  names : List String
  attempt : ℕ
  resumeRv : String
  phase : LoopPhase
  yielded : List ConfigEvent

def ReconnectingStream.start (ns : String) (names : List String) : ReconnectingStream :=
  { ns, names, attempt := 0, resumeRv := "", phase := .connect, yielded := [] }

/-- The request of the next call. -/
def ReconnectingStream.request (s : ReconnectingStream) : SubscribeRequest :=
  { ns := s.ns, names := s.names, labelSelector := "", resumeResourceVersion := s.resumeRv }

def ReconnectingStream.step (s : ReconnectingStream) : ClientIo → Option ReconnectingStream
  | .subscribe req opened =>
    if s.phase = .connect ∧ req = s.request then
      some (if opened then { s with attempt := 0, phase := .read } else { s with phase := .pause })
    else none
  | .message answer =>
    if s.phase = .read then
      match answer with
      | .ok (some event) =>
        some { s with resumeRv := advance s.resumeRv event, yielded := s.yielded ++ [event] }
      | .ok none => some { s with phase := .pause }
      | .error _ => some { s with phase := .pause }
    else none
  | .sleep secs =>
    if s.phase = .pause ∧ secs = backoffDelay s.attempt then
      some { s with attempt := saturatingIncr s.attempt, phase := .connect }
    else none

/-! ### `StreamDriver::run` -/

section

variable [SerdeJson]

/-- The task with its locals; `resume_rv` is the cursor of the driver. -/
structure StreamTask where
  ns : String
  driver : Driver
  attempt : ℕ
  phase : LoopPhase
  lastEventAt : Option Instant

omit [SerdeJson] in
/-- `KonfigClient::watch` spawns it. -/
def StreamTask.start (ns : String) (names : List String) (now : Instant) : StreamTask :=
  { ns, driver := .new names now, attempt := 0, phase := .connect, lastEventAt := none }

omit [SerdeJson] in
def StreamTask.request (t : StreamTask) : SubscribeRequest :=
  { ns := t.ns, names := t.driver.names, labelSelector := "", resumeResourceVersion := t.driver.resumeRv }

def StreamTask.step (t : StreamTask) : Instant × ClientIo → Option StreamTask
  | (now, .subscribe req opened) =>
    if t.phase = .connect ∧ req = t.request then
      some (if opened then { t with attempt := 0, phase := .read }
        else { t with driver := t.driver.markAllStale now, phase := .pause })
    else none
  | (now, .message answer) =>
    if t.phase = .read then
      match answer with
      | .ok (some event) => some { t with lastEventAt := some now, driver := t.driver.apply now event }
      | .ok none => some { t with phase := .pause }
      | .error _ => some { t with driver := t.driver.markAllStale now, phase := .pause }
    else none
  | (_, .sleep secs) =>
    if t.phase = .pause ∧ secs = backoffDelay t.attempt then
      some { t with attempt := saturatingIncr t.attempt, phase := .connect }
    else none

end

/-! ### Conversations -/

/-- The event that is read. -/
def ClientIo.event : ClientIo → Option ConfigEvent
  | .message (.ok event) => event
  | _ => none

@[simp] theorem ClientIo.event_subscribe (req : SubscribeRequest) (opened : Bool) :
    (ClientIo.subscribe req opened).event = none := rfl

@[simp] theorem ClientIo.event_ok (event : Option ConfigEvent) : (ClientIo.message (.ok event)).event = event := rfl

@[simp] theorem ClientIo.event_error (status : Status) : (ClientIo.message (.error status)).event = none := rfl

@[simp] theorem ClientIo.event_sleep (secs : ℕ) : (ClientIo.sleep secs).event = none := rfl

/-- The events that were read, in their order. -/
def delivered (log : List ClientIo) : List ConfigEvent := log.filterMap ClientIo.event

/-- The version of the last event that has one. -/
def lastVersion (log : List ClientIo) : String :=
  ((delivered log).filterMap fun event => event.config.bind fun cfg =>
    if cfg.resourceVersion = "" then none else some cfg.resourceVersion).getLast?.getD ""

/-- What comes after an exchange. -/
@[simp] def ClientIo.next : ClientIo → LoopPhase
  | .subscribe _ opened => if opened then .read else .pause
  | .message (.ok (some _)) => .read
  | .message _ => .pause
  | .sleep _ => .connect

/-- Where a client is. -/
def phaseAfter (log : List ClientIo) : LoopPhase := (log.getLast?.map ClientIo.next).getD .connect

/-- The pauses since a stream was opened. -/
def pausesAfter (log : List ClientIo) : ℕ :=
  log.foldl (fun n io =>
    match io with
    | .subscribe _ true => 0
    | .sleep _ => n + 1
    | _ => n) 0

/-- What a client may do next. -/
def Converses (ns : String) (names : List String) (log : List ClientIo) (io : ClientIo) : Prop :=
  match phaseAfter log, io with
  | .connect, .subscribe req _ =>
    req = { ns, names, labelSelector := "", resumeResourceVersion := lastVersion log }
  | .read, .message _ => True
  | .pause, .sleep secs => secs = backoffDelay (pausesAfter log)
  | _, _ => False

/-- A conversation with the server. -/
abbrev Conversation (ns : String) (names : List String) : List ClientIo → Prop := Lawful (Converses ns names)

@[simp] theorem delivered_snoc (log : List ClientIo) (io : ClientIo) :
    delivered (log ++ [io]) = delivered log ++ io.event.toList := by
  unfold delivered
  rw [List.filterMap_append]
  cases h : io.event <;> simp [h]

@[simp] theorem phaseAfter_snoc (log : List ClientIo) (io : ClientIo) : phaseAfter (log ++ [io]) = io.next := by
  simp [phaseAfter]

@[simp] theorem pausesAfter_snoc (log : List ClientIo) (io : ClientIo) :
    pausesAfter (log ++ [io]) =
      match io with
      | .subscribe _ true => 0
      | .sleep _ => pausesAfter log + 1
      | _ => pausesAfter log := by
  rw [pausesAfter, List.foldl_append]
  rfl

@[simp] theorem lastVersion_snoc (log : List ClientIo) (io : ClientIo) :
    lastVersion (log ++ [io]) = (io.event.map (advance (lastVersion log))).getD (lastVersion log) := by
  unfold lastVersion
  rw [delivered_snoc, List.filterMap_append]
  cases hevent : io.event with
  | none => simp
  | some event =>
    cases hcfg : event.config with
    | none => simp [advance, hcfg]
    | some cfg => by_cases hrv : cfg.resourceVersion = "" <;> simp [advance, hcfg, hrv]

/-- The counter saturates. -/
theorem saturatingIncr_min (n : ℕ) : saturatingIncr (min n USIZE_MAX) = min (n + 1) USIZE_MAX := by
  unfold saturatingIncr
  omega

/-! ### The conversations of `reconnecting_event_stream` -/

/-- The locals are told by the conversation. -/
structure ReconnectingStream.Inv (ns : String) (names : List String) (log : List ClientIo)
    (s : ReconnectingStream) : Prop where
  ns : s.ns = ns
  names : s.names = names
  attempt : s.attempt = min (pausesAfter log) USIZE_MAX
  resumeRv : s.resumeRv = lastVersion log
  phase : s.phase = phaseAfter log
  yielded : s.yielded = delivered log

variable {ns : String} {names : List String}

theorem ReconnectingStream.inv_start (ns : String) (names : List String) :
    (ReconnectingStream.start ns names).Inv ns names [] :=
  ⟨rfl, rfl, rfl, rfl, rfl, rfl⟩

theorem ReconnectingStream.Inv.request {log : List ClientIo} {s : ReconnectingStream} (h : s.Inv ns names log) :
    s.request = { ns, names, labelSelector := "", resumeResourceVersion := lastVersion log } := by
  rw [ReconnectingStream.request, h.ns, h.names, h.resumeRv]

theorem ReconnectingStream.Inv.allowed {log : List ClientIo} {s : ReconnectingStream}
    (h : s.Inv ns names log) (io : ClientIo) :
    (s.step io).isSome ↔ Converses ns names log io := by
  unfold Converses
  rw [← h.phase]
  cases io with
  | subscribe req opened =>
    rw [ReconnectingStream.step, h.request]
    cases s.phase <;> simp
  | message answer =>
    unfold ReconnectingStream.step
    cases s.phase with
    | connect | pause => simp
    | read => rcases answer with _ | _ | _ <;> simp
  | sleep secs =>
    rw [ReconnectingStream.step, h.attempt, backoffDelay_min]
    cases s.phase <;> simp

theorem ReconnectingStream.Inv.step {log : List ClientIo} {s s' : ReconnectingStream} {io : ClientIo}
    (h : s.Inv ns names log)
    (hs : s.step io = some s') : s'.Inv ns names (log ++ [io]) := by
  cases io with
  | subscribe req opened =>
    obtain ⟨-, hs⟩ := Option.ite_none_right_eq_some.mp hs
    cases hs
    cases opened with
    | true => exact ⟨h.ns, h.names, by simp, by simp [h.resumeRv], by simp, by simp [h.yielded]⟩
    | false => exact ⟨h.ns, h.names, by simp [h.attempt], by simp [h.resumeRv], by simp, by simp [h.yielded]⟩
  | message answer =>
    obtain ⟨hphase, hs⟩ := Option.ite_none_right_eq_some.mp hs
    rcases answer with status | _ | event
    all_goals cases hs
    · exact ⟨h.ns, h.names, by simp [h.attempt], by simp [h.resumeRv], by simp, by simp [h.yielded]⟩
    · exact ⟨h.ns, h.names, by simp [h.attempt], by simp [h.resumeRv], by simp, by simp [h.yielded]⟩
    · exact ⟨h.ns, h.names, by simp [h.attempt], by simp [h.resumeRv], by simp [hphase], by simp [h.yielded]⟩
  | sleep secs =>
    obtain ⟨-, hs⟩ := Option.ite_none_right_eq_some.mp hs
    cases hs
    refine ⟨h.ns, h.names, ?_, by simp [h.resumeRv], by simp, by simp [h.yielded]⟩
    rw [pausesAfter_snoc, ← saturatingIncr_min, ← h.attempt]

/-- **The conversations of the event stream.** -/
theorem ReconnectingStream.converses (ns : String) (names : List String) (log : List ClientIo) :
    (run ReconnectingStream.step (.start ns names) log).isSome ↔ Conversation ns names log :=
  run_isSome_iff (fun log s => s.Inv ns names log) (inv_start ns names) (fun _ _ io h => h.allowed io)
    (fun _ _ _ _ h hs => h.step hs) log

theorem ReconnectingStream.inv_run {log : List ClientIo} {s : ReconnectingStream}
    (hrun : run ReconnectingStream.step (.start ns names) log = some s) : s.Inv ns names log :=
  run_induction (fun log s => s.Inv ns names log) (inv_start ns names) (fun _ _ _ _ _ h hs => h.step hs) log s hrun

/-! ### The conversations of `StreamDriver::run` -/

section

variable [SerdeJson]

omit [SerdeJson] in
/-- What an exchange does to the stores. -/
@[simp] def storeOp : Instant × ClientIo → Option ConsumerOp
  | (now, .subscribe _ false) => some (.lost now)
  | (now, .message (.ok (some event))) => some (.event now event)
  | (now, .message (.error _)) => some (.lost now)
  | _ => none

omit [SerdeJson] in
def storeOps (log : List (Instant × ClientIo)) : List ConsumerOp := log.filterMap storeOp

omit [SerdeJson] in
/-- The instant of the last event. -/
def lastRead (log : List (Instant × ClientIo)) : Option Instant :=
  (log.filterMap fun e => e.2.event.map fun _ => e.1).getLast?

omit [SerdeJson] in
@[simp] theorem lastRead_snoc (log : List (Instant × ClientIo)) (e : Instant × ClientIo) :
    lastRead (log ++ [e]) = (e.2.event.map fun _ => e.1).or (lastRead log) := by
  unfold lastRead
  rw [List.filterMap_append]
  cases h : e.2.event <;> simp [h]

/-- The stores after an exchange. -/
theorem foldl_storeOps_snoc (d : Driver) (log : List (Instant × ClientIo)) (e : Instant × ClientIo) :
    (storeOps (log ++ [e])).foldl Driver.op d =
      (storeOp e).elim ((storeOps log).foldl Driver.op d) ((storeOps log).foldl Driver.op d).op := by
  unfold storeOps
  rw [List.filterMap_append, List.foldl_append]
  cases h : storeOp e with
  | none => rw [List.filterMap_cons_none h, List.filterMap_nil, List.foldl_nil, Option.elim_none]
  | some op => rw [List.filterMap_cons_some h, List.filterMap_nil, List.foldl_cons, List.foldl_nil, Option.elim_some]

/-- The locals are told by the conversation, and so are the stores. -/
structure StreamTask.Inv (ns : String) (tracked : List String) (start : Instant) (log : List (Instant × ClientIo))
    (t : StreamTask) : Prop where
  ns : t.ns = ns
  names : t.driver.names = tracked
  attempt : t.attempt = min (pausesAfter (log.map Prod.snd)) USIZE_MAX
  resumeRv : t.driver.resumeRv = lastVersion (log.map Prod.snd)
  phase : t.phase = phaseAfter (log.map Prod.snd)
  driver : t.driver = (storeOps log).foldl Driver.op (Driver.new tracked start)
  lastEventAt : t.lastEventAt = lastRead log

omit [SerdeJson] in
theorem StreamTask.request_eq {t : StreamTask} {rv : String} (hns : t.ns = ns) (hnames : t.driver.names = names)
    (hrv : t.driver.resumeRv = rv) :
    t.request = { ns, names, labelSelector := "", resumeResourceVersion := rv } := by
  rw [StreamTask.request, hns, hnames, hrv]

variable {start : Instant} {log : List (Instant × ClientIo)} {t t' : StreamTask}

theorem StreamTask.inv_start (ns : String) (names : List String) (start : Instant) :
    (StreamTask.start ns names start).Inv ns names start [] :=
  ⟨rfl, rfl, rfl, rfl, rfl, rfl, rfl⟩

theorem StreamTask.Inv.allowed (h : t.Inv ns names start log) (e : Instant × ClientIo) :
    (t.step e).isSome ↔ Converses ns names (log.map Prod.snd) e.2 := by
  obtain ⟨now, io⟩ := e
  unfold Converses
  rw [← h.phase]
  cases io with
  | subscribe req opened =>
    rw [StreamTask.step, StreamTask.request_eq h.ns h.names h.resumeRv]
    cases t.phase <;> simp
  | message answer =>
    unfold StreamTask.step
    cases t.phase with
    | connect | pause => simp
    | read => rcases answer with _ | _ | _ <;> simp
  | sleep secs =>
    rw [StreamTask.step, h.attempt, backoffDelay_min]
    cases t.phase <;> simp

theorem StreamTask.Inv.step {e : Instant × ClientIo} (h : t.Inv ns names start log) (hs : t.step e = some t') :
    t'.Inv ns names start (log ++ [e]) := by
  obtain ⟨now, io⟩ := e
  cases io with
  | subscribe req opened =>
    obtain ⟨-, hs⟩ := Option.ite_none_right_eq_some.mp hs
    cases hs
    cases opened with
    | true =>
      refine ⟨h.ns, h.names, by simp, by simp [h.resumeRv], by simp, ?_, by simp [h.lastEventAt]⟩
      simp [foldl_storeOps_snoc, h.driver]
    | false =>
      refine ⟨h.ns, h.names, by simp [h.attempt], ?_, by simp, ?_, by simp [h.lastEventAt]⟩
      · simp [Driver.markAllStale, h.resumeRv]
      · simp [foldl_storeOps_snoc, h.driver, Driver.op]
  | message answer =>
    obtain ⟨hphase, hs⟩ := Option.ite_none_right_eq_some.mp hs
    rcases answer with status | _ | event
    all_goals cases hs
    · refine ⟨h.ns, h.names, by simp [h.attempt], ?_, by simp, ?_, by simp [h.lastEventAt]⟩
      · simp [Driver.markAllStale, h.resumeRv]
      · simp [foldl_storeOps_snoc, h.driver, Driver.op]
    · refine ⟨h.ns, h.names, by simp [h.attempt], by simp [h.resumeRv], by simp, ?_, by simp [h.lastEventAt]⟩
      simp [foldl_storeOps_snoc, h.driver]
    · refine ⟨h.ns, ?_, by simp [h.attempt], ?_, by simp [hphase], ?_, by simp⟩
      · rw [Driver.names_apply, h.names]
      · simp [Driver.resumeRv_apply, h.resumeRv]
      · simp [foldl_storeOps_snoc, h.driver, Driver.op]
  | sleep secs =>
    obtain ⟨-, hs⟩ := Option.ite_none_right_eq_some.mp hs
    cases hs
    refine ⟨h.ns, h.names, ?_, by simp [h.resumeRv], by simp, ?_, by simp [h.lastEventAt]⟩
    · rw [List.map_append, List.map_singleton, pausesAfter_snoc, ← saturatingIncr_min, ← h.attempt]
    · simp [foldl_storeOps_snoc, h.driver]

/-- **The conversations of the driver task.** -/
theorem StreamTask.converses (ns : String) (names : List String) (start : Instant)
    (log : List (Instant × ClientIo)) :
    (run StreamTask.step (.start ns names start) log).isSome ↔ Conversation ns names (log.map Prod.snd) :=
  (run_isSome_iff (fun log t => t.Inv ns names start log) (inv_start ns names start)
    (fun _ _ e h => h.allowed e) (fun _ _ _ _ h hs => h.step hs) log).trans lawful_map

theorem StreamTask.inv_run (hrun : run StreamTask.step (.start ns names start) log = some t) :
    t.Inv ns names start log :=
  run_induction (fun log t => t.Inv ns names start log) (inv_start ns names start)
    (fun _ _ _ _ _ h hs => h.step hs) log t hrun

/-! ### Both -/

/-- The events with the instants at which they were read. -/
def deliveredAt (log : List (Instant × ClientIo)) : List (Instant × ConfigEvent) :=
  log.filterMap fun e => e.2.event.map fun event => (e.1, event)

/-- The stores that a caller of the event stream makes of its events. -/
def materialised (names : List String) (start : Instant) (log : List (Instant × ClientIo)) : Driver :=
  (deliveredAt log).foldl (fun d e => d.apply e.1 e.2) (Driver.new names start)

theorem materialised_eq (names : List String) (start : Instant) (log : List (Instant × ClientIo)) :
    materialised names start log =
      ((deliveredAt log).map fun e => .event e.1 e.2).foldl Driver.op (Driver.new names start) := by
  rw [materialised, List.foldl_map]
  rfl

/-- A loss stores nothing. -/
theorem lastStored_storeOps (name : String) (log : List (Instant × ClientIo)) :
    lastStored name (storeOps log) = lastStored name ((deliveredAt log).map fun e => .event e.1 e.2) := by
  unfold lastStored storeOps deliveredAt
  rw [List.filterMap_filterMap, List.map_filterMap, List.filterMap_filterMap]
  refine congrArg List.getLast? (List.filterMap_congr fun e _ => ?_)
  obtain ⟨now, io⟩ := e
  rcases io with ⟨req, opened⟩ | (status | _ | event) | secs
  · cases opened <;> rfl
  all_goals rfl

/-- Without a loss there is no mark. -/
theorem firstLoss_events (name : String) (events : List (Instant × ConfigEvent)) :
    firstLoss (sinceStored name (events.map fun e => .event e.1 e.2)) = none := by
  unfold firstLoss sinceStored
  rw [List.head?_eq_none_iff, List.filterMap_eq_nil_iff]
  intro op hop
  have hmem := (List.takeWhile_sublist _).subset (List.mem_reverse.mp hop)
  obtain ⟨e, -, rfl⟩ := List.mem_map.mp (List.mem_reverse.mp hmem)
  rfl

/-- **The two clients agree.**  The driver task and the event stream have the same
conversations with a server.  What the one hands out is what was read; the cursor and the
counter of the other are the same; and its stores hold the contents and versions that a
caller makes of what was handed out. -/
theorem clients_agree (ns : String) (names : List String) (start : Instant) (log : List (Instant × ClientIo)) :
    ((run StreamTask.step (.start ns names start) log).isSome ↔ Conversation ns names (log.map Prod.snd)) ∧
      ((run ReconnectingStream.step (.start ns names) (log.map Prod.snd)).isSome ↔
        Conversation ns names (log.map Prod.snd)) ∧
      ∀ t s, run StreamTask.step (.start ns names start) log = some t →
        run ReconnectingStream.step (.start ns names) (log.map Prod.snd) = some s →
          s.yielded = delivered (log.map Prod.snd) ∧ t.driver.resumeRv = s.resumeRv ∧ t.attempt = s.attempt ∧
            t.phase = s.phase ∧ t.lastEventAt = lastRead log ∧
            ∀ name, (t.driver.stores.lookup name).map (fun snap => { snap with staleSince := none }) =
              (materialised names start log).stores.lookup name := by
  refine ⟨StreamTask.converses ns names start log, ReconnectingStream.converses ns names _, fun t s ht hs => ?_⟩
  have hinv := StreamTask.inv_run ht
  have hinv' := ReconnectingStream.inv_run hs
  refine ⟨hinv'.yielded, hinv.resumeRv.trans hinv'.resumeRv.symm, hinv.attempt.trans hinv'.attempt.symm,
    hinv.phase.trans hinv'.phase.symm, hinv.lastEventAt, fun name => ?_⟩
  have htracks := Driver.tracks_new names start
  have hfresh : (Driver.new names start).Fresh := fun _ => Driver.staleSince_new
  rw [hinv.driver, materialised_eq, Driver.lookup_foldl htracks hfresh, Driver.lookup_foldl htracks hfresh,
    Option.map_map]
  refine congrArg (fun f => Option.map f _) (funext fun first => ?_)
  rw [Function.comp_apply, readModel, readModel, lastStored_storeOps, firstLoss_events]

end

end Konfig
