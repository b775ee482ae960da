import Konfig.Lib.EventStream
import Konfig.Secrets.Types

/-!
# Watches as server-sent events

The HTTP gateway frames the items of a subscription as server-sent events.  The resource
version goes into the `id` line, which is left out where it is empty, so that a browser
resumes from the last one it has seen; an error is one more event and ends the stream, and
comments in between keep the connection open.

* `decode_sseFrame`: a frame is read as one message.
* `sseChunks_reads`: what any run has written so far, read from any last id.
* `sse_round_trip`: the messages are the items that were taken from upstream.
-/

namespace Konfig.Gateway

open Lib Lib.EventStream

/-! ### Items and errors -/

/-- `tonic::Code`. -/
inductive GrpcCode
  | ok
  | cancelled
  | unknown
  | invalidArgument
  | deadlineExceeded
  | notFound
  | alreadyExists
  | permissionDenied
  | resourceExhausted
  | failedPrecondition
  | aborted
  | outOfRange
  | unimplemented
  | internal
  | unavailable
  | dataLoss
  | unauthenticated
deriving DecidableEq

/-- `code_name`. -/
def GrpcCode.codeName : GrpcCode → String
  | ok => "ok"
  | cancelled => "cancelled"
  | unknown => "unknown"
  | invalidArgument => "invalid_argument"
  | deadlineExceeded => "deadline_exceeded"
  | notFound => "not_found"
  | alreadyExists => "already_exists"
  | permissionDenied => "permission_denied"
  | resourceExhausted => "resource_exhausted"
  | failedPrecondition => "failed_precondition"
  | aborted => "aborted"
  | outOfRange => "out_of_range"
  | unimplemented => "unimplemented"
  | internal => "internal"
  | unavailable => "unavailable"
  | dataLoss => "data_loss"
  | unauthenticated => "unauthenticated"

/-- An error of the upstream. -/
structure GrpcStatus where
  code : GrpcCode
  message : String

/-- A `ConfigEvent` or a `SecretEvent` as it is received: the event type is any number. -/
structure WireEvent (Payload : Type) where
  eventType : ℤ
  payload : Option Payload

/-! ### Frames -/

/-- The SSE event name of a proto event type; an unknown one counts as modified. -/
def eventTypeName (eventType : ℤ) : String :=
  if eventType = 0 then "ADDED"
  else if eventType = 1 then "MODIFIED"
  else if eventType = 2 then "DELETED"
  else if eventType = 3 then "SNAPSHOT"
  else "MODIFIED"

/-- One SSE frame, as text. -/
def sseText (event id data : String) : String :=
  "event: " ++ event ++ "\n" ++ (if id.isEmpty then "" else "id: " ++ id ++ "\n") ++ "data: " ++ data ++ "\n\n"

def sseFrame (event id data : String) : List UInt8 := utf8 (sseText event id data)

section

variable {Payload : Type} (rv : Payload → String) (toString : Payload → Option String)

/-- The JSON of a payload, by `serde_json::to_string`. -/
def payloadData (payload : Option Payload) : String := (payload.bind toString).getD "\x7b\x7d"

/-- The resource version of an item; empty where there is no payload. -/
def eventId (event : WireEvent Payload) : String := (event.payload.map rv).getD ""

/-- One event as its frame. -/
def frameEvent (event : WireEvent Payload) : List UInt8 :=
  let name := eventTypeName event.eventType
  match event.payload with
  | some payload =>
    let data := (toString payload).getD "\x7b\x7d"
    sseFrame name (rv payload) data
  | none => sseFrame name "" "\x7b\x7d"

theorem frameEvent_eq (event : WireEvent Payload) :
    frameEvent rv toString event =
      sseFrame (eventTypeName event.eventType) (eventId rv event) (payloadData toString event.payload) := by
  obtain ⟨eventType, payload⟩ := event
  cases payload <;> rfl

end

def frameConfigEvent (toString : Config → Option String) : WireEvent Config → List UInt8 :=
  frameEvent Config.resourceVersion toString

def frameSecretEvent (toString : SecretResponse → Option String) : WireEvent SecretResponse → List UInt8 :=
  frameEvent SecretResponse.resourceVersion toString

/-- The name of the terminal frame of an error. -/
def terminalName (status : GrpcStatus) : String :=
  if status.code = .resourceExhausted then "RELOAD" else "error"

/-- Its data; the keys of a JSON object are sorted. -/
def terminalData (status : GrpcStatus) : String :=
  if status.code = .resourceExhausted then
    (Value.object [("message", .string status.message), ("reason", .string "lagged")]).render
  else (Value.object [("code", .string status.code.codeName), ("message", .string status.message)]).render

/-- An error as a terminal frame. -/
def terminalFrame (status : GrpcStatus) : List UInt8 := sseFrame (terminalName status) "" (terminalData status)

/-! ### The stream -/

/-- Which branch of the `select!` is taken: the upstream has something, or the keep-alive
ticks. -/
inductive Branch
  | upstream
  | tick
deriving DecidableEq

/-- The upstream, and whether the terminal frame has been sent. -/
structure SseState (Item : Type) where
  stream : List (Except GrpcStatus Item)
  finished : Bool

def keepAlive : List UInt8 := utf8 ": keep-alive\n\n"

/-- The next chunk. -/
def sseEventStream {Item : Type} (toFrame : Item → List UInt8) :
    SseState Item → Branch → Option (List UInt8 × SseState Item)
  | ⟨_, true⟩, _ => none
  | ⟨.ok event :: stream, false⟩, .upstream => some (toFrame event, ⟨stream, false⟩)
  | ⟨.error status :: stream, false⟩, .upstream => some (terminalFrame status, ⟨stream, true⟩)
  | ⟨[], false⟩, .upstream => none
  | ⟨stream, false⟩, .tick => some (keepAlive, ⟨stream, false⟩)

/-- The chunks of a run. -/
def sseChunks {Item : Type} (toFrame : Item → List UInt8) : SseState Item → List Branch → List (List UInt8)
  | _, [] => []
  | s, branch :: sched =>
    match sseEventStream toFrame s branch with
    | none => []
    | some (chunk, s') => chunk :: sseChunks toFrame s' sched

/-! ### Texts without line ends -/

/-- No control character is in a text. -/
def Printable (cs : List Char) : Prop := ∀ c ∈ cs, 32 ≤ c.toNat

instance (cs : List Char) : Decidable (Printable cs) := List.decidableBAll _ cs

theorem Printable.append {cs ds : List Char} (h : Printable cs) (h' : Printable ds) : Printable (cs ++ ds) :=
  fun c hc => (List.mem_append.mp hc).elim (h c) (h' c)

theorem Printable.noBreak {cs : List Char} (h : Printable cs) : NoBreak cs := by
  intro c hc
  have hge := h c hc
  constructor <;>
  · rintro rfl
    exact absurd hge (by decide)

theorem printable_escapeChar (c : Char) : Printable (Value.escapeChar c).toList := by
  unfold Value.escapeChar
  split
  · decide
  · decide
  · decide
  · decide
  · decide
  · split_ifs with h8 h12 h32
    · decide
    · decide
    · have hhex : ∀ n < 32, Printable ("\\u00" ++ Value.hexByte n).toList := by decide
      exact hhex c.toNat h32
    · intro d hd
      rw [String.toList_ofList, List.mem_singleton] at hd
      rw [hd]
      exact Nat.le_of_not_lt h32

theorem printable_renderString (s : String) : Printable (Value.renderString s).toList := by
  have hquote : Printable "\"".toList := by decide
  have hjoin : Printable (String.join (s.toList.map Value.escapeChar)).toList := by
    intro c hc
    rw [String.toList_join, List.mem_flatMap] at hc
    obtain ⟨t, ht, hc⟩ := hc
    obtain ⟨d, -, rfl⟩ := List.mem_map.mp ht
    exact printable_escapeChar d c hc
  rw [Value.renderString, String.toList_append, String.toList_append]
  exact (hquote.append hjoin).append hquote

/-- A JSON object of two texts. -/
theorem printable_object (k k' t t' : String) :
    Printable (Value.object [(k, .string t), (k', .string t')]).render.toList := by
  have hplain : ∀ c ∈ ['\x7b', ':', ',', '\x7d'], Printable [c] := by
    intro c hc d hd
    obtain rfl := List.mem_singleton.mp hd
    simp only [List.mem_cons, List.not_mem_nil, or_false] at hc
    rcases hc with rfl | rfl | rfl | rfl <;> decide
  have hrender : (Value.object [(k, .string t), (k', .string t')]).render.toList =
      ['\x7b'] ++ ((Value.renderString k).toList ++ ([':'] ++ ((Value.renderString t).toList ++ ([','] ++
        ((Value.renderString k').toList ++ ([':'] ++ ((Value.renderString t').toList ++ ['\x7d']))))))) := by
    have hcomma : ∀ a b : String, ",".intercalate [a, b] = a ++ "," ++ b := fun _ _ => rfl
    simp [Value.render, Value.renderFields, hcomma]
  rw [hrender]
  exact (hplain _ (by simp)).append ((printable_renderString k).append ((hplain _ (by simp)).append
    ((printable_renderString t).append ((hplain _ (by simp)).append ((printable_renderString k').append
      ((hplain _ (by simp)).append ((printable_renderString t').append (hplain _ (by simp)))))))))

theorem noBreak_terminalData (status : GrpcStatus) : NoBreak (terminalData status).toList := by
  unfold terminalData
  split
  · exact (printable_object _ _ _ _).noBreak
  · exact (printable_object _ _ _ _).noBreak

/-! ### Reading one frame -/

/-- The parts of a frame are fit to be framed. -/
structure Framable (event id data : String) : Prop where
  eventNe : event ≠ ""
  eventBreak : NoBreak event.toList
  idBreak : NoBreak id.toList
  idNull : '\x00' ∉ id.toList
  dataBreak : NoBreak data.toList

/-- The last event id after a frame. -/
def nextId (last id : String) : String := if id = "" then last else id

theorem noBreak_field {name value : List Char} (hname : NoBreak name) (hvalue : NoBreak value) :
    NoBreak (name ++ ':' :: ' ' :: value) := by
  have hcolon : NoBreak [':', ' '] := by decide
  exact hname.append (hcolon.append hvalue)

/-- A frame is read as one message. -/
theorem decode_sseFrame {event id data : String} (h : Framable event id data) (last : String) (rest : List Char) :
    readLines (.idle last) (lines ((sseText event id data).toList ++ rest)) =
      ⟨event, data, nextId last id⟩ :: readLines (.idle (nextId last id)) (lines rest) := by
  have hname : ∀ name ∈ ["event".toList, "id".toList, "data".toList], NoBreak name := by decide
  have hevent := noBreak_field (hname "event".toList (by simp)) h.eventBreak
  have hid := noBreak_field (hname "id".toList (by simp)) h.idBreak
  have hdata := noBreak_field (hname "data".toList (by simp)) h.dataBreak
  have hempty : NoBreak [] := fun c hc => absurd hc List.not_mem_nil
  have hne : event.toList ≠ [] := fun hnil => h.eventNe (String.toList_eq_nil_iff.mp hnil)
  by_cases hnone : id = ""
  · have htext : (sseText event id data).toList ++ rest =
        ("event".toList ++ ':' :: ' ' :: event.toList) ++ '\n' ::
          (("data".toList ++ ':' :: ' ' :: data.toList) ++ '\n' :: ([] ++ '\n' :: rest)) := by
      simp [sseText, hnone]
    rw [htext, lines_cons hevent, lines_cons hdata, lines_cons hempty, readLines_event last hne,
      String.ofList_toList, String.ofList_toList, nextId, if_pos hnone]
  · have htext : (sseText event id data).toList ++ rest =
        ("event".toList ++ ':' :: ' ' :: event.toList) ++ '\n' ::
          (("id".toList ++ ':' :: ' ' :: id.toList) ++ '\n' ::
            (("data".toList ++ ':' :: ' ' :: data.toList) ++ '\n' :: ([] ++ '\n' :: rest))) := by
      simp [sseText, hnone]
    rw [htext, lines_cons hevent, lines_cons hid, lines_cons hdata, lines_cons hempty,
      readLines_event_id last hne h.idNull, String.ofList_toList, String.ofList_toList, String.ofList_toList,
      nextId, if_neg hnone]

/-- A keep-alive comment is read as nothing. -/
theorem decode_keepAlive (last : String) (rest : List Char) :
    readLines (.idle last) (lines (": keep-alive\n\n".toList ++ rest)) = readLines (.idle last) (lines rest) := by
  have hcomment : NoBreak ": keep-alive".toList := by decide
  have hempty : NoBreak [] := fun c hc => absurd hc List.not_mem_nil
  have htext : ": keep-alive\n\n".toList ++ rest =
      ": keep-alive".toList ++ '\n' :: ([] ++ '\n' :: rest) := by simp
  rw [htext, lines_cons hcomment, lines_cons hempty]
  exact readLines_comment last _ (lines rest)

theorem framable_terminal (status : GrpcStatus) : Framable (terminalName status) "" (terminalData status) where
  eventNe := by
    unfold terminalName
    split <;> decide
  eventBreak := by
    unfold terminalName
    split <;> decide
  idBreak _ hc := absurd hc List.not_mem_nil
  idNull := List.not_mem_nil
  dataBreak := noBreak_terminalData status

/-! ### What the items say -/

section

variable {Payload : Type} (rv : Payload → String) (toString : Payload → Option String)

/-- The messages of the items that were taken from upstream, up to the first error. -/
def messages (last : String) : List (Except GrpcStatus (WireEvent Payload)) → List Message
  | [] => []
  | .ok event :: rest =>
    let id := nextId last (eventId rv event)
    ⟨eventTypeName event.eventType, payloadData toString event.payload, id⟩ :: messages id rest
  | .error status :: _ => [⟨terminalName status, terminalData status, last⟩]

/-- What is assumed of the texts of an item: no line ends in the JSON, and no line ends and
no NUL in the resource version. -/
structure Clean (event : WireEvent Payload) : Prop where
  json : ∀ payload text, event.payload = some payload → toString payload = some text → NoBreak text.toList
  rv : ∀ payload, event.payload = some payload → NoBreak (rv payload).toList ∧ '\x00' ∉ (rv payload).toList

variable {rv toString}

theorem framable_event {event : WireEvent Payload} (h : Clean rv toString event) :
    Framable (eventTypeName event.eventType) (eventId rv event) (payloadData toString event.payload) := by
  have hbraces : NoBreak "\x7b\x7d".toList := by decide
  constructor
  · unfold eventTypeName
    split_ifs <;> decide
  · unfold eventTypeName
    split_ifs <;> decide
  · cases hpayload : event.payload with
    | none => simp [eventId, hpayload, NoBreak]
    | some payload => simpa [eventId, hpayload] using (h.rv payload hpayload).1
  · cases hpayload : event.payload with
    | none => simp [eventId, hpayload]
    | some payload => simpa [eventId, hpayload] using (h.rv payload hpayload).2
  · unfold payloadData
    cases htext : event.payload.bind toString with
    | none => exact hbraces
    | some text =>
      obtain ⟨payload, hpayload, hjson⟩ := Option.bind_eq_some_iff.mp htext
      exact h.json payload text hpayload hjson

/-! ### Runs -/

/-- **What a run has written so far**, read after any last id. -/
theorem sseChunks_reads (sched : List Branch) :
    ∀ upstream : List (Except GrpcStatus (WireEvent Payload)),
      (∀ event, .ok event ∈ upstream → Clean rv toString event) → ∃ text : String,
      (sseChunks (frameEvent rv toString) ⟨upstream, false⟩ sched).flatten = utf8 text ∧
      text.toList.head? ≠ some '\ufeff' ∧
      ∀ last, readLines (.idle last) (lines text.toList) =
        messages rv toString last (upstream.take (sched.count .upstream)) := by
  have hdone : ∃ text : String, [] = utf8 text ∧ text.toList.head? ≠ some '\ufeff' ∧
      ∀ last, readLines (.idle last) (lines text.toList) = [] := ⟨"", rfl, nofun, fun _ => rfl⟩
  induction sched with
  | nil => exact fun _ _ => hdone
  | cons branch sched ih =>
    intro upstream h
    cases branch with
    | tick =>
      obtain ⟨text, hflat, -, hread⟩ := ih upstream h
      have hstep : sseEventStream (frameEvent rv toString) ⟨upstream, false⟩ .tick =
          some (keepAlive, ⟨upstream, false⟩) := by
        rcases upstream with _ | ⟨_ | _, _⟩ <;> rfl
      refine ⟨": keep-alive\n\n" ++ text, ?_, by simp, fun last => ?_⟩
      · rw [sseChunks, hstep]
        simp only [List.flatten_cons, hflat, utf8_append, keepAlive]
      · rw [String.toList_append, decode_keepAlive, hread, List.count_cons_of_ne (by decide)]
    | upstream =>
      rw [List.count_cons_self]
      cases upstream with
      | nil => exact hdone
      | cons item upstream =>
        cases item with
        | error status =>
          refine ⟨sseText (terminalName status) "" (terminalData status), ?_, ?_, fun last => ?_⟩
          · have hend : sseChunks (frameEvent rv toString) ⟨upstream, true⟩ sched = [] := by
              cases sched <;> rfl
            rw [sseChunks, sseEventStream]
            simp only [hend, List.flatten_singleton]
            rfl
          · simp [sseText]
          · have hframe := decode_sseFrame (framable_terminal status) last []
            rw [List.append_nil] at hframe
            rw [hframe]
            rfl
        | ok event =>
          obtain ⟨text, hflat, -, hread⟩ := ih upstream fun e he => h e (List.mem_cons_of_mem _ he)
          refine ⟨sseText (eventTypeName event.eventType) (eventId rv event)
            (payloadData toString event.payload) ++ text, ?_, ?_, fun last => ?_⟩
          · rw [sseChunks, sseEventStream]
            simp only [List.flatten_cons, hflat, utf8_append, frameEvent_eq, sseFrame]
          · simp [sseText]
          · rw [String.toList_append, decode_sseFrame (framable_event (h event List.mem_cons_self)), hread]
            rfl

/-- Once the upstream has ended or failed, nothing more is written. -/
theorem sseChunks_ended (toFrame : WireEvent Payload → List UInt8) (more : List Branch) (sched : List Branch) :
    ∀ upstream : List (Except GrpcStatus (WireEvent Payload)),
      ((∃ status, .error status ∈ upstream.take (sched.count .upstream)) ∨
        upstream.length < sched.count .upstream) →
      sseChunks toFrame ⟨upstream, false⟩ (sched ++ more) = sseChunks toFrame ⟨upstream, false⟩ sched := by
  induction sched with
  | nil =>
    rintro upstream (⟨status, hmem⟩ | hlen)
    · simp at hmem
    · simp at hlen
  | cons branch sched ih =>
    intro upstream hend
    cases branch with
    | tick =>
      have hstep : sseEventStream toFrame ⟨upstream, false⟩ .tick = some (keepAlive, ⟨upstream, false⟩) := by
        rcases upstream with _ | ⟨_ | _, _⟩ <;> rfl
      rw [List.count_cons_of_ne (by decide)] at hend
      rw [List.cons_append, sseChunks, sseChunks, hstep]
      simp only [ih upstream hend]
    | upstream =>
      rw [List.count_cons_self] at hend
      cases upstream with
      | nil => rfl
      | cons item upstream =>
        cases item with
        | error status =>
          have hdone : ∀ sched, sseChunks toFrame ⟨upstream, true⟩ sched = [] := fun sched => by
            cases sched <;> rfl
          simp only [List.cons_append, sseChunks, sseEventStream, hdone]
        | ok event =>
          have hrest : (∃ status, Except.error status ∈ upstream.take (sched.count .upstream)) ∨
              upstream.length < sched.count .upstream := by
            rcases hend with ⟨status, hmem⟩ | hlen
            · refine .inl ⟨status, ?_⟩
              simpa using hmem
            · exact .inr (Nat.lt_of_succ_lt_succ hlen)
          simp only [List.cons_append, sseChunks, sseEventStream, ih upstream hrest]

/-- **Framing and reading back.**  Whatever was taken from upstream and wherever comments were
put, the messages are the items up to the first error, which is one more message; nothing
follows it, or the end. -/
theorem sse_round_trip (upstream : List (Except GrpcStatus (WireEvent Payload)))
    (h : ∀ event, .ok event ∈ upstream → Clean rv toString event) (sched : List Branch) :
    decode (sseChunks (frameEvent rv toString) ⟨upstream, false⟩ sched).flatten =
      some (messages rv toString "" (upstream.take (sched.count .upstream))) ∧
    (((∃ status, .error status ∈ upstream.take (sched.count .upstream)) ∨
        upstream.length < sched.count .upstream) →
      ∀ more, sseChunks (frameEvent rv toString) ⟨upstream, false⟩ (sched ++ more) =
        sseChunks (frameEvent rv toString) ⟨upstream, false⟩ sched) := by
  refine ⟨?_, fun hend more => sseChunks_ended _ more sched upstream hend⟩
  obtain ⟨text, hflat, hmark, hread⟩ := sseChunks_reads sched upstream h
  have hstrip : stripMark text.toList = text.toList := by
    unfold stripMark
    split
    · next cs hcs => exact absurd (by rw [hcs]; rfl) hmark
    · rfl
  rw [decode, hflat, fromUtf8_utf8, Option.map_some, hstrip, hread]

end

/-- An added config, a comment, and an error that cuts the stream off. -/
theorem sse_round_trip_lagged :
    let config : Config :=
      { ns := "shop", name := "limits", schemaVersion := 1, contentJson := "\x7b\x7d", resourceVersion := "7",
        ageMs := 0, staleSinceMs := 0 }
    let upstream : List (Except GrpcStatus (WireEvent Config)) :=
      [.ok ⟨0, some config⟩, .error ⟨.resourceExhausted, "subscriber lagged"⟩]
    let toString : Config → Option String := fun config => some ("\"" ++ config.name ++ "\"")
    let sched := [Branch.upstream, .tick, .upstream]
    decode (sseChunks (frameConfigEvent toString) ⟨upstream, false⟩ sched).flatten =
      some (messages Config.resourceVersion toString "" (upstream.take (sched.count .upstream))) ∧
    (((∃ status, .error status ∈ upstream.take (sched.count .upstream)) ∨
        upstream.length < sched.count .upstream) →
      ∀ more, sseChunks (frameConfigEvent toString) ⟨upstream, false⟩ (sched ++ more) =
        sseChunks (frameConfigEvent toString) ⟨upstream, false⟩ sched) := by
  intro config upstream toString sched
  refine sse_round_trip upstream (fun event hevent => ?_) sched
  obtain rfl : event = ⟨0, some config⟩ := by simpa [upstream] using hevent
  constructor
  · rintro payload text ⟨⟩ ⟨⟩
    show NoBreak ("\"" ++ "limits" ++ "\"").toList
    decide
  · rintro payload ⟨⟩
    show NoBreak "7".toList ∧ '\x00' ∉ "7".toList
    decide

end Konfig.Gateway
