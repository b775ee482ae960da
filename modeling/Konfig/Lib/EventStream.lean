import Konfig.Lib.Base64

/-!
# Reading an event stream

Server-sent events as a browser reads them: lines end with CR, LF or both; a line is a
comment or a field; an empty line dispatches what was collected.  The last event id stays
until a field sets another one, and is a part of every message.

* `lines_cons`: the first line of a text.
* `readLines_event`: the lines of one event are one message.
* `readLines_comment`: a comment and an empty line are none.
-/

namespace Lib.EventStream

/-- What a browser hands to the page. -/
structure Message where
  event : String
  data : String
  lastEventId : String
deriving DecidableEq

/-- The buffers of the reader. -/
structure Reader where
  event : List Char
  data : List Char
  lastEventId : List Char

/-- A reader between two events. -/
def Reader.idle (id : String) : Reader := { event := [], data := [], lastEventId := id.toList }

/-! ### Lines -/

/-- The lines of a text; what follows the last line end is not a line yet. -/
def lines : List Char → List (List Char)
  | [] => []
  | '\r' :: '\n' :: cs => [] :: lines cs
  | c :: cs =>
    if c = '\r' ∨ c = '\n' then [] :: lines cs
    else
      match lines cs with
      | [] => []
      | line :: rest => (c :: line) :: rest

/-- No line ends in a text. -/
def NoBreak (cs : List Char) : Prop := ∀ c ∈ cs, c ≠ '\r' ∧ c ≠ '\n'

instance (cs : List Char) : Decidable (NoBreak cs) := List.decidableBAll _ cs

theorem NoBreak.append {cs ds : List Char} (h : NoBreak cs) (h' : NoBreak ds) : NoBreak (cs ++ ds) :=
  fun c hc => (List.mem_append.mp hc).elim (h c) (h' c)

theorem lines_cons {line : List Char} (h : NoBreak line) (rest : List Char) :
    lines (line ++ '\n' :: rest) = line :: lines rest := by
  induction line with
  | nil => rw [List.nil_append, lines, if_pos (.inr rfl)]; exact fun _ h => nomatch h
  | cons c line ih =>
    obtain ⟨hcr, hlf⟩ := h c List.mem_cons_self
    have hrest := ih fun d hd => h d (List.mem_cons_of_mem _ hd)
    rw [List.cons_append, lines, if_neg (not_or.mpr ⟨hcr, hlf⟩), hrest]
    exact fun _ hc => absurd hc hcr

/-! ### Fields -/

def Reader.field (r : Reader) (name value : List Char) : Reader :=
  if name = "event".toList then { r with event := value }
  else if name = "data".toList then { r with data := r.data ++ value ++ ['\n'] }
  else if name = "id".toList then if '\x00' ∈ value then r else { r with lastEventId := value }
  else r

/-- The value after the colon, without one leading space. -/
def fieldValue : List Char → List Char
  | ':' :: ' ' :: value => value
  | ':' :: value => value
  | _ => []

/-- The message that was collected, if it has data. -/
def Reader.dispatch (r : Reader) : Reader × Option Message :=
  ({ r with event := [], data := [] },
    if r.data = [] then none
    else some
      { event := if r.event = [] then "message" else String.ofList r.event
        data := String.ofList (if r.data.getLast? = some '\n' then r.data.dropLast else r.data)
        lastEventId := String.ofList r.lastEventId })

def Reader.line (r : Reader) (line : List Char) : Reader × Option Message :=
  if line = [] then r.dispatch
  else if line.head? = some ':' then (r, none)
  else (r.field (line.takeWhile (· ≠ ':')) (fieldValue (line.dropWhile (· ≠ ':'))), none)

def readLines (r : Reader) : List (List Char) → List Message
  | [] => []
  | line :: rest => (r.line line).2.toList ++ readLines (r.line line).1 rest

/-- A leading byte order mark does not count. -/
def stripMark : List Char → List Char
  | '\ufeff' :: cs => cs
  | cs => cs

/-- The messages of the bytes of a stream; nothing where they are not a text. -/
def decode (bytes : List UInt8) : Option (List Message) :=
  (fromUtf8 bytes).map fun text => readLines (.idle "") (lines (stripMark text.toList))

/-! ### Events -/

/-- A line with a field. -/
theorem line_field (r : Reader) {name : List Char} (hne : name ≠ []) (hcolon : ':' ∉ name) (value : List Char) :
    r.line (name ++ ':' :: ' ' :: value) = (r.field name value, none) := by
  obtain ⟨c, rest, rfl⟩ := List.exists_cons_of_ne_nil hne
  have hcolon' : ∀ d ∈ c :: rest, (decide (d ≠ ':')) = true := fun d hd => by
    rw [decide_eq_true_eq]
    rintro rfl
    exact hcolon hd
  have hhead : ((c :: rest) ++ ':' :: ' ' :: value).head? ≠ some ':' := by
    rw [List.cons_append, List.head?_cons]
    exact fun h => hcolon (by rw [Option.some.inj h]; exact List.mem_cons_self)
  rw [Reader.line, if_neg (by simp), if_neg hhead, List.takeWhile_append_of_pos hcolon',
    List.dropWhile_append_of_pos hcolon', List.takeWhile_cons_of_neg (by simp),
    List.dropWhile_cons_of_neg (by simp), List.append_nil]
  rfl

/-- A comment changes nothing. -/
theorem readLines_comment (id : String) (comment : List Char) (rest : List (List Char)) :
    readLines (.idle id) ((':' :: comment) :: [] :: rest) = readLines (.idle id) rest := by
  have hcomment : (Reader.idle id).line (':' :: comment) = (.idle id, none) := by
    rw [Reader.line, if_neg (by simp), if_pos List.head?_cons]
  rw [readLines, hcomment, readLines, Reader.line, if_pos rfl]
  rfl

/-- The lines of an event without an id. -/
theorem readLines_event (id : String) {event : List Char} (hevent : event ≠ []) (data : List Char)
    (rest : List (List Char)) :
    readLines (.idle id)
        (("event".toList ++ ':' :: ' ' :: event) :: ("data".toList ++ ':' :: ' ' :: data) :: [] :: rest) =
      ⟨String.ofList event, String.ofList data, id⟩ :: readLines (.idle id) rest := by
  rw [readLines, line_field _ (by decide) (by decide), readLines, line_field _ (by decide) (by decide),
    readLines, Reader.line, if_pos rfl]
  simp [Reader.field, Reader.idle, Reader.dispatch, hevent]

/-- The lines of an event with an id. -/
theorem readLines_event_id (id : String) {event newId : List Char} (hevent : event ≠ [])
    (hid : '\x00' ∉ newId) (data : List Char) (rest : List (List Char)) :
    readLines (.idle id)
        (("event".toList ++ ':' :: ' ' :: event) :: ("id".toList ++ ':' :: ' ' :: newId) ::
          ("data".toList ++ ':' :: ' ' :: data) :: [] :: rest) =
      ⟨String.ofList event, String.ofList data, String.ofList newId⟩ ::
        readLines (.idle (String.ofList newId)) rest := by
  rw [readLines, line_field _ (by decide) (by decide), readLines, line_field _ (by decide) (by decide),
    readLines, line_field _ (by decide) (by decide), readLines, Reader.line, if_pos rfl]
  simp [Reader.field, Reader.idle, Reader.dispatch, hevent, hid]

end Lib.EventStream
