import Konfig.Lib.Base64
import Konfig.Lib.JsonText
import Konfig.Lib.Unfold

/-!
# Streamed JSON arrays

The HTTP gateway answers a finite server stream with a JSON array that is written while the
items arrive: a bracket or a comma and the item, and the closing bracket in the end.  What
ends the array is the end of the stream, an error in it, or an item that does not serialise.

* `streamJsonArray_yields`: the chunks from any state of the stream.
* `streamJsonArray_array`: together they are an array of the items before the first failure.
-/

namespace Konfig

open Lib Lib.JsonText

/-- `serde_json::to_writer`: the text that is written for an item, or the bytes that are in
the buffer when it fails. -/
class ToWriter (Item : Type) where
  toWriter : Item → Except (List UInt8) String

namespace Gateway

variable {Item Status : Type}

/-- A byte literal. -/
def byte (c : Char) : UInt8 := UInt8.ofNat c.toNat

/-- Closing bytes of the array. -/
def closeArray (count : ℕ) : List UInt8 := if count = 0 then [byte '[', byte ']'] else [byte ']']

/-- The upstream, the items emitted so far, and whether the array is closed. -/
structure ArrayState (Item Status : Type) where
  stream : List (Except Status Item)
  count : ℕ
  finished : Bool

/-- The next chunk. -/
def streamJsonArray [ToWriter Item] : ArrayState Item Status → Option (List UInt8 × ArrayState Item Status)
  | ⟨_, _, true⟩ => none
  | ⟨.ok item :: stream, count, false⟩ =>
    let buf := [if count = 0 then byte '[' else byte ',']
    match ToWriter.toWriter item with
    | .ok text => some (buf ++ utf8 text, ⟨stream, count + 1, false⟩)
    -- what the buffer holds by then is dropped
    | .error _ => some (closeArray count, ⟨stream, count, true⟩)
  | ⟨.error _ :: stream, count, false⟩ => some (closeArray count, ⟨stream, count, true⟩)
  | ⟨[], count, false⟩ => some (closeArray count, ⟨[], count, true⟩)

/-! ### What the items are encoded as -/

/-- The encodings of the items before the first failure. -/
def encodings [ToWriter Item] : List (Except Status Item) → List String
  | .ok item :: stream =>
    match ToWriter.toWriter item with
    | .ok text => text :: encodings stream
    | .error _ => []
  | _ => []

/-- What is still to be written when `count` items have been. -/
def remaining : ℕ → List (List Char) → List Char
  | 0, [] => ['[', ']']
  | _ + 1, [] => [']']
  | count, text :: texts => (if count = 0 then '[' else ',') :: (text ++ remaining (count + 1) texts)

theorem remaining_succ (count : ℕ) (text : List Char) (texts : List (List Char)) :
    remaining (count + 1) (text :: texts) = ',' :: (commas (text :: texts) ++ [']']) := by
  induction texts generalizing count text with
  | nil => simp [remaining, commas]
  | cons next texts ih =>
    rw [remaining, ih, commas_cons_cons, if_neg count.succ_ne_zero, List.append_assoc, List.cons_append]

theorem remaining_zero (texts : List (List Char)) : remaining 0 texts = '[' :: (commas texts ++ [']']) := by
  cases texts with
  | nil => rfl
  | cons text texts =>
    cases texts with
    | nil => simp [remaining, commas]
    | cons next texts =>
      rw [remaining, remaining_succ, commas_cons_cons, if_pos rfl, List.append_assoc, List.cons_append]

/-! ### The chunks -/

theorem closeArray_eq (count : ℕ) : closeArray count = utf8 (String.ofList (remaining count [])) := by
  cases count with
  | zero => rfl
  | succ count => rfl

/-- The bytes of a text that starts with a bracket or a comma. -/
theorem utf8_remaining_cons (count : ℕ) (text : String) (texts : List (List Char)) :
    utf8 (String.ofList (remaining count (text.toList :: texts))) =
      ([if count = 0 then byte '[' else byte ','] ++ utf8 text) ++
        utf8 (String.ofList (remaining (count + 1) texts)) := by
  have hhead : utf8 (String.ofList [if count = 0 then '[' else ',']) =
      [if count = 0 then byte '[' else byte ','] := by
    by_cases h : count = 0 <;> simp only [h, if_true, if_false] <;> rfl
  have htext : remaining count (text.toList :: texts) =
      [if count = 0 then '[' else ','] ++ (text.toList ++ remaining (count + 1) texts) := by
    cases count <;> rfl
  rw [htext, String.ofList_append, String.ofList_append, utf8_append, utf8_append, hhead, String.ofList_toList,
    List.append_assoc]

/-- **The chunks from any state**: what is still to be written, and then the end. -/
theorem streamJsonArray_yields [ToWriter Item] (stream : List (Except Status Item)) :
    ∀ count, ∃ chunks, Unfolds streamJsonArray ⟨stream, count, false⟩ chunks ∧
      chunks.flatten = utf8 (String.ofList (remaining count ((encodings stream).map String.toList))) := by
  induction stream with
  | nil =>
    intro count
    refine ⟨[closeArray count], .last rfl rfl, ?_⟩
    rw [List.flatten_singleton, closeArray_eq]
    rfl
  | cons item stream ih =>
    intro count
    cases item with
    | error status =>
      refine ⟨[closeArray count], .last rfl rfl, ?_⟩
      rw [List.flatten_singleton, closeArray_eq]
      rfl
    | ok item =>
      cases hitem : ToWriter.toWriter item with
      | error written =>
        refine ⟨[closeArray count], .last (by rw [streamJsonArray, hitem]) rfl, ?_⟩
        rw [List.flatten_singleton, closeArray_eq, encodings, hitem]
        rfl
      | ok text =>
        obtain ⟨chunks, hchunks, hflat⟩ := ih (count + 1)
        refine ⟨_ :: chunks, .next (by rw [streamJsonArray, hitem]) hchunks, ?_⟩
        rw [List.flatten_cons, hflat, encodings, hitem]
        exact (utf8_remaining_cons count text _).symm

theorem mem_encodings [ToWriter Item] {stream : List (Except Status Item)} {text : String}
    (h : text ∈ encodings stream) : ∃ item : Item, ToWriter.toWriter item = .ok text := by
  induction stream with
  | nil => exact absurd h List.not_mem_nil
  | cons item stream ih =>
    cases item with
    | error status => exact absurd h List.not_mem_nil
    | ok item =>
      rw [encodings] at h
      split at h
      · next t ht =>
        rcases List.mem_cons.mp h with rfl | h
        · exact ⟨item, ht⟩
        · exact ih h
      · exact absurd h List.not_mem_nil

/-- **The chunks are a JSON array of the items before the first failure**, and nothing comes
after it. -/
theorem streamJsonArray_array [ToWriter Item]
    (hjson : ∀ (item : Item) (text : String), ToWriter.toWriter item = .ok text → IsJson text.toList)
    (stream : List (Except Status Item)) :
    ∃ chunks, (∀ cs, Unfolds streamJsonArray ⟨stream, 0, false⟩ cs ↔ cs = chunks) ∧
      ∃ body, fromUtf8 chunks.flatten = some body ∧ IsJson body.toList ∧
        elements body.toList = some ((encodings stream).map String.toList) := by
  obtain ⟨chunks, hchunks, hflat⟩ := streamJsonArray_yields stream 0
  have hitems : ∀ text ∈ (encodings stream).map String.toList, IsJson text := by
    intro text htext
    obtain ⟨s, hs, rfl⟩ := List.mem_map.mp htext
    obtain ⟨item, hitem⟩ := mem_encodings hs
    exact hjson item s hitem
  refine ⟨chunks, fun cs => ⟨fun h => h.unique hchunks, fun h => h ▸ hchunks⟩, _, hflat ▸ fromUtf8_utf8 _, ?_, ?_⟩
  · rw [String.toList_ofList, remaining_zero]
    exact isJson_array hitems
  · rw [String.toList_ofList, remaining_zero]
    exact elements_array hitems

/-- Two flags and an error between them. -/
theorem streamJsonArray_array_flags :
    let _ : ToWriter Bool := ⟨fun b => .ok (if b then "true" else "false")⟩
    let stream : List (Except String Bool) := [.ok true, .error "gone", .ok false]
    ∃ chunks, (∀ cs, Unfolds streamJsonArray ⟨stream, 0, false⟩ cs ↔ cs = chunks) ∧
      ∃ body, fromUtf8 chunks.flatten = some body ∧ IsJson body.toList ∧
        elements body.toList = some ((encodings stream).map String.toList) := by
  intro _ stream
  refine streamJsonArray_array (fun b text htext => ?_) stream
  obtain rfl := Except.ok.inj htext
  cases b
  · exact .literal .false
  · exact .literal .true

end Gateway

end Konfig
