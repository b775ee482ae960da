import Mathlib.Data.List.Basic
import Mathlib.Data.Nat.Basic

/-!
# The protobuf wire format

A message is a list of fields; a field has a number and is a number itself (a varint) or a
string of bytes (a text, a packed list or a message in turn).  Numbers are not bounded here:
one below `2 ^ 64` takes at most the ten bytes that the format allows.

* `decode_encode`: a message that was encoded decodes to its fields.
* `unpack_pack`: the same for a packed list of numbers.
-/

namespace Lib.Protobuf

/-- A sequence of bytes. -/
abbrev Bytes := List UInt8

/-! ### Reading one item after the other -/

section

variable {α : Type}

/-- Read items until nothing is left, at most `fuel` of them. -/
def readAll (read : Bytes → Option (α × Bytes)) : ℕ → Bytes → Option (List α)
  | _, [] => some []
  | 0, _ => none
  | fuel + 1, bytes => do
    let (a, rest) ← read bytes
    let as ← readAll read fuel rest
    return a :: as

theorem readAll_flatMap {read : Bytes → Option (α × Bytes)} {write : α → Bytes}
    (hread : ∀ a rest, read (write a ++ rest) = some (a, rest)) (hne : ∀ a, write a ≠ [])
    (as : List α) : ∀ fuel, as.length ≤ fuel → readAll read fuel (as.flatMap write) = some as := by
  induction as with
  | nil =>
    intro fuel _
    cases fuel <;> rfl
  | cons a as ih =>
    rintro (_ | fuel) hfuel
    · exact absurd hfuel (by simp)
    · rw [List.flatMap_cons]
      obtain ⟨b, bytes, hcons⟩ := List.exists_cons_of_ne_nil
        (List.append_ne_nil_of_left_ne_nil (hne a) (as.flatMap write))
      rw [hcons, readAll, ← hcons, hread]
      · simp only [Option.bind_eq_bind, Option.bind_some]
        rw [ih fuel (Nat.le_of_succ_le_succ hfuel)]
        rfl
      · exact fun h => nomatch h

theorem length_le_flatMap {write : α → Bytes} (hne : ∀ a, write a ≠ []) (as : List α) :
    as.length ≤ (as.flatMap write).length := by
  induction as with
  | nil => exact Nat.zero_le _
  | cons a as ih =>
    have ha := List.length_pos_iff.mpr (hne a)
    rw [List.flatMap_cons, List.length_append, List.length_cons]
    omega

end

/-! ### Numbers -/

/-- Seven bits a byte, the lowest first; all bytes but the last have the high bit. -/
def writeVarint (n : ℕ) : Bytes :=
  if n < 128 then [UInt8.ofNat n] else UInt8.ofNat (n % 128 + 128) :: writeVarint (n / 128)
termination_by n

def readVarint : Bytes → Option (ℕ × Bytes)
  | [] => none
  | b :: bytes =>
    if b.toNat < 128 then some (b.toNat, bytes)
    else (readVarint bytes).map fun (n, rest) => (b.toNat - 128 + 128 * n, rest)

theorem writeVarint_ne_nil (n : ℕ) : writeVarint n ≠ [] := by
  rw [writeVarint]
  split <;> exact List.cons_ne_nil _ _

theorem readVarint_writeVarint (n : ℕ) (rest : Bytes) : readVarint (writeVarint n ++ rest) = some (n, rest) := by
  induction n using Nat.strongRecOn with
  | ind n ih =>
    rw [writeVarint]
    by_cases hn : n < 128
    · have hbyte : (UInt8.ofNat n).toNat = n := by
        rw [UInt8.toNat_ofNat']
        omega
      rw [if_pos hn, List.singleton_append, readVarint, hbyte, if_pos hn]
    · have hbyte : (UInt8.ofNat (n % 128 + 128)).toNat = n % 128 + 128 := by
        rw [UInt8.toNat_ofNat']
        omega
      have hrec := ih (n / 128) (by omega)
      rw [if_neg hn, List.cons_append, readVarint, hbyte, if_neg (by omega), hrec]
      simp only [Option.map_some, Option.some.injEq, Prod.mk.injEq, and_true]
      omega

/-- A packed list of numbers. -/
def pack (ns : List ℕ) : Bytes := ns.flatMap writeVarint

def unpack (bytes : Bytes) : Option (List ℕ) := readAll readVarint bytes.length bytes

theorem unpack_pack (ns : List ℕ) : unpack (pack ns) = some ns :=
  readAll_flatMap readVarint_writeVarint writeVarint_ne_nil ns _ (length_le_flatMap writeVarint_ne_nil ns)

/-! ### Fields -/

/-- What a field holds. -/
inductive Wire
  | varint (n : ℕ)
  | bytes (data : Bytes)
deriving DecidableEq

/-- A field number and what the field holds. -/
abbrev Field := ℕ × Wire

def writeField : Field → Bytes
  | (field, .varint n) => writeVarint (8 * field) ++ writeVarint n
  | (field, .bytes data) => writeVarint (8 * field + 2) ++ writeVarint data.length ++ data

def readField (bytes : Bytes) : Option (Field × Bytes) := do
  let (tag, rest) ← readVarint bytes
  if tag % 8 = 0 then
    let (n, rest) ← readVarint rest
    return ((tag / 8, .varint n), rest)
  else if tag % 8 = 2 then
    let (length, rest) ← readVarint rest
    if length ≤ rest.length then
      return ((tag / 8, .bytes (rest.take length)), rest.drop length)
    else none
  else none

theorem writeField_ne_nil (f : Field) : writeField f ≠ [] := by
  obtain ⟨field, n | data⟩ := f
  · exact List.append_ne_nil_of_left_ne_nil (writeVarint_ne_nil _) _
  · exact List.append_ne_nil_of_left_ne_nil (List.append_ne_nil_of_left_ne_nil (writeVarint_ne_nil _) _) _

theorem readField_writeField (f : Field) (rest : Bytes) : readField (writeField f ++ rest) = some (f, rest) := by
  obtain ⟨field, n | data⟩ := f
  · have hdiv : 8 * field / 8 = field := by omega
    simp [readField, writeField, readVarint_writeVarint, hdiv]
  · have hdiv : (8 * field + 2) / 8 = field := by omega
    simp [readField, writeField, readVarint_writeVarint, hdiv]

/-! ### Messages -/

def encode (fields : List Field) : Bytes := fields.flatMap writeField

def decode (bytes : Bytes) : Option (List Field) := readAll readField bytes.length bytes

/-- **A message that was encoded decodes to its fields.** -/
theorem decode_encode (fields : List Field) : decode (encode fields) = some fields :=
  readAll_flatMap readField_writeField writeField_ne_nil fields _
    (length_le_flatMap writeField_ne_nil fields)

theorem encode_append (fields more : List Field) : encode (fields ++ more) = encode fields ++ encode more :=
  List.flatMap_append

/-- The numbers of the fields with number `k`. -/
def numbers (k : ℕ) (fields : List Field) : List ℕ :=
  fields.filterMap fun
    | (field, .varint n) => if field = k then some n else none
    | (_, .bytes _) => none

/-- The last number of a field; zero where it is missing. -/
def number (k : ℕ) (fields : List Field) : ℕ := (numbers k fields).getLast?.getD 0

/-- The bytes of the fields with number `k`. -/
def messages (k : ℕ) (fields : List Field) : List Bytes :=
  fields.filterMap fun
    | (field, .bytes data) => if field = k then some data else none
    | (_, .varint _) => none

/-- A list of numbers, packed or not. -/
def numberList (k : ℕ) (fields : List Field) : Option (List ℕ) := do
  let parts ← (fields.filter fun f => f.1 = k).mapM fun
    | (_, .varint n) => some [n]
    | (_, .bytes data) => unpack data
  return parts.flatten

theorem messages_append (k : ℕ) (fields more : List Field) :
    messages k (fields ++ more) = messages k fields ++ messages k more := List.filterMap_append

theorem messages_nil (k : ℕ) : messages k [] = [] := rfl

theorem messages_cons_varint (k j n : ℕ) (fields : List Field) :
    messages k ((j, .varint n) :: fields) = messages k fields := List.filterMap_cons_none rfl

theorem messages_cons_bytes (k j : ℕ) (data : Bytes) (fields : List Field) :
    messages k ((j, .bytes data) :: fields) = (if j = k then [data] else []) ++ messages k fields := by
  by_cases h : j = k <;> simp [messages, h]

/-- Messages that were written under one number. -/
theorem messages_map {α : Type} (k j : ℕ) (write : α → Bytes) (as : List α) :
    messages k (as.map fun a => (j, .bytes (write a))) = if j = k then as.map write else [] := by
  induction as with
  | nil => exact (ite_self _).symm
  | cons a as ih =>
    rw [List.map_cons, messages_cons_bytes, ih]
    split <;> rfl

end Lib.Protobuf
