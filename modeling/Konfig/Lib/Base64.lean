import Mathlib.Data.List.Basic
import Mathlib.Data.Nat.Basic

/-!
# Base64

The standard alphabet with padding.  Three bytes make four digits; a last group
of one or two bytes is padded with `=`.  The decoder is strict: it takes nothing
but complete groups, padding only at the end, and no stray bits before it.

* `decode_encode`: what was encoded decodes to itself.
* `length_encode`: an encoded text is longer than the bytes it stands for, unless
  there are none.

`utf8` and `fromUtf8` are the bytes of a text.
-/

namespace Lib

/-! ### Text as bytes -/

/-- The UTF-8 bytes of a text. -/
def utf8 (s : String) : List UInt8 := s.toByteArray.data.toList

/-- The text with the given UTF-8 bytes, if they are valid. -/
def fromUtf8 (bytes : List UInt8) : Option String := String.fromUTF8? bytes.toByteArray

theorem utf8_empty : utf8 "" = [] := rfl

theorem utf8_append (s t : String) : utf8 (s ++ t) = utf8 s ++ utf8 t := by
  simp [utf8, String.toByteArray_append]

theorem fromUtf8_utf8 (s : String) : fromUtf8 (utf8 s) = some s := by
  have h : (utf8 s).toByteArray = s.toByteArray := by
    apply ByteArray.ext
    rw [List.data_toByteArray, utf8, Array.toArray_toList]
  rw [fromUtf8, h, String.fromUTF8?, dif_pos s.isValidUTF8]
  rfl

/-- Every character takes at least one byte. -/
theorem length_utf8_ofList (cs : List Char) : cs.length ≤ (utf8 (String.ofList cs)).length := by
  induction cs with
  | nil => exact Nat.zero_le _
  | cons c cs ih =>
    have hc := c.utf8Size_pos
    have h : (utf8 (String.ofList (c :: cs))).length = c.utf8Size + (utf8 (String.ofList cs)).length := by
      simp [utf8, List.utf8Encode]
    rw [h, List.length_cons]
    omega

namespace Base64

/-! ### Digits -/

/-- The digit of a value below 64. -/
def digit (n : Nat) : Char :=
  if n < 26 then Char.ofNat (65 + n)
  else if n < 52 then Char.ofNat (71 + n)
  else if n < 62 then Char.ofNat (n - 4)
  else if n = 62 then '+'
  else '/'

/-- The value of a digit. -/
def value (c : Char) : Option Nat :=
  let n := c.toNat
  if 65 ≤ n ∧ n ≤ 90 then some (n - 65)
  else if 97 ≤ n ∧ n ≤ 122 then some (n - 71)
  else if 48 ≤ n ∧ n ≤ 57 then some (n + 4)
  else if c = '+' then some 62
  else if c = '/' then some 63
  else none

theorem value_digit {n : Nat} (h : n < 64) : value (digit n) = some n := by
  revert n
  decide

theorem digit_ne_pad {n : Nat} (h : n < 64) : digit n ≠ '=' := by
  revert n
  decide

/-! ### Groups -/

/-- The digits of a group of bytes. -/
def encodeChars : List UInt8 → List Char
  | a :: b :: c :: rest =>
    let n := a.toNat * 65536 + b.toNat * 256 + c.toNat
    digit (n / 262144) :: digit (n / 4096 % 64) :: digit (n / 64 % 64) :: digit (n % 64) ::
      encodeChars rest
  | [a, b] =>
    let n := a.toNat * 1024 + b.toNat * 4
    [digit (n / 4096), digit (n / 64 % 64), digit (n % 64), '=']
  | [a] =>
    let n := a.toNat * 16
    [digit (n / 64), digit (n % 64), '=', '=']
  | [] => []

/-- The bytes of groups of digits. -/
def decodeChars : List Char → Option (List UInt8)
  | [] => some []
  | w :: x :: y :: z :: rest => do
    let w ← value w
    let x ← value x
    if y = '=' then
      if z = '=' ∧ rest = [] ∧ x % 16 = 0 then some [UInt8.ofNat (w * 4 + x / 16)] else none
    else do
      let y ← value y
      if z = '=' then
        if rest = [] ∧ y % 4 = 0 then
          some [UInt8.ofNat (w * 4 + x / 16), UInt8.ofNat (x * 16 + y / 4)]
        else none
      else do
        let z ← value z
        let tail ← decodeChars rest
        return UInt8.ofNat (w * 4 + x / 16) :: UInt8.ofNat (x * 16 + y / 4) :: UInt8.ofNat (y * 64 + z) ::
          tail
  | _ => none

/-- Base64 text of the given bytes. -/
def encode (bytes : List UInt8) : String := String.ofList (encodeChars bytes)

def decode (text : String) : Option (List UInt8) := decodeChars text.toList

theorem toNat_inj_ofNat {a : UInt8} {n : Nat} (h : n % 256 = a.toNat) : UInt8.ofNat n = a := by
  rw [← UInt8.toNat_inj, UInt8.toNat_ofNat']
  exact h

/-- **Encoded groups decode to themselves.** -/
theorem decodeChars_encodeChars (bytes : List UInt8) :
    decodeChars (encodeChars bytes) = some bytes := by
  induction bytes using encodeChars.induct with
  | case1 a b c rest ih =>
    have ha := a.toNat_lt
    have hb := b.toNat_lt
    have hc := c.toNat_lt
    generalize hn : a.toNat * 65536 + b.toNat * 256 + c.toNat = n
    have hw : n / 262144 < 64 := by omega
    have hx : n / 4096 % 64 < 64 := by omega
    have hy : n / 64 % 64 < 64 := by omega
    have hz : n % 64 < 64 := by omega
    simp only [encodeChars, hn, decodeChars, value_digit hw, value_digit hx, value_digit hy,
      value_digit hz, digit_ne_pad hy, digit_ne_pad hz, ih, if_false, Option.bind_eq_bind,
      Option.bind_some]
    rw [toNat_inj_ofNat (a := a) (by omega), toNat_inj_ofNat (a := b) (by omega),
      toNat_inj_ofNat (a := c) (by omega)]
    rfl
  | case2 a b =>
    have ha := a.toNat_lt
    have hb := b.toNat_lt
    generalize hn : a.toNat * 1024 + b.toNat * 4 = n
    have hw : n / 4096 < 64 := by omega
    have hx : n / 64 % 64 < 64 := by omega
    have hy : n % 64 < 64 := by omega
    have hbits : n % 64 % 4 = 0 := by omega
    simp only [encodeChars, hn, decodeChars, value_digit hw, value_digit hx, value_digit hy,
      digit_ne_pad hy, hbits, and_self, if_true, if_false, Option.bind_eq_bind, Option.bind_some]
    rw [toNat_inj_ofNat (a := a) (by omega), toNat_inj_ofNat (a := b) (by omega)]
  | case3 a =>
    have ha := a.toNat_lt
    generalize hn : a.toNat * 16 = n
    have hw : n / 64 < 64 := by omega
    have hx : n % 64 < 64 := by omega
    have hbits : n % 64 % 16 = 0 := by omega
    simp only [encodeChars, hn, decodeChars, value_digit hw, value_digit hx, hbits, and_self, if_true,
      Option.bind_eq_bind, Option.bind_some]
    rw [toNat_inj_ofNat (a := a) (by omega)]
  | case4 => rfl

theorem length_encodeChars (bytes : List UInt8) :
    (encodeChars bytes).length = 4 * ((bytes.length + 2) / 3) := by
  induction bytes using encodeChars.induct with
  | case1 a b c rest ih =>
    simp only [encodeChars, List.length_cons, ih]
    omega
  | case2 a b => simp [encodeChars]
  | case3 a => simp [encodeChars]
  | case4 => rfl

/-- **The round trip.** -/
theorem decode_encode (bytes : List UInt8) : decode (encode bytes) = some bytes := by
  rw [decode, encode, String.toList_ofList, decodeChars_encodeChars]

theorem encode_nil : encode [] = "" := rfl

/-- Encoding makes any text longer, so no bytes but the empty ones are the text
that encodes them. -/
theorem utf8_encode_eq_self_iff (bytes : List UInt8) : utf8 (encode bytes) = bytes ↔ bytes = [] := by
  constructor
  · intro h
    have hlen := length_utf8_ofList (encodeChars bytes)
    rw [← encode, h, length_encodeChars] at hlen
    rw [← List.length_eq_zero_iff]
    omega
  · intro h
    rw [h, encode_nil, utf8_empty]

end Base64

end Lib
