import Konfig.Flamediff.Forest
import Konfig.Lib.Base64
import Konfig.Lib.Protobuf

/-!
# Writing pprof

The call tree of a flamebearer as a pprof profile, in hand-written protobuf.  One function
and one location for each name, one sample for each bar with self time; the stack of a sample
is walked from the bar to its root.

* `Interner`: the string table, with what its index says of it.
* `Tables.addName`: the function and the location of a name.
* `Flamebearer.toPprof`: the bytes.
-/

namespace Konfig.Flamediff

open Lib Lib.Protobuf

/-! ### Wire encoders -/

def varint (n : ℕ) : Bytes :=
  let b := n &&& 0x7f
  let n := n >>> 7
  if n ≠ 0 then UInt8.ofNat (b ||| 0x80) :: varint n else [UInt8.ofNat b]
termination_by n
decreasing_by
  simp only [Nat.shiftRight_eq_div_pow] at *
  omega

def tag (field wire : ℕ) : Bytes := varint (field <<< 3 ||| wire)

def vfield (field val : ℕ) : Bytes := tag field 0 ++ varint val

def lfield (field : ℕ) (data : Bytes) : Bytes := tag field 2 ++ varint data.length ++ data

def packed (field : ℕ) (vals : List ℕ) : Bytes := lfield field (vals.flatMap varint)

theorem varint_eq (n : ℕ) : varint n = writeVarint n := by
  induction n using Nat.strongRecOn with
  | ind n ih =>
    have hlow : n &&& 0x7f = n % 128 := Nat.and_two_pow_sub_one_eq_mod n 7
    have hshift : n >>> 7 = n / 128 := Nat.shiftRight_eq_div_pow n 7
    have hor : n % 128 ||| 0x80 = n % 128 + 128 := by
      have hlt : n % 128 < 2 ^ 7 := Nat.mod_lt n (by decide)
      rw [Nat.or_comm, Nat.add_comm]
      exact (Nat.two_pow_add_eq_or_of_lt hlt 1).symm
    rw [varint, writeVarint]
    simp only [hlow, hshift, hor]
    by_cases hn : n < 128
    · rw [if_neg (by omega), if_pos hn, Nat.mod_eq_of_lt hn]
    · rw [if_pos (by omega), if_neg hn, ih (n / 128) (by omega)]

theorem tag_eq {wire : ℕ} (h : wire < 8) (field : ℕ) : tag field wire = writeVarint (8 * field + wire) := by
  rw [tag, varint_eq, ← Nat.shiftLeft_add_eq_or_of_lt h, Nat.shiftLeft_eq, Nat.mul_comm]

theorem vfield_eq (field val : ℕ) : vfield field val = writeField (field, .varint val) := by
  rw [vfield, tag_eq (by decide), varint_eq, writeField, Nat.add_zero]

theorem lfield_eq (field : ℕ) (data : Bytes) : lfield field data = writeField (field, .bytes data) := by
  rw [lfield, tag_eq (by decide), varint_eq, writeField]

theorem packed_eq (field : ℕ) (vals : List ℕ) : packed field vals = writeField (field, .bytes (pack vals)) := by
  rw [packed, lfield_eq, pack, funext varint_eq]

/-! ### The string table -/

/-- Append-only string table; the index of a text is where the table has it. -/
structure Interner where
  strings : List String
  idx : String → Option ℕ
  idx_iff : ∀ s i, idx s = some i ↔ strings[i]? = some s

namespace Interner

/-- Index 0 is the empty string. -/
def new : Interner where
  strings := [""]
  idx s := if s = "" then some 0 else none
  idx_iff s i := by
    rcases i with _ | i
    · by_cases h : s = "" <;> simp [h, eq_comm]
    · by_cases h : s = "" <;> simp [h]

def push (t : Interner) (s : String) (h : t.idx s = none) : Interner where
  strings := t.strings ++ [s]
  idx u := if u = s then some t.strings.length else t.idx u
  idx_iff u i := by
    rcases lt_trichotomy i t.strings.length with hi | rfl | hi
    · rw [List.getElem?_append_left hi, ← t.idx_iff]
      by_cases hu : u = s
      · rw [if_pos hu, hu, h, Option.some.injEq]
        exact ⟨fun heq => absurd hi (by omega), nofun⟩
      · rw [if_neg hu]
    · have hnone : ∀ u, t.idx u ≠ some t.strings.length := fun u hu => by
        simpa using (t.idx_iff u _).mp hu
      by_cases hu : u = s
      · simp [hu]
      · simp [hu, hnone u, Ne.symm hu]
    · have hbeyond : t.strings[i]? = none := List.getElem?_eq_none hi.le
      have hne : t.idx u ≠ some i := fun hu => by
        rw [t.idx_iff, hbeyond] at hu
        cases hu
      have hlen : (t.strings ++ [s]).length ≤ i := by
        rw [List.length_append, List.length_singleton]
        exact hi
      rw [List.getElem?_eq_none hlen]
      split
      · simpa using hi.ne
      · simpa using hne

/-- The index of a text, which is added to the table where it is new. -/
def get (t : Interner) (s : String) : ℕ × Interner :=
  match h : t.idx s with
  | some i => (i, t)
  | none => (t.strings.length, t.push s h)

/-- A later state of the table. -/
def Extends (t u : Interner) : Prop := ∀ s i, t.idx s = some i → u.idx s = some i

theorem Extends.trans {t u v : Interner} (h : t.Extends u) (h' : u.Extends v) : t.Extends v :=
  fun s i hi => h' s i (h s i hi)

theorem get_spec (t : Interner) (s : String) :
    t.Extends (t.get s).2 ∧ (t.get s).2.idx s = some (t.get s).1 := by
  unfold get
  split
  · next i h => exact ⟨fun _ _ hi => hi, h⟩
  · next h =>
    refine ⟨fun u i hu => ?_, if_pos rfl⟩
    have hne : u ≠ s := by
      rintro rfl
      rw [h] at hu
      cases hu
    exact (if_neg hne).trans hu

theorem extends_get (t : Interner) (s : String) : t.Extends (t.get s).2 := (t.get_spec s).1

end Interner

/-! ### Functions and locations -/

/-- What the loop over the names builds. -/
structure Tables where
  strings : Interner
  nameLoc : List (String × ℕ)
  functions : Bytes
  locations : Bytes

def Tables.new : Tables := { strings := .new, nameLoc := [], functions := [], locations := [] }

/-- The location id of a name. -/
def Tables.locationId (t : Tables) (name : String) : Option ℕ :=
  (t.nameLoc.find? fun e => e.1 = name).map Prod.snd

/-- One function and one location for a name that has none yet. -/
def Tables.addName (t : Tables) (name : String) : Tables :=
  if (t.locationId name).isSome then t
  else
    let fid := t.nameLoc.length + 1
    let lid := fid
    let (nameIdx, strings) := t.strings.get name
    let func := vfield 1 fid ++ vfield 2 nameIdx ++ vfield 4 nameIdx
    let line := vfield 1 fid
    let loc := vfield 1 lid ++ lfield 4 line
    { strings
      nameLoc := t.nameLoc ++ [(name, lid)]
      functions := t.functions ++ lfield 5 func
      locations := t.locations ++ lfield 4 loc }

/-- The tables for the names of the bars; nothing where a bar has no name (the code panics). -/
def Flamebearer.addBars (fb : Flamebearer) (t : Tables) (bars : List Bar) : Option Tables :=
  bars.foldlM (fun t bar => fb.names[bar.nameIdx]?.map t.addName) t

/-! ### Samples -/

/-- The location ids from a bar up to its root; `above` are the levels above, nearest first.
Nothing where an index is out of range (the code panics). -/
def stackOf (loc : ℕ → Option ℕ) : List (List Bar) → Bar → Option (List ℕ)
  | above, bar => do
    let lid ← loc bar.nameIdx
    match bar.parent, above with
    | none, _ => some [lid]
    | some _, [] => none
    | some pi, bars :: above => do
      let parent ← bars[pi]?
      let stack ← stackOf loc above parent
      return lid :: stack

/-- One sample for each bar of a level that burned self CPU. -/
def sampleBars (loc : ℕ → Option ℕ) (scale : ℤ) (above : List (List Bar)) : List Bar → Option Bytes
  | [] => some []
  | bar :: bars => do
    let sample ←
      if bar.self_ ≤ 0 then some []
      else do
        let stack ← stackOf loc above bar
        pure (lfield 2 (packed 1 stack ++ packed 2 [asUnsigned (bar.self_ * scale)]))
    let samples ← sampleBars loc scale above bars
    return sample ++ samples

/-- The samples of all levels, from the top down. -/
def sampleLevels (loc : ℕ → Option ℕ) (scale : ℤ) : List (List Bar) → List (List Bar) → Option Bytes
  | _, [] => some []
  | above, bars :: perDepth => do
    let samples ← sampleBars loc scale above bars
    let rest ← sampleLevels loc scale (bars :: above) perDepth
    return samples ++ rest

/-! ### The profile -/

/-- Type, unit and scale of the values, and the period. -/
structure SampleType where
  type : String
  unit : String
  scale : ℤ
  period : ℕ

/-- CPU time or a count of samples; `ns` is the nanoseconds of one sample at a rate,
`1e9 / rate` rounded. -/
def Flamebearer.sampleType (fb : Flamebearer) (ns : ℤ → ℤ) : SampleType :=
  if fb.units = "samples" ∧ 0 < fb.sampleRate then
    { type := "cpu", unit := "nanoseconds", scale := ns fb.sampleRate, period := asUnsigned (ns fb.sampleRate) }
  else { type := "samples", unit := "count", scale := 1, period := 1 }

def Flamebearer.toPprof (fb : Flamebearer) (ns : ℤ → ℤ) : Option Bytes := do
  let perDepth := fb.decodeLevels
  let st := fb.sampleType ns
  let t ← fb.addBars .new perDepth.flatten
  let loc := fun nameIdx => do t.locationId (← fb.names[nameIdx]?)
  let samples ← sampleLevels loc st.scale [] perDepth
  let (type, strings) := t.strings.get st.type
  let (unit, strings) := strings.get st.unit
  let body := lfield 1 (vfield 1 type ++ vfield 2 unit) ++ samples ++ t.functions ++ t.locations
  let (type, strings) := strings.get st.type
  let (unit, strings) := strings.get st.unit
  let body := body ++ lfield 11 (vfield 1 type ++ vfield 2 unit) ++ vfield 12 st.period
  return body ++ strings.strings.flatMap fun s => lfield 6 (utf8 s)

end Konfig.Flamediff
