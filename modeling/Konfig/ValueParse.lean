import Konfig.Import
import Konfig.Lib.Decimal

/-!
# What a scalar keeps of its text

`value_parse.rs` reads the text of a ConfigMap value as an integer, a float, a boolean or a
string.  `readF64` is what the standard library's `f64` parser accepts, and whether the
number is finite; how a finite number is printed is left to `F64Printer`.

* `parseI64_iff`: the texts that are read as an integer.
* `scalarValue_faithful_iff`: the texts that a scalar gives back.
-/

namespace Konfig

open Lib

/-! ### Floating-point numbers -/

/-- An optional sign, and what follows it. -/
def takeSign : List Char → Bool × List Char
  | '+' :: cs => (false, cs)
  | '-' :: cs => (true, cs)
  | cs => (false, cs)

/-- An optional exponent: `e` or `E`, an optional sign and digits. -/
def readExponent : List Char → Option Int
  | [] => some 0
  | c :: cs =>
    if (c = 'e' ∨ c = 'E') ∧ (takeSign cs).2 ≠ [] ∧ (takeSign cs).2.all Char.isDigit then
      some (if (takeSign cs).1 then -(valueOf (takeSign cs).2 : Int) else valueOf (takeSign cs).2)
    else none

/-- The digits after a point, and what follows them. -/
def readFraction : List Char → List Char × List Char
  | '.' :: cs => (cs.takeWhile Char.isDigit, cs.dropWhile Char.isDigit)
  | cs => ([], cs)

/-- A decimal number without a sign: its digits as one number, and the power of ten they are
to be multiplied with. -/
def readDecimal (cs : List Char) : Option (Nat × Int) :=
  let whole := cs.takeWhile Char.isDigit
  let (fraction, rest) := readFraction (cs.dropWhile Char.isDigit)
  if whole = [] ∧ fraction = [] then none
  else (readExponent rest).map fun e => (valueOf (whole ++ fraction), e - fraction.length)

/-- The words for what is not a finite number. -/
def isSpecialWord (cs : List Char) : Bool :=
  String.ofList (cs.map Char.toLower) ∈ ["inf", "infinity", "nan"]

/-- The number `m * 10 ^ e` is rounded to infinity: it is not below the middle between the
largest finite `f64` and `2 ^ 1024`. -/
def OverflowsF64 (m : Nat) (e : Int) : Prop :=
  (2 ^ 54 - 1) * 2 ^ 970 * 10 ^ (-e).toNat ≤ m * 10 ^ e.toNat

instance (m : Nat) (e : Int) : Decidable (OverflowsF64 m e) :=
  inferInstanceAs (Decidable (_ ≤ _))

/-- An `f64` as it is read: what is not finite, or the number nearest to a decimal one. -/
inductive F64
  | notFinite
  | nearest (negative : Bool) (m : Nat) (e : Int)

/-- `str::parse::<f64>`. -/
def readF64 (s : String) : Option F64 :=
  let (negative, cs) := takeSign s.toList
  if isSpecialWord cs then some .notFinite
  else (readDecimal cs).map fun (m, e) =>
    if OverflowsF64 m e then .notFinite else .nearest negative m e

/-- How `serde_json` prints the `f64` nearest to a decimal number. -/
class F64Printer where
  print : (negative : Bool) → (m : Nat) → (e : Int) → String

/-- `json!` of an `f64`. -/
def F64.json [F64Printer] : F64 → Value
  | .notFinite => .null
  | .nearest negative m e => .number (.float (F64Printer.print negative m e))

instance stdFloats [F64Printer] : FloatText where
  parseF64 s := (readF64 s).map F64.json

/-! ### Integers -/

/-- The signs of an integer. -/
def IsSign (sign : List Char) : Prop := sign = [] ∨ sign = ['+'] ∨ sign = ['-']

/-- What a sign and digits denote. -/
def signedValue (sign ds : List Char) : Int := if sign = ['-'] then -(valueOf ds : Int) else valueOf ds

/-- It fits 64 bits. -/
def FitsI64 (n : Int) : Prop := -2 ^ 63 ≤ n ∧ n < 2 ^ 63

instance (n : Int) : Decidable (FitsI64 n) := inferInstanceAs (Decidable (_ ∧ _))

theorem parseDigits_eq (cs : List Char) : ∀ acc, parseDigits cs acc =
    if cs.all Char.isDigit then some (Nat.ofDigitChars 10 cs acc) else none := by
  induction cs with
  | nil => intro acc; simp [parseDigits]
  | cons c cs ih =>
    intro acc
    rw [parseDigits, ih, Nat.ofDigitChars_cons, Nat.mul_comm 10 acc]
    by_cases hc : c.isDigit = true
    · simp [hc]
    · simp [hc]

theorem parseDigits_of_digits {cs : List Char} (h : Digits cs) : parseDigits cs 0 = some (valueOf cs) := by
  rw [parseDigits_eq, if_pos (List.all_eq_true.mpr h.isDigit)]

theorem digits_of_parseDigits {cs : List Char} {n : Nat} (hne : cs ≠ []) (h : parseDigits cs 0 = some n) :
    Digits cs ∧ n = valueOf cs := by
  rw [parseDigits_eq] at h
  split at h
  · rename_i hall
    exact ⟨⟨hne, List.all_eq_true.mp hall⟩, (Option.some.inj h).symm⟩
  · cases h

theorem signedValue_minus (ds : List Char) : signedValue ['-'] ds = -(valueOf ds : Int) := if_pos rfl

theorem signedValue_of_ne {sign : List Char} (h : sign ≠ ['-']) (ds : List Char) :
    signedValue sign ds = valueOf ds := if_neg h

theorem fitsI64_natCast {n : Nat} : FitsI64 (n : Int) ↔ n < 2 ^ 63 := by
  unfold FitsI64
  omega

theorem fitsI64_neg {n : Nat} : FitsI64 (-(n : Int)) ↔ n ≤ 2 ^ 63 := by
  unfold FitsI64
  omega

/-- A number is kept if what it is made to fits. -/
theorem filter_map_fits {n : Nat} {p : Nat → Prop} [DecidablePred p] {f : Int → Int}
    (hbound : FitsI64 (f n) ↔ p n) :
    (((some n).filter fun n => p n).map fun n => f (n : Int)) = if FitsI64 (f n) then some (f n) else none := by
  rw [Option.filter_some]
  by_cases hfits : FitsI64 (f n)
  · rw [if_pos hfits, if_pos (decide_eq_true (hbound.mp hfits))]
    rfl
  · rw [if_neg hfits, if_neg (by simpa using mt hbound.mpr hfits)]
    rfl

/-- What is made of a sign and digits. -/
theorem parseI64_of_digits {s : String} {sign ds : List Char} (hs : s.toList = sign ++ ds)
    (hsign : IsSign sign) (hds : Digits ds) :
    parseI64 s = if FitsI64 (signedValue sign ds) then some (signedValue sign ds) else none := by
  have hplus := hds.head_ne '+' rfl
  have hminus := hds.head_ne '-' rfl
  obtain ⟨d, ds', hcons⟩ := List.exists_cons_of_ne_nil hds.ne_nil
  have hparse := parseDigits_of_digits hds
  rcases hsign with rfl | rfl | rfl
  · rw [signedValue_of_ne (by decide : ([] : List Char) ≠ _)]
    have hread : parseI64 s = ((parseDigits ds 0).filter (· < 2 ^ 63)).map fun n => (n : Int) := by
      unfold parseI64
      rw [hs, List.nil_append]
      split
      · exact absurd rfl hds.ne_nil
      · exact absurd rfl (hplus [])
      · exact absurd rfl (hminus [])
      · exact absurd rfl (hminus _)
      · exact absurd rfl (hplus _)
      · rfl
    rw [hread, hparse]
    exact filter_map_fits (f := id) fitsI64_natCast
  · rw [signedValue_of_ne (by decide : ['+'] ≠ ['-'])]
    have hread : parseI64 s = ((parseDigits ds 0).filter (· < 2 ^ 63)).map fun n => (n : Int) := by
      unfold parseI64
      rw [hs, hcons]
      rfl
    rw [hread, hparse]
    exact filter_map_fits (f := id) fitsI64_natCast
  · rw [signedValue_minus]
    have hread : parseI64 s = ((parseDigits ds 0).filter (· ≤ 2 ^ 63)).map fun n => -(n : Int) := by
      unfold parseI64
      rw [hs, hcons]
      rfl
    rw [hread, hparse]
    exact filter_map_fits (f := Neg.neg) fitsI64_neg

theorem digits_of_parseDigits_ne {cs : List Char} (hne : cs ≠ []) (h : parseDigits cs 0 ≠ none) :
    Digits cs := by
  obtain ⟨v, hv⟩ := Option.ne_none_iff_exists'.mp h
  exact (digits_of_parseDigits hne hv).1

/-- What is read as an integer has a sign and digits. -/
theorem digits_of_parseI64 {s : String} {n : Int} (h : parseI64 s = some n) :
    ∃ sign ds, s.toList = sign ++ ds ∧ IsSign sign ∧ Digits ds := by
  unfold parseI64 at h
  split at h
  · cases h
  · cases h
  · cases h
  · rename_i cs hne heq
    refine ⟨['-'], cs, heq, .inr (.inr rfl), digits_of_parseDigits_ne hne fun hp => ?_⟩
    rw [hp] at h
    cases h
  · rename_i cs hne heq
    refine ⟨['+'], cs, heq, .inr (.inl rfl), digits_of_parseDigits_ne hne fun hp => ?_⟩
    rw [hp] at h
    cases h
  · rename_i hne _ _ _ _
    refine ⟨[], s.toList, rfl, .inl rfl, digits_of_parseDigits_ne hne fun hp => ?_⟩
    rw [hp] at h
    cases h

/-- **The texts that are read as an integer.** -/
theorem parseI64_iff {s : String} {n : Int} : parseI64 s = some n ↔
    ∃ sign ds, s.toList = sign ++ ds ∧ IsSign sign ∧ Digits ds ∧ FitsI64 (signedValue sign ds) ∧
      n = signedValue sign ds := by
  constructor
  · intro h
    obtain ⟨sign, ds, hs, hsign, hds⟩ := digits_of_parseI64 h
    rw [parseI64_of_digits hs hsign hds] at h
    split at h
    · rename_i hfits
      exact ⟨sign, ds, hs, hsign, hds, hfits, (Option.some.inj h).symm⟩
    · cases h
  · rintro ⟨sign, ds, hs, hsign, hds, hfits, rfl⟩
    rw [parseI64_of_digits hs hsign hds, if_pos hfits]

/-! ### What is not finite -/

/-- The texts of numbers that no `f64` is near to: a word for them, or a number that is too
large, with an optional sign. -/
def NotFinite (s : String) : Prop :=
  isSpecialWord (takeSign s.toList).2 = true ∨
    ∃ m e, readDecimal (takeSign s.toList).2 = some (m, e) ∧ OverflowsF64 m e

theorem readF64_notFinite_iff {s : String} : readF64 s = some .notFinite ↔ NotFinite s := by
  unfold readF64 NotFinite
  by_cases hword : isSpecialWord (takeSign s.toList).2 = true
  · simp [hword]
  · simp only [hword, Bool.false_eq_true, if_false, false_or, Option.map_eq_some_iff, Prod.exists]
    refine exists_congr fun m => exists_congr fun e => and_congr_right fun _ => ?_
    by_cases hover : OverflowsF64 m e
    · simp [hover]
    · simp [hover]

theorem takeSign_digits {sign ds : List Char} (hsign : IsSign sign) (hds : Digits ds) :
    (takeSign (sign ++ ds)).2 = ds := by
  rcases hsign with rfl | rfl | rfl
  · rw [List.nil_append]
    unfold takeSign
    split
    · exact absurd rfl (hds.head_ne _ rfl _)
    · exact absurd rfl (hds.head_ne _ rfl _)
    · rfl
  · rfl
  · rfl

theorem toLower_of_isDigit {c : Char} (h : c.isDigit = true) : c.toLower = c := by
  rw [← (digitChar_of_isDigit h).2]
  have hlt := (digitChar_of_isDigit h).1
  generalize c.toNat - '0'.toNat = d at hlt ⊢
  interval_cases d <;> rfl

theorem isSpecialWord_digits {ds : List Char} (h : Digits ds) : isSpecialWord ds = false := by
  have hlower : ds.map Char.toLower = ds :=
    (List.map_congr_left fun c hc => toLower_of_isDigit (h.isDigit c hc)).trans (List.map_id ds)
  have hne : ∀ w : String, (∃ c ∈ w.toList, c.isDigit = false) → String.ofList ds ≠ w := by
    rintro w ⟨c, hc, hdigit⟩ rfl
    rw [String.toList_ofList] at hc
    rw [h.isDigit c hc] at hdigit
    cases hdigit
  rw [isSpecialWord, hlower, decide_eq_false_iff_not]
  simp only [List.mem_cons, List.not_mem_nil, or_false, not_or]
  exact ⟨hne _ ⟨'i', by decide, rfl⟩, hne _ ⟨'i', by decide, rfl⟩, hne _ ⟨'n', by decide, rfl⟩⟩

theorem readDecimal_digits {ds : List Char} (h : Digits ds) : readDecimal ds = some (valueOf ds, 0) := by
  have htake : ds.takeWhile Char.isDigit = ds := List.takeWhile_eq_self_iff.mpr h.isDigit
  have hdrop : ds.dropWhile Char.isDigit = [] := List.dropWhile_eq_nil_iff.mpr h.isDigit
  rw [readDecimal, htake, hdrop]
  simp [readFraction, readExponent, h.ne_nil]

theorem not_overflowsF64 {m : Nat} (h : m ≤ 2 ^ 63) : ¬ OverflowsF64 m 0 := by
  intro hover
  have hbig : 2 ^ 63 * 10 ^ (0 : Int).toNat < (2 ^ 54 - 1) * 2 ^ 970 * 10 ^ (-(0 : Int)).toNat := by
    decide +kernel
  exact absurd (hbig.trans_le (hover.trans (Nat.mul_le_mul_right _ h))) (lt_irrefl _)

/-- An integer of 64 bits is finite. -/
theorem not_notFinite_of_parseI64 {s : String} {n : Int} (h : parseI64 s = some n) : ¬ NotFinite s := by
  obtain ⟨sign, ds, hs, hsign, hds, hfits, rfl⟩ := parseI64_iff.mp h
  have hle : valueOf ds ≤ 2 ^ 63 := by
    by_cases hminus : sign = ['-']
    · rw [hminus, signedValue_minus] at hfits
      exact fitsI64_neg.mp hfits
    · rw [signedValue_of_ne hminus] at hfits
      exact (fitsI64_natCast.mp hfits).le
  rw [NotFinite, hs, takeSign_digits hsign hds, isSpecialWord_digits hds, readDecimal_digits hds]
  rintro (hword | ⟨m, e, heq, hover⟩)
  · cases hword
  · cases heq
    exact not_overflowsF64 hle hover

/-! ### What is spelled otherwise -/

/-- The texts of integers of 64 bits that are not printed that way: with a `+`, with a zero in
front, or minus zero. -/
def SpelledOtherwise (s : String) : Prop :=
  ∃ sign ds, s.toList = sign ++ ds ∧ IsSign sign ∧ Digits ds ∧ FitsI64 (signedValue sign ds) ∧
    (sign = ['+'] ∨ ds.head? = some '0' ∧ (ds ≠ ['0'] ∨ sign = ['-']))

theorem toList_toString_nat (n : Nat) : (toString n).toList = Nat.toDigits 10 n := by
  rw [Nat.toString_eq_repr, Nat.toList_repr]

theorem toList_toString_neg {n : Nat} (h : 0 < n) :
    (toString (-(n : Int))).toList = '-' :: Nat.toDigits 10 n := by
  obtain ⟨m, rfl⟩ := Nat.exists_eq_succ_of_ne_zero h.ne'
  have hneg : toString (-((m + 1 : Nat) : Int)) = "-" ++ toString (m + 1) := rfl
  rw [hneg, String.toList_append, toList_toString_nat]
  rfl

/-- An integer is printed the way it is spelled. -/
theorem toString_signedValue_iff {sign ds : List Char} (hsign : IsSign sign) (hds : Digits ds) :
    (toString (signedValue sign ds)).toList = sign ++ ds ↔
      ¬ (sign = ['+'] ∨ ds.head? = some '0' ∧ (ds ≠ ['0'] ∨ sign = ['-'])) := by
  have hcanonical := toDigits_valueOf_iff hds
  have hprinted := (digits_toDigits (valueOf ds)).head_ne '+' rfl
  rcases hsign with rfl | rfl | rfl
  · rw [signedValue_of_ne (by decide : ([] : List Char) ≠ ['-']), List.nil_append]
    show (toString (valueOf ds)).toList = ds ↔ _
    rw [toList_toString_nat, hcanonical]
    simp only [reduceCtorEq, or_false, false_or, not_and_or, not_not]
  · rw [signedValue_of_ne (by decide : ['+'] ≠ ['-'])]
    show (toString (valueOf ds)).toList = '+' :: ds ↔ _
    rw [toList_toString_nat]
    exact ⟨fun h => absurd h (hprinted ds), fun h => absurd (.inl rfl) h⟩
  · rw [signedValue_minus]
    by_cases hzero : valueOf ds = 0
    · have hhead : ds.head? = some '0' := by
        by_contra hne
        exact absurd (toDigits_valueOf hds hne).1 (by omega)
      rw [hzero]
      refine ⟨fun h => ?_, fun h => absurd (.inr ⟨hhead, .inr rfl⟩) h⟩
      have hhd := congrArg List.head? h
      simp at hhd
      cases hhd
    · rw [toList_toString_neg (Nat.pos_of_ne_zero hzero)]
      show '-' :: _ = '-' :: ds ↔ _
      rw [List.cons.injEq, hcanonical]
      simp only [true_and, List.cons.injEq, and_true, or_true, Char.reduceEq, false_or]
      refine ⟨fun h hhead => ?_, fun h => .inl h⟩
      rcases h with h | rfl
      · exact h hhead
      · exact hzero rfl

/-! ### What a scalar gives back -/

/-- The text of a scalar; a float has none here. -/
def Value.scalarText : Value → Option String
  | .string s => some s
  | .number (.posInt n) => some (renderNumber (.posInt n))
  | .number (.negInt n) => some (renderNumber (.negInt n))
  | .bool b => some (if b then "true" else "false")
  | .number (.float _) | .null | .array _ | .object _ => none

theorem scalarText_ofI64 {n : Int} (h : FitsI64 n) : (Value.ofI64 n).scalarText = some (toString n) := by
  unfold Value.ofI64
  by_cases hneg : n < 0
  · rw [if_pos hneg]
    rfl
  · rw [if_neg hneg]
    obtain ⟨m, rfl⟩ := Int.eq_ofNat_of_zero_le (Int.not_lt.mp hneg)
    have hlt := fitsI64_natCast.mp h
    have hval : (UInt64.ofNat m).toNat = m := by
      rw [UInt64.toNat_ofNat']
      omega
    simp only [Value.scalarText, Value.renderNumber, Int.toNat_natCast, hval]
    rfl

/-- A value keeps its text: it is not null, and where it is a string, an integer or a boolean it
is printed as the text. -/
structure Faithful (s : String) (v : Value) : Prop where
  not_null : v ≠ .null
  text : ∀ t, v.scalarText = some t → t = s

section

variable [F64Printer]

theorem scalarValue_of_i64 {s : String} {n : Int} (h : parseI64 s = some n) :
    scalarValue s = Value.ofI64 n := by
  simp [scalarValue, h]

theorem scalarValue_of_f64 {s : String} {f : F64} (h : parseI64 s = none) (hf : readF64 s = some f) :
    scalarValue s = f.json := by
  simp [scalarValue, h, FloatText.parseF64, hf]

theorem faithful_of_no_number {s : String} (h : parseI64 s = none) (hf : readF64 s = none) :
    Faithful s (scalarValue s) := by
  have hvalue : scalarValue s = ((parseBool s).map Value.bool).getD (.string s) := by
    simp [scalarValue, h, FloatText.parseF64, hf]
  rw [hvalue]
  unfold parseBool
  split
  · exact ⟨nofun, fun t ht => (Option.some.inj ht).symm⟩
  · exact ⟨nofun, fun t ht => (Option.some.inj ht).symm⟩
  · exact ⟨nofun, fun t ht => (Option.some.inj ht).symm⟩

theorem faithful_i64_iff {s : String} {n : Int} (h : parseI64 s = some n) :
    Faithful s (scalarValue s) ↔ ¬ SpelledOtherwise s := by
  rw [scalarValue_of_i64 h]
  constructor
  · rintro hkept ⟨sign, ds, hs, hsign, hds, hfits, hother⟩
    rw [parseI64_of_digits hs hsign hds, if_pos hfits] at h
    cases h
    have htext := hkept.text _ (scalarText_ofI64 hfits)
    exact (toString_signedValue_iff hsign hds).mp (by rw [htext, hs]) hother
  · intro hnot
    obtain ⟨sign, ds, hs, hsign, hds, hfits, rfl⟩ := parseI64_iff.mp h
    refine ⟨?_, fun t ht => ?_⟩
    · unfold Value.ofI64
      split <;> nofun
    · rw [scalarText_ofI64 hfits] at ht
      cases ht
      refine String.toList_inj.mp ?_
      rw [hs, toString_signedValue_iff hsign hds]
      exact fun hother => hnot ⟨sign, ds, hs, hsign, hds, hfits, hother⟩

/-- **The texts that a scalar gives back**: all but the integers that are spelled otherwise and
the numbers that are not finite. -/
theorem scalarValue_faithful_iff (s : String) :
    Faithful s (scalarValue s) ↔ ¬ SpelledOtherwise s ∧ ¬ NotFinite s := by
  cases h : parseI64 s with
  | some n =>
    rw [faithful_i64_iff h]
    exact ⟨fun hnot => ⟨hnot, not_notFinite_of_parseI64 h⟩, And.left⟩
  | none =>
    have hnot : ¬ SpelledOtherwise s := by
      rintro ⟨sign, ds, hs, hsign, hds, hfits, -⟩
      rw [parseI64_iff.mpr ⟨sign, ds, hs, hsign, hds, hfits, rfl⟩] at h
      cases h
    rw [← readF64_notFinite_iff]
    cases hf : readF64 s with
    | none =>
      have hkept := faithful_of_no_number h hf
      exact ⟨fun _ => ⟨hnot, nofun⟩, fun _ => hkept⟩
    | some f =>
      rw [scalarValue_of_f64 h hf]
      cases f with
      | notFinite => exact ⟨fun hkept => absurd rfl hkept.not_null, fun hand => absurd rfl hand.2⟩
      | nearest negative m e => exact ⟨fun _ => ⟨hnot, nofun⟩, fun _ => ⟨nofun, nofun⟩⟩

end

/-- A code with zeros in front loses them. -/
theorem scalarValue_alters : ¬ ∀ (_ : F64Printer) (s : String), Faithful s (scalarValue s) := by
  intro h
  have hkept := (h ⟨fun _ _ _ => "0.0"⟩ "007").text "7" (by decide)
  exact absurd hkept (by decide)

end Konfig
