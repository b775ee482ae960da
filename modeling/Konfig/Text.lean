import Mathlib.Algebra.Ring.Nat
import Mathlib.Data.List.Basic
import Mathlib.Data.List.DropRight
import Mathlib.Data.List.TakeWhile

/-!
# Strings

The operations of Rust's `str` that konfig calls on names, versions, verbs,
patterns and label selectors.
-/

namespace Konfig

/-! ### Trimming and case -/

/-- `char::is_whitespace`: the Unicode property `White_Space`. -/
def isWhitespace (c : Char) : Bool :=
  let n := c.toNat
  (0x09 ≤ n && n ≤ 0x0D) || n = 0x20 || n = 0x85 || n = 0xA0 || n = 0x1680 ||
    (0x2000 ≤ n && n ≤ 0x200A) || n = 0x2028 || n = 0x2029 || n = 0x202F || n = 0x205F || n = 0x3000

/-- `str::trim`. -/
def trim (s : String) : String :=
  String.ofList ((s.toList.dropWhile isWhitespace).reverse.dropWhile isWhitespace).reverse

/-- `str::to_ascii_lowercase`. -/
def toAsciiLowercase (s : String) : String := String.ofList (s.toList.map Char.toLower)

/-- `str::split_once` with a character. -/
def splitOnce (s : String) (sep : Char) : Option (String × String) :=
  if sep ∈ s.toList then
    some (String.ofList (s.toList.takeWhile (· != sep)),
      String.ofList ((s.toList.dropWhile (· != sep)).drop 1))
  else none

/-- The text before the first separator and the text after it. -/
theorem splitOnce_eq_some {s : String} {sep : Char} {a b : String} :
    splitOnce s sep = some (a, b) ↔ s.toList = a.toList ++ sep :: b.toList ∧ sep ∉ a.toList := by
  unfold splitOnce
  constructor
  · intro h
    split at h
    · rename_i hmem
      rw [Option.some.injEq, Prod.mk.injEq] at h
      obtain ⟨rfl, rfl⟩ := h
      rw [String.toList_ofList, String.toList_ofList]
      have hne : s.toList.dropWhile (· != sep) ≠ [] := by
        intro he
        have hall := List.dropWhile_eq_nil_iff.mp he sep hmem
        simp at hall
      have hhead : (s.toList.dropWhile (· != sep)).head hne = sep := by
        have := List.head_dropWhile_not (· != sep) hne
        simpa using this
      constructor
      · conv_lhs => rw [← List.takeWhile_append_dropWhile (p := (· != sep)) (l := s.toList)]
        rw [← List.cons_head_tail hne, hhead, List.drop_one, List.tail_cons]
      · intro hin
        have := List.mem_takeWhile_imp hin
        simp at this
    · cases h
  · rintro ⟨hs, ha⟩
    have hbefore : ∀ c ∈ a.toList, (c != sep) = true := by
      intro c hc
      rw [bne_iff_ne]
      rintro rfl
      exact ha hc
    rw [hs, if_pos (by simp), List.takeWhile_append_of_pos hbefore, List.dropWhile_append_of_pos hbefore]
    simp

/-! ### Searching

A position counts the characters before it. -/

/-- `str::find` with a character. -/
def find (s : String) (c : Char) : Option Nat := s.toList.idxOf? c

/-- `str::rfind` with a character. -/
def rfind (s : String) (c : Char) : Option Nat :=
  (s.toList.reverse.idxOf? c).map fun n => s.toList.length - 1 - n

/-- `&s[start..stop]`. -/
def slice (s : String) (start stop : Nat) : String :=
  String.ofList ((s.toList.take stop).drop start)

/-- What stands before the first occurrence of a pattern and what stands after it. -/
def cutAt (pat : List Char) : List Char → Option (List Char × List Char)
  | [] => if pat = [] then some ([], []) else none
  | c :: cs =>
    if pat <+: c :: cs then some ([], (c :: cs).drop pat.length)
    else (cutAt pat cs).map fun (a, b) => (c :: a, b)

/-- `str::split_once` with a string. -/
def splitOnceStr (s pat : String) : Option (String × String) :=
  (cutAt pat.toList s.toList).map fun (a, b) => (String.ofList a, String.ofList b)

/-- `str::rsplit_once` with `char::is_whitespace`. -/
def rsplitOnceWhitespace (s : String) : Option (String × String) :=
  if s.toList.any isWhitespace then
    some (String.ofList (s.toList.rdropWhile fun c => !isWhitespace c).dropLast,
      String.ofList (s.toList.rtakeWhile fun c => !isWhitespace c))
  else none

/-- `str::strip_prefix` with a character. -/
def stripPrefix (s : String) (c : Char) : Option String :=
  match s.toList with
  | [] => none
  | d :: cs => if d = c then some (String.ofList cs) else none

/-- `str::split` with a character. -/
def split (s : String) (sep : Char) : List String := (s.toList.splitOn sep).map String.ofList

theorem cutAt_eq_some {pat : List Char} : ∀ {s a b : List Char}, cutAt pat s = some (a, b) →
    s = a ++ pat ++ b
  | [], a, b, h => by
    rw [cutAt] at h
    split at h
    · rename_i hpat
      cases h
      rw [hpat]
      rfl
    · cases h
  | c :: cs, a, b, h => by
    rw [cutAt] at h
    split at h
    · rename_i hpre
      cases h
      obtain ⟨t, ht⟩ := hpre
      rw [← ht, List.drop_left, List.nil_append]
    · obtain ⟨⟨a', b'⟩, hcut, hab⟩ := Option.map_eq_some_iff.mp h
      cases hab
      rw [cutAt_eq_some hcut]
      rfl

/-- A pattern whose first character stands nowhere before it. -/
theorem cutAt_append {p : Char} {ps : List Char} : ∀ {a : List Char} (_ : p ∉ a) (b : List Char),
    cutAt (p :: ps) (a ++ (p :: ps) ++ b) = some (a, b)
  | [], _, b => by
    have hpre : p :: ps <+: p :: (ps ++ b) := ⟨b, rfl⟩
    rw [List.nil_append, List.cons_append, cutAt, if_pos hpre, ← List.cons_append, List.drop_left]
  | c :: a, h, b => by
    have hpre : ¬ p :: ps <+: c :: (a ++ (p :: ps) ++ b) := by
      rintro ⟨t, ht⟩
      rw [List.cons_append, List.cons.injEq] at ht
      exact h (ht.1 ▸ List.mem_cons_self)
    rw [List.cons_append, List.cons_append, cutAt, if_neg hpre,
      cutAt_append (fun hm => h (List.mem_cons_of_mem c hm)) b]
    rfl

/-- A pattern with more of a character than the text has. -/
theorem cutAt_eq_none {pat s : List Char} (c : Char) (h : s.count c < pat.count c) : cutAt pat s = none := by
  cases hcut : cutAt pat s with
  | none => rfl
  | some ab =>
    rw [cutAt_eq_some hcut, List.count_append, List.count_append] at h
    omega

theorem splitOnceStr_ofList (text : List Char) (pat : String) :
    splitOnceStr (String.ofList text) pat =
      (cutAt pat.toList text).map fun (a, b) => (String.ofList a, String.ofList b) := by
  rw [splitOnceStr, String.toList_ofList]

theorem rsplitOnceWhitespace_eq {s : String} {a b : List Char} {c : Char}
    (hc : isWhitespace c = true) (hb : ∀ d ∈ b, isWhitespace d = false)
    (hs : s.toList = a ++ c :: b) :
    rsplitOnceWhitespace s = some (String.ofList a, String.ofList b) := by
  have hb' : ∀ d ∈ b.reverse, (!isWhitespace d) = true := by
    intro d hd
    rw [hb d (List.mem_reverse.mp hd)]
    rfl
  have hrev : s.toList.reverse = b.reverse ++ c :: a.reverse := by simp [hs]
  have hdrop : (s.toList.rdropWhile fun c => !isWhitespace c) = a ++ [c] := by
    rw [List.rdropWhile, hrev, List.dropWhile_append_of_pos hb',
      List.dropWhile_cons_of_neg (by simp [hc])]
    simp
  have htake : (s.toList.rtakeWhile fun c => !isWhitespace c) = b := by
    rw [List.rtakeWhile, hrev, List.takeWhile_append_of_pos hb',
      List.takeWhile_cons_of_neg (by simp [hc]), List.append_nil, List.reverse_reverse]
  rw [rsplitOnceWhitespace, if_pos (by rw [hs]; simp [hc]), hdrop, htake, List.dropLast_concat]

theorem find_eq_some {s : String} {c : Char} {a b : List Char} (hs : s.toList = a ++ c :: b)
    (ha : c ∉ a) : find s c = some a.length := by
  rw [find, hs, List.idxOf?_eq_some_iff]
  refine ⟨by simp, by simp, fun j hj => ?_⟩
  rw [List.getElem_append_left hj]
  exact fun h => ha (h ▸ List.getElem_mem hj)

theorem find_eq_none {s : String} {c : Char} (h : c ∉ s.toList) : find s c = none :=
  List.idxOf?_eq_none_iff.mpr h

theorem exists_of_idxOf? {l : List Char} {c : Char} {n : Nat} (h : l.idxOf? c = some n) :
    ∃ a b, l = a ++ c :: b ∧ c ∉ a ∧ n = a.length := by
  obtain ⟨hlt, hget, hbefore⟩ := List.idxOf?_eq_some_iff.mp h
  refine ⟨l.take n, l.drop (n + 1), ?_, fun hmem => ?_, by simp [hlt.le]⟩
  · rw [← hget, List.getElem_cons_drop, List.take_append_drop]
  · obtain ⟨j, hj, hjc⟩ := List.getElem_of_mem hmem
    have hjn : j < n := (List.length_take ▸ hj).trans_le (Nat.min_le_left _ _)
    rw [List.getElem_take] at hjc
    exact hbefore j hjn hjc

theorem exists_of_rfind {s : String} {c : Char} {n : Nat} (h : rfind s c = some n) :
    ∃ a b, s.toList = a ++ c :: b ∧ c ∉ b ∧ n = a.length := by
  obtain ⟨m, hm, rfl⟩ := Option.map_eq_some_iff.mp h
  obtain ⟨b, a, hs, hb, rfl⟩ := exists_of_idxOf? hm
  have hlist : s.toList = a.reverse ++ c :: b.reverse := by
    rw [← List.reverse_reverse s.toList, hs]
    simp
  refine ⟨a.reverse, b.reverse, hlist, fun hmem => hb (List.mem_reverse.mp hmem), ?_⟩
  rw [hlist, List.length_append, List.length_cons, List.length_reverse, List.length_reverse]
  omega

theorem rfind_append {s : String} {c : Char} {a b : List Char} (hs : s.toList = a ++ c :: b) (hb : c ∉ b) :
    rfind s c = some a.length := by
  have hrev : s.toList.reverse = b.reverse ++ c :: a.reverse := by simp [hs]
  have hidx : s.toList.reverse.idxOf? c = some b.reverse.length := by
    have hfind := find_eq_some (s := String.ofList s.toList.reverse) (a := b.reverse) (b := a.reverse)
      (by rw [String.toList_ofList, hrev]) fun hmem => hb (List.mem_reverse.mp hmem)
    rwa [find, String.toList_ofList] at hfind
  rw [rfind, hidx, Option.map_some, hs, List.length_append, List.length_cons, List.length_reverse]
  congr 1
  omega

/-- The text before the last whitespace and the text after it. -/
theorem exists_of_rsplitOnceWhitespace {s a b : String} (h : rsplitOnceWhitespace s = some (a, b)) :
    ∃ c, isWhitespace c = true ∧ (∀ d ∈ b.toList, isWhitespace d = false) ∧
      s.toList = a.toList ++ c :: b.toList := by
  unfold rsplitOnceWhitespace at h
  split at h
  · next hany =>
    rw [Option.some.injEq, Prod.mk.injEq] at h
    obtain ⟨rfl, rfl⟩ := h
    have hne : (s.toList.rdropWhile fun c => !isWhitespace c) ≠ [] := by
      rw [Ne, List.rdropWhile_eq_nil_iff]
      intro hall
      obtain ⟨c, hc, hblank⟩ := List.any_eq_true.mp hany
      have hnot := hall c hc
      rw [hblank] at hnot
      cases hnot
    have hlast := List.rdropWhile_last_not _ _ hne
    refine ⟨_, by simpa using hlast, fun d hd => ?_, ?_⟩
    · rw [String.toList_ofList] at hd
      simpa using List.mem_rtakeWhile_imp hd
    · have hwhole : (s.toList.rdropWhile fun c => !isWhitespace c) ++
          (s.toList.rtakeWhile fun c => !isWhitespace c) = s.toList := List.rdropWhile_append_rtakeWhile
      conv_lhs => rw [← hwhole, ← List.dropLast_append_getLast hne]
      rw [String.toList_ofList, String.toList_ofList, List.append_assoc, List.singleton_append]
  · cases h

theorem slice_eq {s : String} {a b c : List Char} (hs : s.toList = a ++ b ++ c) :
    slice s a.length (a.length + b.length) = String.ofList b := by
  rw [slice, hs, ← List.length_append, List.take_left, List.drop_left]

/-! ### Numbers -/

/-- The decimal value of a list of digits. -/
def parseDigits : List Char → Nat → Option Nat
  | [], acc => some acc
  | c :: cs, acc => if c.isDigit then parseDigits cs (acc * 10 + (c.toNat - '0'.toNat)) else none

/-- `str::parse::<u64>`: an optional `+`, then at least one digit, below `2 ^ 64`. -/
def parseU64 (s : String) : Option Nat :=
  match s.toList with
  | [] => none
  | ['+'] => none
  | '+' :: cs => (parseDigits cs 0).filter (· < 2 ^ 64)
  | cs => (parseDigits cs 0).filter (· < 2 ^ 64)

/-- `str::parse::<u32>`. -/
def parseU32 (s : String) : Option UInt32 :=
  ((parseU64 s).filter (· < 2 ^ 32)).map UInt32.ofNat

end Konfig
