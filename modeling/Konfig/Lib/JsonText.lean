import Konfig.Lib.Decimal

/-!
# JSON texts

The grammar of JSON values (RFC 8259), over characters, and the elements of a text that is an
array: what stands between its commas, those inside of an element not counted.

* `IsJson`: a text is a value.
* `IsJson.whole`: no comma of a value is one of the array around it.
* `elements_array`: the elements of an array are the values that it was put together from.
-/

namespace Lib.JsonText

/-! ### The grammar -/

def isJsonSpace (c : Char) : Bool := c = ' ' || c = '\t' || c = '\n' || c = '\r'

/-- What stands between the quotes of a string. -/
inductive StringBody : List Char → Prop
  | nil : StringBody []
  | plain {c : Char} {cs : List Char} : 32 ≤ c.toNat → c ≠ '"' → c ≠ '\\' → StringBody cs → StringBody (c :: cs)
  | escape {c : Char} {cs : List Char} : c ∈ ['"', '\\', '/', 'b', 'f', 'n', 'r', 't'] → StringBody cs →
      StringBody ('\\' :: c :: cs)
  | code {hex cs : List Char} : hex.length = 4 → (∀ c ∈ hex, c.isDigit ∨ c ∈ "abcdefABCDEF".toList) →
      StringBody cs → StringBody ('\\' :: 'u' :: (hex ++ cs))

inductive IsString : List Char → Prop
  | quoted {cs : List Char} : StringBody cs → IsString ('"' :: (cs ++ ['"']))

/-- A number: sign, integer without a leading zero, fraction and exponent. -/
structure IsNumber (cs : List Char) : Prop where
  parts : ∃ sign int frac exp : List Char, cs = sign ++ (int ++ (frac ++ exp)) ∧
    (sign = [] ∨ sign = ['-']) ∧
    (Digits int ∧ (int.head? ≠ some '0' ∨ int = ['0'])) ∧
    (frac = [] ∨ ∃ ds, frac = '.' :: ds ∧ Digits ds) ∧
    (exp = [] ∨ ∃ e s ds, exp = e :: (s ++ ds) ∧ (e = 'e' ∨ e = 'E') ∧
      (s = [] ∨ s = ['-'] ∨ s = ['+']) ∧ Digits ds)

/-- A value with white space around it. -/
structure Padded where
  before : List Char
  value : List Char
  after : List Char
  space : ∀ c ∈ before ++ after, isJsonSpace c = true

def Padded.text (p : Padded) : List Char := p.before ++ (p.value ++ p.after)

/-- Items with commas between them. -/
def commas : List (List Char) → List Char
  | [] => []
  | [item] => item
  | item :: items => item ++ ',' :: commas items

inductive IsLiteral : List Char → Prop
  | null : IsLiteral ['n', 'u', 'l', 'l']
  | true : IsLiteral ['t', 'r', 'u', 'e']
  | false : IsLiteral ['f', 'a', 'l', 's', 'e']

theorem commas_cons_cons (item next : List Char) (items : List (List Char)) :
    commas (item :: next :: items) = item ++ ',' :: commas (next :: items) := rfl

/-- A text is a JSON value. -/
inductive IsJson : List Char → Prop
  | literal {cs : List Char} : IsLiteral cs → IsJson cs
  | number {cs : List Char} : IsNumber cs → IsJson cs
  | string {cs : List Char} : IsString cs → IsJson cs
  | emptyArray {space : List Char} : (∀ c ∈ space, isJsonSpace c = true) → IsJson ('[' :: (space ++ [']']))
  | array {items : List Padded} : items ≠ [] → (∀ p ∈ items, IsJson p.value) →
      IsJson ('[' :: (commas (items.map Padded.text) ++ [']']))
  | emptyObject {space : List Char} : (∀ c ∈ space, isJsonSpace c = true) → IsJson ('\x7b' :: (space ++ ['\x7d']))
  | object {members : List (Padded × Padded)} : members ≠ [] →
      (∀ m ∈ members, IsString m.1.value) → (∀ m ∈ members, IsJson m.2.value) →
      IsJson ('\x7b' :: (commas (members.map fun m => m.1.text ++ ':' :: m.2.text) ++ ['\x7d']))

/-! ### The elements of an array -/

/-- Where a reader of a JSON text is: in a string or not, and how deep in brackets. -/
inductive Scan
  | plain (depth : ℕ)
  | quoted (depth : ℕ)
  | escaped (depth : ℕ)
deriving DecidableEq

def Scan.step : Scan → Char → Scan
  | .escaped d, _ => .quoted d
  | .quoted d, c => if c = '\\' then .escaped d else if c = '"' then .plain d else .quoted d
  | .plain d, c =>
    if c = '"' then .quoted d
    else if c = '[' ∨ c = '\x7b' then .plain (d + 1)
    else if c = ']' ∨ c = '\x7d' then .plain (d - 1)
    else .plain d

/-- The parts between the commas that are in no bracket. -/
def cut : Scan → List Char → List (List Char)
  | _, [] => [[]]
  | s, c :: cs =>
    if s = .plain 0 ∧ c = ',' then [] :: cut s cs
    else (cut (s.step c) cs).modifyHead (c :: ·)

/-- The elements of a text that is an array, with the white space around them. -/
def elements : List Char → Option (List (List Char))
  | '[' :: cs =>
    if cs.getLast? = some ']' then
      some (if cs.dropLast.all isJsonSpace then [] else cut (.plain 0) cs.dropLast)
    else none
  | _ => none

/-! ### Reading over a text -/

/-- The reader passes the text, and meets no comma that is in no bracket. -/
inductive Passes : Scan → List Char → Scan → Prop
  | nil {s : Scan} : Passes s [] s
  | cons {s t : Scan} {c : Char} {cs : List Char} : ¬ (s = .plain 0 ∧ c = ',') → Passes (s.step c) cs t →
      Passes s (c :: cs) t

theorem Passes.append {s t u : Scan} {cs ds : List Char} (h : Passes s cs t) (h' : Passes t ds u) :
    Passes s (cs ++ ds) u := by
  induction h with
  | nil => exact h'
  | cons hcomma _ ih => exact .cons hcomma (ih h')

theorem Passes.single {s : Scan} {c : Char} (h : ¬ (s = .plain 0 ∧ c = ',')) : Passes s [c] (s.step c) :=
  .cons h .nil

theorem cut_passes {s t : Scan} {cs : List Char} (h : Passes s cs t) (ds : List Char) :
    cut s (cs ++ ds) = (cut t ds).modifyHead (cs ++ ·) := by
  induction h with
  | nil => exact (congrFun List.modifyHead_id _).symm
  | cons hcomma _ ih => rw [List.cons_append, cut, if_neg hcomma, ih, List.modifyHead_modifyHead]; rfl

/-- A text that is passed at any depth, and left at the same one. -/
def Whole (cs : List Char) : Prop := ∀ d, Passes (.plain d) cs (.plain d)

/-- The same inside of a bracket. -/
def Inner (cs : List Char) : Prop := ∀ d, Passes (.plain (d + 1)) cs (.plain (d + 1))

theorem Whole.inner {cs : List Char} (h : Whole cs) : Inner cs := fun d => h (d + 1)

theorem Inner.append {cs ds : List Char} (h : Inner cs) (h' : Inner ds) : Inner (cs ++ ds) :=
  fun d => (h d).append (h' d)

theorem Whole.append {cs ds : List Char} (h : Whole cs) (h' : Whole ds) : Whole (cs ++ ds) :=
  fun d => (h d).append (h' d)

/-- The characters that mean nothing to the reader. -/
def Idle (c : Char) : Prop := c ≠ '"' ∧ c ≠ '[' ∧ c ≠ ']' ∧ c ≠ '\x7b' ∧ c ≠ '\x7d'

theorem step_idle {c : Char} (h : Idle c) (d : ℕ) : (Scan.plain d).step c = .plain d := by
  obtain ⟨hquote, hopen, hclose, hopen', hclose'⟩ := h
  simp [Scan.step, *]

theorem whole_of_idle {cs : List Char} (h : ∀ c ∈ cs, Idle c ∧ c ≠ ',') : Whole cs := by
  intro d
  induction cs with
  | nil => exact .nil
  | cons c cs ih =>
    obtain ⟨hidle, hcomma⟩ := h c List.mem_cons_self
    refine .cons (fun hc => hcomma hc.2) ?_
    rw [step_idle hidle]
    exact ih fun c hc => h c (List.mem_cons_of_mem _ hc)

theorem inner_idle {c : Char} (h : Idle c) : Inner [c] := by
  intro d
  have hstep := Passes.single (s := .plain (d + 1)) (c := c) fun hc => by simp at hc
  rwa [step_idle h] at hstep

/-- What is passed inside of a bracket is passed with its brackets. -/
theorem Inner.bracket {cs : List Char} (h : Inner cs) {a b : Char}
    (hab : (a = '[' ∧ b = ']') ∨ (a = '\x7b' ∧ b = '\x7d')) : Whole (a :: (cs ++ [b])) := by
  intro d
  have hclose : Passes (.plain (d + 1)) [b] (.plain d) := by
    have hstep : (Scan.plain (d + 1)).step b = .plain d := by
      rcases hab with ⟨-, rfl⟩ | ⟨-, rfl⟩ <;> simp [Scan.step]
    have hsingle := Passes.single (s := .plain (d + 1)) (c := b) fun hc => by simp at hc
    rwa [hstep] at hsingle
  have hopen : (Scan.plain d).step a = .plain (d + 1) := by
    rcases hab with ⟨rfl, -⟩ | ⟨rfl, -⟩ <;> simp [Scan.step]
  have hcomma : a ≠ ',' := by
    rcases hab with ⟨rfl, -⟩ | ⟨rfl, -⟩ <;> decide
  refine .cons (fun hc => hcomma hc.2) ?_
  rw [hopen]
  exact (h d).append hclose

/-! ### Values -/

theorem idle_of_isDigit {c : Char} (h : c.isDigit = true) : Idle c ∧ c ≠ ',' := by
  refine ⟨⟨?_, ?_, ?_, ?_, ?_⟩, ?_⟩ <;>
  · rintro rfl
    exact absurd h (by decide)

theorem whole_digits {cs : List Char} (h : Digits cs) : Whole cs :=
  whole_of_idle fun c hc => idle_of_isDigit (h.isDigit c hc)

theorem whole_space {cs : List Char} (h : ∀ c ∈ cs, isJsonSpace c = true) : Whole cs := by
  refine whole_of_idle fun c hc => ?_
  have hspace := h c hc
  simp only [isJsonSpace, Bool.or_eq_true, decide_eq_true_eq] at hspace
  rcases hspace with ((rfl | rfl) | rfl) | rfl <;> simp [Idle]

theorem whole_number {cs : List Char} (h : IsNumber cs) : Whole cs := by
  obtain ⟨sign, int, frac, exp, rfl, hsign, ⟨hint, -⟩, hfrac, hexp⟩ := h.parts
  refine Whole.append ?_ (.append (whole_digits hint) (.append ?_ ?_))
  · rcases hsign with rfl | rfl
    · exact fun d => .nil
    · exact whole_of_idle (by simp [Idle])
  · rcases hfrac with rfl | ⟨ds, rfl, hds⟩
    · exact fun d => .nil
    · have hpoint : Whole ['.'] := whole_of_idle (by simp [Idle])
      exact hpoint.append (whole_digits hds)
  · rcases hexp with rfl | ⟨e, s, ds, rfl, he, hs, hds⟩
    · exact fun d => .nil
    · have hmark : Whole [e] := whole_of_idle (by rcases he with rfl | rfl <;> simp [Idle])
      have hsign : Whole s := whole_of_idle (by rcases hs with rfl | rfl | rfl <;> simp [Idle])
      exact hmark.append (hsign.append (whole_digits hds))

theorem step_quoted {c : Char} (h : c ≠ '"') (h' : c ≠ '\\') (d : ℕ) : (Scan.quoted d).step c = .quoted d := by
  rw [Scan.step, if_neg h', if_neg h]

theorem passes_quoted {cs : List Char} (h : ∀ c ∈ cs, c ≠ '"' ∧ c ≠ '\\') (d : ℕ) :
    Passes (.quoted d) cs (.quoted d) := by
  induction cs with
  | nil => exact .nil
  | cons c cs ih =>
    obtain ⟨hquote, hback⟩ := h c List.mem_cons_self
    refine .cons (by simp) ?_
    rw [step_quoted hquote hback]
    exact ih fun c hc => h c (List.mem_cons_of_mem _ hc)

theorem passes_body {cs : List Char} (h : StringBody cs) (d : ℕ) : Passes (.quoted d) cs (.quoted d) := by
  induction h with
  | nil => exact .nil
  | plain _ hquote hback _ ih =>
    refine .cons (by simp) ?_
    rw [step_quoted hquote hback]
    exact ih
  | escape _ _ ih => exact .cons (by simp) (.cons (by simp [Scan.step]) ih)
  | @code hex cs _ hhex _ ih =>
    refine .cons (by simp) (.cons (by simp [Scan.step]) ?_)
    refine (passes_quoted (fun c hc => ?_) d).append ih
    rcases hhex c hc with hdigit | hmem
    · constructor <;>
      · rintro rfl
        exact absurd hdigit (by decide)
    · constructor <;>
      · rintro rfl
        exact absurd hmem (by decide)

theorem whole_string {cs : List Char} (h : IsString cs) : Whole cs := by
  obtain ⟨hbody⟩ := h
  intro d
  exact .cons (by simp) ((passes_body hbody d).append (.single (by simp)))

theorem Padded.whole {p : Padded} (h : Whole p.value) : Whole p.text :=
  (whole_space fun c hc => p.space c (List.mem_append_left _ hc)).append
    (h.append (whole_space fun c hc => p.space c (List.mem_append_right _ hc)))

theorem inner_commas {items : List (List Char)} (h : ∀ item ∈ items, Inner item) : Inner (commas items) := by
  induction items with
  | nil => exact fun d => .nil
  | cons item items ih =>
    have hitem := h item List.mem_cons_self
    have hrest := ih fun i hi => h i (List.mem_cons_of_mem _ hi)
    cases items with
    | nil => exact hitem
    | cons next items =>
      have hcomma : Inner [','] := inner_idle (by simp [Idle])
      exact hitem.append (hcomma.append hrest)

/-- No comma of a value is one of the array around it. -/
theorem IsJson.whole {cs : List Char} (h : IsJson cs) : Whole cs := by
  induction h with
  | literal h => cases h <;> exact whole_of_idle (by simp [Idle])
  | number h => exact whole_number h
  | string h => exact whole_string h
  | emptyArray h => exact (whole_space h).inner.bracket (.inl ⟨rfl, rfl⟩)
  | @array items _ _ ih =>
    refine Inner.bracket (inner_commas fun item hitem => ?_) (.inl ⟨rfl, rfl⟩)
    obtain ⟨p, hp, rfl⟩ := List.mem_map.mp hitem
    exact (Padded.whole (ih p hp)).inner
  | emptyObject h => exact (whole_space h).inner.bracket (.inr ⟨rfl, rfl⟩)
  | @object members _ hnames _ ih =>
    refine Inner.bracket (inner_commas fun item hitem => ?_) (.inr ⟨rfl, rfl⟩)
    obtain ⟨m, hm, rfl⟩ := List.mem_map.mp hitem
    have hcolon : Inner [':'] := inner_idle (by simp [Idle])
    exact (Padded.whole (whole_string (hnames m hm))).inner.append
      (hcolon.append (Padded.whole (ih m hm)).inner)

/-- A value has more than white space. -/
theorem IsJson.not_space {cs : List Char} (h : IsJson cs) : cs.all isJsonSpace = false := by
  have hcons : ∀ {c : Char} {cs : List Char}, isJsonSpace c = false → (c :: cs).all isJsonSpace = false :=
    fun hc => by rw [List.all_cons, hc, Bool.false_and]
  cases h with
  | literal h =>
    cases h <;> exact hcons (by decide)
  | number h =>
    obtain ⟨sign, int, frac, exp, rfl, -, ⟨hint, -⟩, -⟩ := h.parts
    obtain ⟨c, int, rfl⟩ := List.exists_cons_of_ne_nil hint.ne_nil
    have hdigit := hint.isDigit c List.mem_cons_self
    have hspace : isJsonSpace c = false := by
      by_contra hc
      simp only [isJsonSpace, Bool.or_eq_true, decide_eq_true_eq, Bool.not_eq_false] at hc
      rcases hc with ((rfl | rfl) | rfl) | rfl <;> exact absurd hdigit (by decide)
    simp [hspace]
  | string h =>
    cases h
    exact hcons (by decide)
  | _ => exact hcons (by decide)

/-! ### Arrays -/

/-- An array of values without white space. -/
theorem isJson_array {items : List (List Char)} (h : ∀ item ∈ items, IsJson item) :
    IsJson ('[' :: (commas items ++ [']'])) := by
  cases items with
  | nil => exact .emptyArray fun c hc => absurd hc List.not_mem_nil
  | cons item rest =>
    let pad : List Char → Padded := fun v => ⟨[], v, [], fun c hc => absurd hc List.not_mem_nil⟩
    have htext : ((item :: rest).map pad).map Padded.text = item :: rest := by
      rw [List.map_map]
      exact (List.map_congr_left fun v _ => List.append_nil v).trans (List.map_id _)
    have hne : (item :: rest).map pad ≠ [] := by simp
    have harray := IsJson.array hne fun p hp => by
      obtain ⟨v, hv, rfl⟩ := List.mem_map.mp hp
      exact h v hv
    rwa [htext] at harray

theorem cut_commas {items : List (List Char)} (hne : items ≠ []) (h : ∀ item ∈ items, Whole item) :
    cut (.plain 0) (commas items) = items := by
  induction items with
  | nil => exact absurd rfl hne
  | cons item items ih =>
    have hitem := cut_passes (h item List.mem_cons_self 0)
    cases items with
    | nil =>
      have hlast := hitem []
      rw [List.append_nil] at hlast
      rw [commas, hlast]
      simp [cut]
    | cons next items =>
      have hrest := ih (List.cons_ne_nil _ _) fun i hi => h i (List.mem_cons_of_mem _ hi)
      rw [commas_cons_cons, hitem, cut, if_pos ⟨rfl, rfl⟩, hrest, List.modifyHead_cons, List.append_nil]

/-- **The elements of an array are the values that it was put together from.** -/
theorem elements_array {items : List (List Char)} (h : ∀ item ∈ items, IsJson item) :
    elements ('[' :: (commas items ++ [']'])) = some items := by
  rw [elements, if_pos List.getLast?_concat, List.dropLast_concat]
  cases items with
  | nil => rfl
  | cons item items =>
    have hspace : (commas (item :: items)).all isJsonSpace = false := by
      have hitem := (h item List.mem_cons_self).not_space
      cases items with
      | nil => exact hitem
      | cons next items => rw [commas_cons_cons, List.all_append, hitem, Bool.false_and]
    rw [hspace, cut_commas (List.cons_ne_nil _ _) fun i hi => (h i hi).whole]
    rfl

end Lib.JsonText
