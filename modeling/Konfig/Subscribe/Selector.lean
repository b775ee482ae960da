import Konfig.Lib.Separated
import Konfig.Subscribe.Filter
import Konfig.Text

/-!
# The parser of label selectors

`parse_label_selector` of `grpc/subscribe/filter.rs`: requirements are cut apart at the
commas outside of parentheses, and each is recognised by searching for `(`, `==`, `!=`,
`=` and `!` in this order.

* `Selector.Prints`: the texts that print a list of requirements.
* `Expression.Reads`: what the search finds in the text of a requirement.
* `Moves`: what reading a part of the text does to the depth of the parentheses.
* `label_selector_round_trip`: every printed text is read back.
-/

namespace Konfig

/-! ### The parser -/

/-- `Status::invalid_argument` with what is wrong with a label selector. -/
def invalidSelector (what : String) : Status :=
  ⟨.invalidArgument, "invalid label_selector: " ++ what⟩

/-- The loop of `split_top_level_requirements`: the depth of the parentheses, the
requirement being read and those before it.  `depth` is an `i32` there, which no request
is long enough to overflow. -/
def splitTopLevel : List Char → Int → List Char → List String → Except Status (List String)
  | [], depth, part, parts =>
    if depth ≠ 0 then .error (invalidSelector "unbalanced parentheses")
    else .ok (parts ++ [String.ofList part])
  | ch :: rest, depth, part, parts =>
    if ch = '(' then splitTopLevel rest (depth + 1) (part ++ [ch]) parts
    else if ch = ')' then
      if depth - 1 < 0 then .error (invalidSelector "unbalanced parentheses")
      else splitTopLevel rest (depth - 1) (part ++ [ch]) parts
    else if ch = ',' ∧ depth = 0 then splitTopLevel rest depth [] (parts ++ [String.ofList part])
    else splitTopLevel rest depth (part ++ [ch]) parts

def splitTopLevelRequirements (input : String) : Except Status (List String) :=
  splitTopLevel input.toList 0 [] []

def parseKey (key : String) : Except Status String :=
  if trim key = "" then .error (invalidSelector "empty key") else .ok (trim key)

def parseValue (value : String) : Except Status String :=
  if trim value = "" then .error (invalidSelector "empty value") else .ok (trim value)

inductive SetOp
  | isIn
  | notIn

def splitSetHead (head : String) : Except Status (String × SetOp) :=
  match rsplitOnceWhitespace head with
  | none => .error (invalidSelector "missing in/notin operator")
  | some (keyPart, opToken) => do
    let op ←
      if trim opToken = "in" then .ok SetOp.isIn
      else if trim opToken = "notin" then .ok SetOp.notIn
      else .error (invalidSelector ("unknown set operator '" ++ trim opToken ++ "'"))
    let key ← parseKey keyPart
    return (key, op)

/-- The loop of `parse_value_set`. -/
def insertValues : List String → List String → Except Status (List String)
  | [], set => .ok set
  | v :: vs, set =>
    if trim v = "" then .error (invalidSelector "empty value in set")
    else insertValues vs (set.insert (trim v))

def parseValueSet (valuesStr : String) : Except Status (List String) := do
  let set ← insertValues (split valuesStr ',') []
  if set = [] then .error (invalidSelector "empty value set") else .ok set

def parseRequirement (req : String) : Except Status Expression :=
  if req = "" then .error (invalidSelector "empty requirement")
  else match find req '(' with
  | some opening =>
    let head := trim (slice req 0 opening)
    match rfind req ')' with
    | none => .error (invalidSelector "unbalanced parentheses")
    | some close =>
      if close < opening then .error (invalidSelector "unbalanced parentheses")
      else do
        let (key, op) ← splitSetHead head
        let values ← parseValueSet (slice req (opening + 1) close)
        match op with
        | .isIn => return .isIn key values
        | .notIn => return .notIn key values
  | none =>
    match splitOnceStr req "==" with
    | some (k, v) => return .equal (← parseKey k) (← parseValue v)
    | none =>
      match splitOnceStr req "!=" with
      | some (k, v) => return .notEqual (← parseKey k) (← parseValue v)
      | none =>
        match splitOnce req '=' with
        | some (k, v) => return .equal (← parseKey k) (← parseValue v)
        | none =>
          match stripPrefix req '!' with
          | some rest => return .doesNotExist (← parseKey rest)
          | none => return .exists (← parseKey req)

def parseLabelSelector (input : String) : Except Status Selector :=
  if trim input = "" then .ok []
  else do
    let requirements ← splitTopLevelRequirements (trim input)
    requirements.mapM fun req => parseRequirement (trim req)

/-- `SubscribeFilter::new`. -/
def SubscribeFilter.new (names : List String) (labelSelector : String) :
    Except Status SubscribeFilter := do
  let selector ← parseLabelSelector labelSelector
  return { names := if names.isEmpty then none else some names, selector }

/-! ### Printed selectors -/

/-- Equal, with value sets as sets. -/
inductive Expression.Same : Expression → Expression → Prop
  | isIn {key : String} {values values' : List String} : (∀ v, v ∈ values ↔ v ∈ values') →
      Same (.isIn key values) (.isIn key values')
  | notIn {key : String} {values values' : List String} : (∀ v, v ∈ values ↔ v ∈ values') →
      Same (.notIn key values) (.notIn key values')
  | refl (e : Expression) : Same e e

theorem Expression.Same.matches {e e' : Expression} (h : e.Same e') (labels : StringMap) :
    e'.matches labels = e.matches labels := by
  cases h with
  | isIn hvals => simp only [Expression.matches, hvals]
  | notIn hvals => simp only [Expression.matches, hvals]
  | refl => rfl

theorem Expression.Same.trans {e e' e'' : Expression} (h : e.Same e') (h' : e'.Same e'') : e.Same e'' := by
  cases h with
  | isIn hsame =>
    cases h' with
    | isIn hsame' => exact .isIn fun v => (hsame v).trans (hsame' v)
    | refl => exact .isIn hsame
  | notIn hsame =>
    cases h' with
    | notIn hsame' => exact .notIn fun v => (hsame v).trans (hsame' v)
    | refl => exact .notIn hsame
  | refl => exact h'

theorem Selector.matches_same {es es' : Selector} (h : List.Forall₂ Expression.Same es es')
    (labels : StringMap) : es'.matches labels = es.matches labels := by
  induction h with
  | nil => rfl
  | @cons e e' es es' he _ ih =>
    show (e'.matches labels && Selector.matches es' labels) = _
    rw [he.matches, ih]
    rfl

/-- A key or a value as the grammar has it. -/
def IsWord (w : String) : Prop :=
  w ≠ "" ∧ ∀ c ∈ w.toList, isWhitespace c = false ∧ c ∉ ['(', ')', ',', '=', '!']

instance (w : String) : Decidable (IsWord w) :=
  @instDecidableAnd _ _ inferInstance (List.decidableBAll _ w.toList)

/-- Keys and values are words, and value sets are not empty. -/
def Expression.Plain : Expression → Prop
  | .isIn key values | .notIn key values => IsWord key ∧ values ≠ [] ∧ ∀ v ∈ values, IsWord v
  | .equal key value | .notEqual key value => IsWord key ∧ IsWord value
  | .exists key | .doesNotExist key => IsWord key

/-- Any amount of whitespace. -/
abbrev Spaces : List Char → Prop := Lib.Blank isWhitespace

/-- The values of a set in any order, with commas between them. -/
def PrintsValues (values : List String) (text : List Char) : Prop :=
  ∃ order : List String, (∀ v, v ∈ order ↔ v ∈ values) ∧
    Lib.Joined isWhitespace ',' (fun v t => t = v.toList) order text

/-- The texts that print a requirement. -/
inductive Expression.Prints : Expression → List Char → Prop
  | isIn {key : String} {values : List String} {l m text : List Char} : Spaces l → l ≠ [] →
      Spaces m → PrintsValues values text →
      Prints (.isIn key values) (key.toList ++ l ++ "in".toList ++ m ++ ('(' :: text ++ [')']))
  | notIn {key : String} {values : List String} {l m text : List Char} : Spaces l → l ≠ [] →
      Spaces m → PrintsValues values text →
      Prints (.notIn key values)
        (key.toList ++ l ++ "notin".toList ++ m ++ ('(' :: text ++ [')']))
  | equal {key value : String} {l r : List Char} : Spaces l → Spaces r →
      Prints (.equal key value) (key.toList ++ l ++ ['='] ++ (r ++ value.toList))
  | doubleEqual {key value : String} {l r : List Char} : Spaces l → Spaces r →
      Prints (.equal key value) (key.toList ++ l ++ ['=', '='] ++ (r ++ value.toList))
  | notEqual {key value : String} {l r : List Char} : Spaces l → Spaces r →
      Prints (.notEqual key value) (key.toList ++ l ++ ['!', '='] ++ (r ++ value.toList))
  | exists {key : String} : Prints (.exists key) key.toList
  | doesNotExist {key : String} {l : List Char} : Spaces l →
      Prints (.doesNotExist key) ('!' :: (l ++ key.toList))

/-- The texts that print a list of requirements. -/
def Selector.Prints : Selector → List Char → Prop
  | [], text => Spaces text
  | es, text => Lib.Joined isWhitespace ',' Expression.Prints es text

theorem isWhitespace_special {c : Char} (hc : c ∈ ['(', ')', ',', '=', '!']) :
    isWhitespace c = false := by
  simp only [List.mem_cons, List.not_mem_nil, or_false] at hc
  rcases hc with rfl | rfl | rfl | rfl | rfl <;> rfl

theorem IsWord.solid {w : String} (h : IsWord w) : Lib.Solid isWhitespace w.toList := by
  refine .of_forall (fun hnil => h.1 ?_) fun c hc => (h.2 c hc).1
  rw [← String.ofList_toList (s := w), hnil]

theorem IsWord.notMem {w : String} (h : IsWord w) {c : Char}
    (hc : c ∈ ['(', ')', ',', '=', '!']) : c ∉ w.toList := fun hmem => (h.2 c hmem).2 hc

theorem Spaces.notMem {l : List Char} (h : Spaces l) {c : Char} (hc : isWhitespace c = false) :
    c ∉ l := by
  intro hmem
  rw [h c hmem] at hc
  exact Bool.false_ne_true hc.symm

theorem trim_padded {text x : List Char} (hs : Lib.Solid isWhitespace text)
    (h : Lib.Padded isWhitespace text x) : trim (String.ofList x) = String.ofList text := by
  rw [← Lib.trimBoth_padded hs h, trim, String.toList_ofList]
  rfl

theorem trim_solid {w : String} (hw : Lib.Solid isWhitespace w.toList) {x : List Char}
    (h : Lib.Padded isWhitespace w.toList x) : trim (String.ofList x) = w := by
  rw [trim_padded hw h, String.ofList_toList]

theorem ne_empty_of_solid {w : String} (hw : Lib.Solid isWhitespace w.toList) : w ≠ "" := by
  rintro rfl
  exact hw.ne rfl

theorem parseKey_solid {k : String} (hk : Lib.Solid isWhitespace k.toList) {x : List Char}
    (h : Lib.Padded isWhitespace k.toList x) : parseKey (String.ofList x) = .ok k := by
  rw [parseKey, trim_solid hk h, if_neg (ne_empty_of_solid hk)]

theorem parseValue_solid {v : String} (hv : Lib.Solid isWhitespace v.toList) {x : List Char}
    (h : Lib.Padded isWhitespace v.toList x) : parseValue (String.ofList x) = .ok v := by
  rw [parseValue, trim_solid hv h, if_neg (ne_empty_of_solid hv)]

/-- A printed requirement neither starts nor ends with whitespace. -/
theorem Expression.Prints.solid {e : Expression} {text : List Char} (h : e.Prints text)
    (he : e.Plain) : Lib.Solid isWhitespace text := by
  have hclose : Lib.Solid isWhitespace [')'] := .singleton (by decide)
  have hbang : Lib.Solid isWhitespace ['!'] := .singleton (by decide)
  cases h with
  | @isIn key values l m text _ _ _ _ =>
    refine he.1.solid.of_ends hclose ?_ ⟨key.toList ++ l ++ "in".toList ++ m ++ '(' :: text, ?_⟩
    · simp only [List.append_assoc, List.prefix_append]
    · simp only [List.append_assoc, List.cons_append]
  | @notIn key values l m text _ _ _ _ =>
    refine he.1.solid.of_ends hclose ?_
      ⟨key.toList ++ l ++ "notin".toList ++ m ++ '(' :: text, ?_⟩
    · simp only [List.append_assoc, List.prefix_append]
    · simp only [List.append_assoc, List.cons_append]
  | @equal key value l r _ _ | @doubleEqual key value l r _ _ | @notEqual key value l r _ _ =>
    refine he.1.solid.of_ends he.2.solid ?_ ?_
    · simp only [List.append_assoc, List.prefix_append]
    · exact (List.suffix_append r value.toList).trans (List.suffix_append _ _)
  | «exists» => exact IsWord.solid he
  | @doesNotExist key l _ =>
    refine hbang.of_ends he.solid ⟨l ++ key.toList, rfl⟩ ?_
    exact (List.suffix_append l key.toList).trans (List.suffix_cons _ _)

/-! ### One requirement -/

/-- The word an operator is written with. -/
def SetOp.token : SetOp → String
  | .isIn => "in"
  | .notIn => "notin"

def SetOp.expression (op : SetOp) (key : String) (values : List String) : Expression :=
  match op with
  | .isIn => .isIn key values
  | .notIn => .notIn key values

theorem SetOp.token_word (op : SetOp) : IsWord op.token := by
  cases op with
  | isIn => decide
  | notIn => decide

/-- The operator is cut off at the last blank, and trimming the rest leaves the key. -/
theorem splitSetHead_printed {key : String} {l : List Char} (hk : Lib.Solid isWhitespace key.toList)
    (hl : Spaces l) (hne : l ≠ []) (op : SetOp) :
    splitSetHead (String.ofList (key.toList ++ l ++ op.token.toList)) = .ok (key, op) := by
  have hcut : rsplitOnceWhitespace (String.ofList (key.toList ++ l ++ op.token.toList)) =
      some (String.ofList (key.toList ++ l.dropLast), String.ofList op.token.toList) := by
    refine rsplitOnceWhitespace_eq (hl _ (List.getLast_mem hne))
      (fun c hc => (op.token_word.2 c hc).1) ?_
    rw [String.toList_ofList]
    conv_lhs => rw [← List.dropLast_append_getLast hne]
    simp only [List.append_assoc, List.singleton_append]
  have hkey : parseKey (String.ofList (key.toList ++ l.dropLast)) = .ok key :=
    parseKey_solid hk ⟨[], l.dropLast, by simp [Lib.Blank],
      fun c hc => hl c (List.dropLast_subset l hc), rfl⟩
  have htoken : trim (String.ofList op.token.toList) = op.token :=
    trim_solid op.token_word.solid (.refl isWhitespace _)
  rw [splitSetHead, hcut]
  simp only [htoken, hkey]
  cases op with
  | isIn => rfl
  | notIn => rfl

theorem insertValues_words {order pieces : List String}
    (h : List.Forall₂ (fun v piece => trim piece = v ∧ v ≠ "") order pieces) (set : List String) :
    ∃ set', insertValues pieces set = .ok set' ∧ ∀ v, v ∈ set' ↔ v ∈ set ∨ v ∈ order := by
  induction h generalizing set with
  | nil => exact ⟨set, rfl, by simp⟩
  | @cons v piece order pieces hv _ ih =>
    obtain ⟨hv, hne⟩ := hv
    obtain ⟨set', hset', hmem⟩ := ih (set.insert v)
    refine ⟨set', ?_, fun w => ?_⟩
    · rw [insertValues, hv, if_neg hne, hset']
    · rw [hmem, List.mem_insert_iff, List.mem_cons, or_assoc, or_left_comm]

/-- Values in the parentheses of a set: any texts with commas between them. -/
def ReadsValues (values : List String) (text : List Char) : Prop :=
  Lib.Joined isWhitespace ',' (fun v t => t = v.toList ∧ Lib.Solid isWhitespace t ∧ ',' ∉ t) values text

theorem PrintsValues.reads {values : List String} {text : List Char} (hw : ∀ v ∈ values, IsWord v)
    (h : PrintsValues values text) : ∃ order, (∀ v, v ∈ order ↔ v ∈ values) ∧ ReadsValues order text := by
  obtain ⟨order, horder, hjoined⟩ := h
  refine ⟨order, horder, hjoined.imp _ fun v hv t ht => ?_⟩
  have hword := hw v ((horder v).mp hv)
  exact ⟨ht, ht ▸ hword.solid, ht ▸ hword.notMem (by simp)⟩

theorem parseValueSet_reads {values : List String} {text : List Char} (h : ReadsValues values text) :
    ∃ set, parseValueSet (String.ofList text) = .ok set ∧ ∀ v, v ∈ values ↔ v ∈ set := by
  -- commas stand between the values only
  obtain ⟨pieces, hpieces, hforall⟩ := Lib.Joined.splits
    (fun x xs => x.splitOn ',' = xs) (fun x => ',' ∉ x)
    (fun _ hx => List.splitOn_eq_singleton hx)
    (fun _ _ _ hx hrest => by rw [List.splitOn_append_cons_self_of_not_mem hx, hrest])
    (by
      rintro v t _ ⟨-, -, hcomma⟩ ⟨pre, post, hpre, hpost, rfl⟩ hmem
      rcases List.mem_append.mp hmem with hmem | hmem
      · rcases List.mem_append.mp hmem with hmem | hmem
        · exact Spaces.notMem hpre (by decide) hmem
        · exact hcomma hmem
      · exact Spaces.notMem hpost (by decide) hmem)
    h
  have hvalues : List.Forall₂ (fun v piece => trim piece = v ∧ v ≠ "") values
      (split (String.ofList text) ',') := by
    rw [split, String.toList_ofList, hpieces, List.forall₂_map_right_iff]
    refine hforall.imp ?_
    rintro v piece ⟨_, ⟨rfl, hsolid, -⟩, hpad⟩
    exact ⟨trim_solid hsolid hpad, ne_empty_of_solid hsolid⟩
  obtain ⟨set, hset, hmem⟩ := insertValues_words hvalues []
  have hsame : ∀ v, v ∈ values ↔ v ∈ set := by
    intro v
    rw [hmem]
    simp
  have hset_ne : set ≠ [] := by
    rintro rfl
    obtain ⟨v, hv⟩ := List.exists_mem_of_ne_nil values h.items_ne_nil
    exact List.not_mem_nil ((hsame v).mp hv)
  refine ⟨set, ?_, hsame⟩
  rw [parseValueSet, hset]
  exact if_neg hset_ne

/-- What stands before the parentheses and what stands in them is read apart; what follows
them is not read at all. -/
theorem parseRequirement_parens {req : String} {a text tail : List Char}
    (hreq : req.toList = a ++ '(' :: (text ++ ')' :: tail)) (ha : '(' ∉ a) (htail : ')' ∉ tail) :
    parseRequirement req = do
      let (key, op) ← splitSetHead (trim (String.ofList a))
      let values ← parseValueSet (String.ofList text)
      return op.expression key values := by
  have hne : req ≠ "" := by
    rintro rfl
    simp at hreq
  have hopening : find req '(' = some a.length := find_eq_some hreq ha
  have hclose : rfind req ')' = some (a.length + 1 + text.length) := by
    have hlast := rfind_append (s := req) (c := ')') (a := a ++ '(' :: text) (by simp [hreq]) htail
    rw [hlast, List.length_append, List.length_cons]
    congr 1
    omega
  have hhead : slice req 0 a.length = String.ofList a := by
    have hslice := slice_eq (s := req) (a := []) (b := a) (by rw [hreq, List.nil_append])
    rwa [List.length_nil, Nat.zero_add] at hslice
  have hvalues : slice req (a.length + 1) (a.length + 1 + text.length) = String.ofList text := by
    have hslice := slice_eq (s := req) (a := a ++ ['(']) (b := text) (c := ')' :: tail) (by simp [hreq])
    rwa [List.length_append, List.length_singleton] at hslice
  have horder : ¬ a.length + 1 + text.length < a.length := by omega
  rw [parseRequirement, if_neg hne, hopening]
  simp only [hclose, hhead, hvalues, if_neg horder]
  congr 1
  funext ⟨key, op⟩
  congr 1
  funext values
  cases op with
  | isIn => rfl
  | notIn => rfl

/-- **A requirement on a set.** -/
theorem parseRequirement_set {key : String} {values : List String} {l m text tail : List Char}
    (op : SetOp) (hk : Lib.Solid isWhitespace key.toList) (hparen : '(' ∉ key.toList) (hl : Spaces l)
    (hne : l ≠ []) (hm : Spaces m) (h : ReadsValues values text) (htail : ')' ∉ tail) :
    ∃ set, parseRequirement (String.ofList
        (key.toList ++ l ++ op.token.toList ++ m ++ '(' :: (text ++ ')' :: tail))) =
        .ok (op.expression key set) ∧ ∀ v, v ∈ values ↔ v ∈ set := by
  obtain ⟨set, hset, hsame⟩ := parseValueSet_reads h
  have hopen : '(' ∉ key.toList ++ l ++ op.token.toList ++ m := by
    intro hmem
    simp only [List.mem_append] at hmem
    rcases hmem with ((hmem | hmem) | hmem) | hmem
    · exact hparen hmem
    · exact Spaces.notMem hl (by decide) hmem
    · exact op.token_word.notMem (by simp) hmem
    · exact Spaces.notMem hm (by decide) hmem
  have hhead : trim (String.ofList (key.toList ++ l ++ op.token.toList ++ m)) =
      String.ofList (key.toList ++ l ++ op.token.toList) := by
    refine trim_padded (hk.of_ends op.token_word.solid ?_ (List.suffix_append _ _))
      ⟨[], m, by simp [Lib.Blank], hm, rfl⟩
    rw [List.append_assoc]
    exact List.prefix_append _ _
  refine ⟨set, ?_, hsame⟩
  rw [parseRequirement_parens String.toList_ofList hopen htail, hhead,
    splitSetHead_printed hk hl hne op]
  show (do
    let values ← parseValueSet (String.ofList text)
    return op.expression key values) = _
  rw [hset]
  rfl

/-- A key or a value and the whitespace on one side of it, as characters. -/
theorem IsWord.notMem_padded {w : String} (hw : IsWord w) {x : List Char}
    (h : Lib.Padded isWhitespace w.toList x) {c : Char} (hc : c ∈ ['(', ')', ',', '=', '!']) :
    c ∉ x := by
  have hblank : isWhitespace c = false := isWhitespace_special hc
  obtain ⟨pre, post, hpre, hpost, rfl⟩ := h
  simp only [List.mem_append, not_or]
  exact ⟨⟨Spaces.notMem hpre hblank, hw.notMem hc⟩, Spaces.notMem hpost hblank⟩

/-- Without parentheses and without `=` it is a key, with or without a `!`. -/
theorem parseRequirement_existence {req : String} (hne : req ≠ "") (hopen : '(' ∉ req.toList)
    (heq : '=' ∉ req.toList) :
    parseRequirement req = match stripPrefix req '!' with
      | some rest => return .doesNotExist (← parseKey rest)
      | none => return .exists (← parseKey req) := by
  have hcount : req.toList.count '=' = 0 := List.count_eq_zero.mpr heq
  have hdouble : splitOnceStr req "==" = none := by
    rw [splitOnceStr, cutAt_eq_none '=' (by rw [hcount]; decide), Option.map_none]
  have hnot : splitOnceStr req "!=" = none := by
    rw [splitOnceStr, cutAt_eq_none '=' (by rw [hcount]; decide), Option.map_none]
  have hcut : splitOnce req '=' = none := by rw [splitOnce, if_neg heq]
  rw [parseRequirement, if_neg hne, find_eq_none hopen]
  simp only [hdouble, hnot, hcut]

/-! ### What the search finds -/

/-- A key and a value around an operator, on their sides of the text. -/
structure Around (key value : String) (a b : List Char) : Prop where
  solidKey : Lib.Solid isWhitespace key.toList
  solidValue : Lib.Solid isWhitespace value.toList
  left : ∃ l, Spaces l ∧ a = key.toList ++ l
  right : ∃ r, Spaces r ∧ b = r ++ value.toList

/-- What the search finds in the text of a requirement, with any texts as keys and values;
and what follows the last closing parenthesis. -/
inductive Expression.Reads (text : List Char) : Expression → List Char → Prop
  | set (op : SetOp) {key : String} {values : List String} {l m body tail : List Char} :
      text = key.toList ++ l ++ op.token.toList ++ m ++ '(' :: (body ++ ')' :: tail) →
      Lib.Solid isWhitespace key.toList → '(' ∉ key.toList → Spaces l → l ≠ [] → Spaces m →
      ReadsValues values body → ')' ∉ tail → Reads text (op.expression key values) tail
  | doubleEqual {key value : String} {a b : List Char} : '(' ∉ text →
      cutAt "==".toList text = some (a, b) → Around key value a b → Reads text (.equal key value) []
  | notEqual {key value : String} {a b : List Char} : '(' ∉ text → cutAt "==".toList text = none →
      cutAt "!=".toList text = some (a, b) → Around key value a b → Reads text (.notEqual key value) []
  | equal {key value : String} {a b : List Char} : '(' ∉ text → cutAt "==".toList text = none →
      cutAt "!=".toList text = none → text = a ++ '=' :: b → '=' ∉ a → Around key value a b →
      Reads text (.equal key value) []
  | doesNotExist {key : String} {l : List Char} : '(' ∉ text → '=' ∉ text →
      text = '!' :: (l ++ key.toList) → Spaces l → Lib.Solid isWhitespace key.toList →
      Reads text (.doesNotExist key) []
  | exists {key : String} : '(' ∉ text → '=' ∉ text → text.head? ≠ some '!' → text = key.toList →
      Lib.Solid isWhitespace key.toList → Reads text (.exists key) []

/-! ### Such a text is accepted -/

theorem find_none_ofList {text : List Char} (h : '(' ∉ text) : find (String.ofList text) '(' = none :=
  find_eq_none (by rwa [String.toList_ofList])

theorem Around.parse {key value : String} {a b : List Char} (h : Around key value a b) :
    parseKey (String.ofList a) = .ok key ∧ parseValue (String.ofList b) = .ok value := by
  obtain ⟨l, hl, rfl⟩ := h.left
  obtain ⟨r, hr, rfl⟩ := h.right
  exact ⟨parseKey_solid h.solidKey (.append_blank hl), parseValue_solid h.solidValue (.blank_append hr)⟩

theorem ofList_ne_empty {text : List Char} (h : text ≠ []) : String.ofList text ≠ "" := by
  intro heq
  exact h (by rw [← String.toList_ofList (l := text), heq]; rfl)

/-- **What the search finds, the parser accepts.** -/
theorem parseRequirement_of_reads {text : List Char} {e : Expression} {tail : List Char}
    (h : e.Reads text tail) : ∃ e', parseRequirement (String.ofList text) = .ok e' ∧ e.Same e' := by
  cases h with
  | set op htext hk hparen hl hne hm hvalues htail =>
    obtain ⟨set, hparse, hsame⟩ := parseRequirement_set op hk hparen hl hne hm hvalues htail
    refine ⟨_, htext ▸ hparse, ?_⟩
    cases op with
    | isIn => exact .isIn hsame
    | notIn => exact .notIn hsame
  | doubleEqual hopen hcut haround =>
    have hne : text ≠ [] := by
      rintro rfl
      cases hcut
    obtain ⟨hkey, hvalue⟩ := haround.parse
    refine ⟨_, ?_, .refl _⟩
    rw [parseRequirement, if_neg (ofList_ne_empty hne), find_none_ofList hopen]
    simp only [splitOnceStr_ofList, hcut, Option.map_some, hkey, hvalue]
    rfl
  | notEqual hopen hdouble hcut haround =>
    have hne : text ≠ [] := by
      rintro rfl
      cases hcut
    obtain ⟨hkey, hvalue⟩ := haround.parse
    refine ⟨_, ?_, .refl _⟩
    rw [parseRequirement, if_neg (ofList_ne_empty hne), find_none_ofList hopen]
    simp only [splitOnceStr_ofList, hdouble, hcut, Option.map_none, Option.map_some, hkey, hvalue]
    rfl
  | @equal key value a b hopen hdouble hnot htext hfirst haround =>
    obtain ⟨hkey, hvalue⟩ := haround.parse
    have hcut : splitOnce (String.ofList text) '=' = some (String.ofList a, String.ofList b) := by
      rw [splitOnce_eq_some, String.toList_ofList, String.toList_ofList, String.toList_ofList]
      exact ⟨htext, hfirst⟩
    refine ⟨_, ?_, .refl _⟩
    rw [parseRequirement, if_neg (ofList_ne_empty (by simp [htext])), find_none_ofList hopen]
    simp only [splitOnceStr_ofList, hdouble, hnot, Option.map_none, hcut, hkey, hvalue]
    rfl
  | @doesNotExist key l hopen heq htext hl hkey =>
    have hstrip : stripPrefix (String.ofList text) '!' = some (String.ofList (l ++ key.toList)) := by
      rw [stripPrefix, String.toList_ofList, htext]
      exact if_pos rfl
    refine ⟨_, ?_, .refl _⟩
    rw [parseRequirement_existence (ofList_ne_empty (by simp [htext])) (by rwa [String.toList_ofList])
      (by rwa [String.toList_ofList]), hstrip]
    simp only [parseKey_solid hkey (.blank_append hl)]
    rfl
  | @«exists» key hopen heq hbang htext hkey =>
    have hstrip : stripPrefix (String.ofList text) '!' = none := by
      rw [stripPrefix, String.toList_ofList]
      cases text with
      | nil => rfl
      | cons c cs => exact if_neg fun hc => hbang (by rw [hc]; rfl)
    refine ⟨_, ?_, .refl _⟩
    rw [parseRequirement_existence (ofList_ne_empty (htext ▸ hkey.ne)) (by rwa [String.toList_ofList])
      (by rwa [String.toList_ofList]), hstrip]
    simp only [htext, parseKey_solid hkey (.refl isWhitespace _)]
    rfl

/-! ### Printed requirements are found -/

section Equality

/-! A key, an operator made of `=` and `!`, and a value. -/

variable {key value : String} {x y : List Char} (hk : IsWord key) (hv : IsWord value)
  (hx : Lib.Padded isWhitespace key.toList x) (hy : Lib.Padded isWhitespace value.toList y)

include hk hv hx hy

theorem equality_notMem {op : List Char} (hop : '(' ∉ op) : '(' ∉ x ++ op ++ y := by
  simp only [List.mem_append, not_or]
  exact ⟨⟨hk.notMem_padded hx (by simp), hop⟩, hv.notMem_padded hy (by simp)⟩

/-- What is searched for has more of a character than the operator has. -/
theorem equality_uncut (op : List Char) {pat : List Char} {c : Char} (hc : c ∈ ['(', ')', ',', '=', '!'])
    (h : op.count c < pat.count c) : cutAt pat (x ++ op ++ y) = none := by
  refine cutAt_eq_none c ?_
  rw [List.count_append, List.count_append, List.count_eq_zero.mpr (hk.notMem_padded hx hc),
    List.count_eq_zero.mpr (hv.notMem_padded hy hc), Nat.zero_add, Nat.add_zero]
  exact h

end Equality

/-- **In a printed requirement the search finds what was printed**, value sets as sets. -/
theorem Expression.Prints.reads {e : Expression} {text : List Char} (h : e.Prints text) (he : e.Plain) :
    ∃ r, Expression.Reads text r [] ∧ e.Same r := by
  cases h with
  | isIn hl hne hm hvals =>
    obtain ⟨order, horder, hvalues⟩ := hvals.reads he.2.2
    exact ⟨_, .set .isIn rfl he.1.solid (he.1.notMem (by simp)) hl hne hm hvalues List.not_mem_nil,
      .isIn fun v => (horder v).symm⟩
  | notIn hl hne hm hvals =>
    obtain ⟨order, horder, hvalues⟩ := hvals.reads he.2.2
    exact ⟨_, .set .notIn rfl he.1.solid (he.1.notMem (by simp)) hl hne hm hvalues List.not_mem_nil,
      .notIn fun v => (horder v).symm⟩
  | @equal key value l r hl hr =>
    have hx : Lib.Padded isWhitespace key.toList (key.toList ++ l) := .append_blank hl
    have hy : Lib.Padded isWhitespace value.toList (r ++ value.toList) := .blank_append hr
    have hdouble := equality_uncut he.1 he.2 hx hy ['='] (c := '=') (by simp)
      (show _ < "==".toList.count '=' by decide)
    have hnot := equality_uncut he.1 he.2 hx hy ['='] (c := '!') (by simp)
      (show _ < "!=".toList.count '!' by decide)
    refine ⟨_, .equal (equality_notMem he.1 he.2 hx hy (by decide)) hdouble hnot ?_
      (he.1.notMem_padded hx (by simp)) ⟨he.1.solid, he.2.solid, ⟨l, hl, rfl⟩, ⟨r, hr, rfl⟩⟩, .refl _⟩
    rw [List.append_assoc, List.singleton_append]
  | @doubleEqual key value l r hl hr =>
    have hx : Lib.Padded isWhitespace key.toList (key.toList ++ l) := .append_blank hl
    have hy : Lib.Padded isWhitespace value.toList (r ++ value.toList) := .blank_append hr
    have hcut : cutAt "==".toList (key.toList ++ l ++ ['=', '='] ++ (r ++ value.toList)) = some _ :=
      cutAt_append (p := '=') (he.1.notMem_padded hx (by simp)) _
    exact ⟨_, .doubleEqual (equality_notMem he.1 he.2 hx hy (by decide)) hcut
      ⟨he.1.solid, he.2.solid, ⟨l, hl, rfl⟩, ⟨r, hr, rfl⟩⟩, .refl _⟩
  | @notEqual key value l r hl hr =>
    have hx : Lib.Padded isWhitespace key.toList (key.toList ++ l) := .append_blank hl
    have hy : Lib.Padded isWhitespace value.toList (r ++ value.toList) := .blank_append hr
    -- one `=` is no `==`
    have hdouble := equality_uncut he.1 he.2 hx hy ['!', '='] (c := '=') (by simp)
      (show _ < "==".toList.count '=' by decide)
    have hcut : cutAt "!=".toList (key.toList ++ l ++ ['!', '='] ++ (r ++ value.toList)) = some _ :=
      cutAt_append (p := '!') (he.1.notMem_padded hx (by simp)) _
    exact ⟨_, .notEqual (equality_notMem he.1 he.2 hx hy (by decide)) hdouble hcut
      ⟨he.1.solid, he.2.solid, ⟨l, hl, rfl⟩, ⟨r, hr, rfl⟩⟩, .refl _⟩
  | @«exists» key =>
    have hkey : IsWord key := he
    refine ⟨_, .exists (hkey.notMem (by simp)) (hkey.notMem (by simp)) (fun hhead => ?_) rfl hkey.solid,
      .refl _⟩
    exact hkey.notMem (by simp) (List.mem_of_head? hhead)
  | @doesNotExist key l hl =>
    have hkey : IsWord key := he
    have hchars : ∀ c ∈ ['(', ')', ',', '=', '!'], c ≠ '!' → c ∉ '!' :: (l ++ key.toList) := by
      intro c hc hbang hmem
      rcases List.mem_cons.mp hmem with rfl | hmem
      · exact hbang rfl
      · exact hkey.notMem_padded (.blank_append hl) hc hmem
    exact ⟨_, .doesNotExist (hchars _ (by simp) (by decide)) (hchars _ (by simp) (by decide)) rfl hl
      hkey.solid, .refl _⟩

/-- **Every printed requirement is read back.** -/
theorem parseRequirement_prints {e : Expression} (he : e.Plain) {text : List Char}
    (h : e.Prints text) : ∃ e', parseRequirement (String.ofList text) = .ok e' ∧ e.Same e' := by
  obtain ⟨r, hreads, hsame⟩ := h.reads he
  obtain ⟨e', hparse, hsame'⟩ := parseRequirement_of_reads hreads
  exact ⟨e', hparse, hsame.trans hsame'⟩

/-! ### The commas outside of the parentheses -/

/-- Reading `x` at depth `d` cuts nothing and ends at depth `e`. -/
def Moves (d : Int) (x : List Char) (e : Int) : Prop :=
  ∀ rest part parts,
    splitTopLevel (x ++ rest) d part parts = splitTopLevel rest e (part ++ x) parts

theorem Moves.append {d e f : Int} {x y : List Char} (hx : Moves d x e) (hy : Moves e y f) :
    Moves d (x ++ y) f := by
  intro rest part parts
  rw [List.append_assoc, hx, hy, List.append_assoc]

theorem Moves.nil (d : Int) : Moves d [] d := by
  intro rest part parts
  rw [List.nil_append, List.append_nil]

theorem Moves.char {d : Int} {c : Char} (h : c ≠ '(' ∧ c ≠ ')' ∧ (c = ',' → d ≠ 0)) :
    Moves d [c] d := by
  intro rest part parts
  have hcut : ¬ (c = ',' ∧ d = 0) := fun hc => h.2.2 hc.1 hc.2
  rw [List.singleton_append, splitTopLevel, if_neg h.1, if_neg h.2.1, if_neg hcut]

theorem Moves.opening (d : Int) : Moves d ['('] (d + 1) := by
  intro rest part parts
  rw [List.singleton_append, splitTopLevel, if_pos rfl]

theorem Moves.closing {d : Int} (h : 0 < d) : Moves d [')'] (d - 1) := by
  intro rest part parts
  rw [List.singleton_append, splitTopLevel, if_neg (by decide), if_pos rfl, if_neg (by omega)]

/-- No parentheses, and commas only inside of some. -/
theorem Moves.of_forall {d : Int} : ∀ {x : List Char},
    (∀ c ∈ x, c ≠ '(' ∧ c ≠ ')' ∧ (c = ',' → d ≠ 0)) → Moves d x d
  | [], _ => Moves.nil d
  | c :: x, h => by
    exact (Moves.char (h c List.mem_cons_self)).append (Moves.of_forall fun c hc => h c (List.mem_cons_of_mem _ hc))

theorem Moves.word {w : String} (hw : IsWord w) : Moves 0 w.toList 0 := by
  refine Moves.of_forall fun c hc => ⟨?_, ?_, ?_⟩
  · rintro rfl
    exact hw.notMem (by simp) hc
  · rintro rfl
    exact hw.notMem (by simp) hc
  · rintro rfl
    exact absurd hc (hw.notMem (by simp))

theorem Moves.spaces {l : List Char} (hl : Spaces l) : Moves 0 l 0 := by
  refine Moves.of_forall fun c hc => ⟨?_, ?_, ?_⟩
  · rintro rfl
    exact Spaces.notMem hl (by decide) hc
  · rintro rfl
    exact Spaces.notMem hl (by decide) hc
  · rintro rfl
    exact absurd hc (Spaces.notMem hl (by decide))

/-- The parentheses of a set and what stands in them. -/
theorem Moves.values {values : List String} (hw : ∀ v ∈ values, IsWord v) {text : List Char}
    (h : PrintsValues values text) : Moves 0 ('(' :: text ++ [')']) 0 := by
  obtain ⟨order, horder, hjoined⟩ := h
  have htext : Moves 1 text 1 := by
    refine Moves.of_forall fun c hc => ?_
    have hparens : c ≠ '(' ∧ c ≠ ')' := by
      refine hjoined.forall_mem (fun c => c ≠ '(' ∧ c ≠ ')') ?_ (by decide) ?_ c hc
      · intro c hc
        refine ⟨?_, ?_⟩
        · rintro rfl
          exact absurd hc (by decide)
        · rintro rfl
          exact absurd hc (by decide)
      · rintro v hv _ rfl c hc
        have hv' := hw v ((horder v).mp hv)
        refine ⟨?_, ?_⟩
        · rintro rfl
          exact hv'.notMem (by simp) hc
        · rintro rfl
          exact hv'.notMem (by simp) hc
    exact ⟨hparens.1, hparens.2, fun _ => by decide⟩
  exact ((Moves.opening 0).append htext).append (Moves.closing (by decide))

/-- **A printed requirement is not cut.** -/
theorem Expression.Prints.moves {e : Expression} {text : List Char} (h : e.Prints text)
    (he : e.Plain) : Moves 0 text 0 := by
  cases h with
  | isIn hl _ hm hvals =>
    exact ((((Moves.word he.1).append (.spaces hl)).append (.word SetOp.isIn.token_word)).append
      (.spaces hm)).append (.values he.2.2 hvals)
  | notIn hl _ hm hvals =>
    exact ((((Moves.word he.1).append (.spaces hl)).append (.word SetOp.notIn.token_word)).append
      (.spaces hm)).append (.values he.2.2 hvals)
  | equal hl hr =>
    exact (((Moves.word he.1).append (.spaces hl)).append (.char (by decide))).append
      ((Moves.spaces hr).append (.word he.2))
  | doubleEqual hl hr | notEqual hl hr =>
    have hop : ∀ c, c = '=' ∨ c = '!' → Moves 0 [c, '='] 0 := by
      rintro c (rfl | rfl)
      · exact (Moves.char (by decide)).append (.char (by decide))
      · exact (Moves.char (by decide)).append (.char (by decide))
    exact (((Moves.word he.1).append (.spaces hl)).append (hop _ (by decide))).append
      ((Moves.spaces hr).append (.word he.2))
  | «exists» => exact .word he
  | doesNotExist hl =>
    exact Moves.append (x := ['!']) (.char (by decide))
      ((Moves.spaces hl).append (.word he))

/-- What cutting a text at its top-level commas leaves. -/
def Cuts (x : List Char) (xs : List (List Char)) : Prop :=
  ∀ parts, splitTopLevel x 0 [] parts = .ok (parts ++ xs.map String.ofList)

theorem Cuts.one {x : List Char} (hx : Moves 0 x 0) : Cuts x [x] := by
  intro parts
  rw [← List.append_nil x, hx, splitTopLevel, if_neg (by decide)]
  simp

theorem Cuts.more {x rest : List Char} {xs : List (List Char)} (hx : Moves 0 x 0) (hrest : Cuts rest xs) :
    Cuts (x ++ ',' :: rest) (x :: xs) := by
  intro parts
  rw [hx, splitTopLevel, if_neg (by decide), if_neg (by decide), if_pos ⟨rfl, rfl⟩, hrest]
  simp

theorem Moves.padded {t x : List Char} (h : Moves 0 t 0) (hpad : Lib.Padded isWhitespace t x) :
    Moves 0 x 0 := by
  obtain ⟨pre, post, hpre, hpost, rfl⟩ := hpad
  exact ((Moves.spaces hpre).append h).append (.spaces hpost)

/-- A list of items that are not cut gives them, one a piece. -/
theorem Cuts.of_joined {α : Type} {prints : α → List Char → Prop}
    (hmoves : ∀ a t, prints a t → Moves 0 t 0) {as : List α} {text : List Char}
    (h : Lib.Joined isWhitespace ',' prints as text) : ∃ pieces, Cuts text pieces ∧
      List.Forall₂ (fun a piece => ∃ t, prints a t ∧ Lib.Padded isWhitespace t piece) as pieces :=
  h.splits Cuts (fun x => Moves 0 x 0) (fun _ hx => .one hx) (fun _ _ _ hx hrest => .more hx hrest)
    fun a t _ ha hpad => (hmoves a t ha).padded hpad

/-! ### The round trip -/

theorem trim_spaces {text : String} (h : Spaces text.toList) : trim text = "" := by
  have hnil : Lib.trimBoth isWhitespace text.toList = [] := Lib.Blank.trimBoth h
  exact congrArg String.ofList hnil

theorem parseLabelSelector_blank {text : String} (h : Spaces text.toList) :
    parseLabelSelector text = .ok [] := by
  rw [parseLabelSelector, if_pos (trim_spaces h)]

/-- If every piece is read, so is the list. -/
theorem mapM_parseRequirement {α : Type} {Read : α → Expression → Prop} {as : List α} {reqs : List String}
    (h : List.Forall₂ (fun a req => ∃ e, parseRequirement (trim req) = .ok e ∧ Read a e) as reqs) :
    ∃ es, (reqs.mapM fun req => parseRequirement (trim req)) = .ok es ∧ List.Forall₂ Read as es := by
  induction h with
  | nil => exact ⟨[], rfl, .nil⟩
  | @cons a req as reqs ha _ ih =>
    obtain ⟨e, hparse, hread⟩ := ha
    obtain ⟨es, hes, hall⟩ := ih
    refine ⟨e :: es, ?_, .cons hread hall⟩
    rw [List.mapM_cons, hparse, hes]
    rfl

/-- **A list of items that are not cut and that the parser reads** is read, one by one. -/
theorem parseLabelSelector_joined {α : Type} {prints : α → List Char → Prop}
    {Read : α → Expression → Prop} (hsolid : ∀ a t, prints a t → Lib.Solid isWhitespace t)
    (hmoves : ∀ a t, prints a t → Moves 0 t 0)
    (hparse : ∀ a t, prints a t → ∃ e, parseRequirement (String.ofList t) = .ok e ∧ Read a e)
    {as : List α} {text : String} (h : Lib.Joined isWhitespace ',' prints as text.toList) :
    ∃ es, parseLabelSelector text = .ok es ∧ List.Forall₂ Read as es := by
  have hjoined : Lib.Joined isWhitespace ',' prints as (trim text).toList := by
    rw [trim, String.toList_ofList]
    exact h.trim hsolid (by decide)
  obtain ⟨pieces, hsplit, hpieces⟩ := Cuts.of_joined hmoves hjoined
  have hread : List.Forall₂ (fun a req => ∃ e, parseRequirement (trim req) = .ok e ∧ Read a e)
      as (pieces.map String.ofList) := by
    rw [List.forall₂_map_right_iff]
    refine hpieces.imp ?_
    rintro a piece ⟨t, ha, hpad⟩
    obtain ⟨e, he, hread⟩ := hparse a t ha
    exact ⟨e, by rw [trim_padded (hsolid a t ha) hpad, he], hread⟩
  obtain ⟨es, hes, hall⟩ := mapM_parseRequirement hread
  have hne : trim text ≠ "" := by
    intro hblank
    rw [hblank] at hjoined
    exact hjoined.ne_nil hsolid rfl
  have hcut : splitTopLevelRequirements (trim text) = .ok (pieces.map String.ofList) := hsplit []
  refine ⟨es, ?_, hall⟩
  rw [parseLabelSelector, if_neg hne, hcut]
  exact hes

/-- **Every printed list is read back.** -/
theorem parseLabelSelector_prints {es : Selector} (hes : ∀ e ∈ es, e.Plain) {text : String}
    (h : es.Prints text.toList) :
    ∃ es', parseLabelSelector text = .ok es' ∧ List.Forall₂ Expression.Same es es' := by
  cases es with
  | nil => exact ⟨[], parseLabelSelector_blank h, .nil⟩
  | cons e es =>
    have hjoined : Lib.Joined isWhitespace ',' (fun e t => e.Plain ∧ e.Prints t) (e :: es) text.toList :=
      Lib.Joined.imp h _ fun e he t ht => ⟨hes e he, ht⟩
    exact parseLabelSelector_joined (fun _ _ ht => ht.2.solid ht.1) (fun _ _ ht => ht.2.moves ht.1)
      (fun _ _ ht => parseRequirement_prints ht.1 ht.2) hjoined

/-- **The round trip of label selectors.**  A printed list of requirements is read back, value
sets as sets; whitespace is the selector that matches everything. -/
theorem label_selector_round_trip :
    (∀ (es : Selector) (text : String), (∀ e ∈ es, e.Plain) → es.Prints text.toList →
      ∃ es', parseLabelSelector text = .ok es' ∧ List.Forall₂ Expression.Same es es' ∧
        ∀ labels, Selector.matches es' labels = es.matches labels) ∧
    ∀ text : String, Spaces text.toList → Selector.Prints [] text.toList ∧
      parseLabelSelector text = .ok [] ∧ ∀ labels, Selector.matches [] labels = true := by
  refine ⟨fun es text hes h => ?_, fun text h => ⟨h, parseLabelSelector_blank h, fun _ => rfl⟩⟩
  obtain ⟨es', hparse, hsame⟩ := parseLabelSelector_prints hes h
  exact ⟨es', hparse, hsame, fun labels => Selector.matches_same hsame labels⟩

/-- `tier` is `critical`, `env` one of two, and there is no `legacy`. -/
theorem label_selector_round_trip_threeForms :
    ∃ es', parseLabelSelector " tier== critical ,env in( staging ,prod),! legacy" = .ok es' ∧
      List.Forall₂ Expression.Same
        [.equal "tier" "critical", .isIn "env" ["prod", "staging"], .doesNotExist "legacy"] es' := by
  have hblank : Spaces [' '] := List.forall_mem_singleton.mpr (by decide)
  have hnone : Spaces [] := fun c hc => absurd hc List.not_mem_nil
  have hequal : Expression.Prints (.equal "tier" "critical") "tier== critical".toList :=
    .doubleEqual hnone hblank
  have hvalues : PrintsValues ["prod", "staging"] " staging ,prod".toList := by
    have hstaging : Lib.Padded isWhitespace "staging".toList " staging ".toList :=
      ⟨[' '], [' '], hblank, hblank, rfl⟩
    have hjoined : Lib.Joined isWhitespace ',' (fun (v : String) t => t = v.toList)
        ["staging", "prod"] (" staging ".toList ++ ',' :: "prod".toList) :=
      .more rfl hstaging (.one rfl (.refl isWhitespace _))
    exact ⟨["staging", "prod"], fun v => by simp [or_comm], hjoined⟩
  have hin : Expression.Prints (.isIn "env" ["prod", "staging"])
      "env in( staging ,prod)".toList :=
    .isIn hblank (List.cons_ne_nil _ _) hnone hvalues
  have hnot : Expression.Prints (.doesNotExist "legacy") "! legacy".toList := .doesNotExist hblank
  have hprints : Selector.Prints
      [.equal "tier" "critical", .isIn "env" ["prod", "staging"], .doesNotExist "legacy"]
      " tier== critical ,env in( staging ,prod),! legacy".toList :=
    .more hequal ⟨[' '], [' '], hblank, hblank, rfl⟩
      (.more hin (.refl isWhitespace _) (.one hnot (.refl isWhitespace _)))
  have hplain : ∀ e ∈ [Expression.equal "tier" "critical", .isIn "env" ["prod", "staging"],
      .doesNotExist "legacy"], e.Plain := by
    have hwords : (IsWord "tier" ∧ IsWord "critical") ∧ (IsWord "env" ∧
        IsWord "prod" ∧ IsWord "staging") ∧ IsWord "legacy" := by
      decide
    simpa [Expression.Plain] using hwords
  obtain ⟨es', hparse, hsame, _⟩ := label_selector_round_trip.1 _ _ hplain hprints
  exact ⟨es', hparse, hsame⟩

/-! ### The filter of a request -/

/-- A blank label selector leaves the names. -/
theorem SubscribeFilter.new_blank (names : List String) {text : String} (h : Spaces text.toList) :
    SubscribeFilter.new names text = .ok (.ofNames names) := by
  rw [SubscribeFilter.new, parseLabelSelector_blank h]
  rfl

/-- **What a subscriber receives** is what has one of the names asked for, if any, and labels
that meet the printed requirements. -/
theorem SubscribeFilter.new_prints (names : List String) {es : Selector}
    (hes : ∀ e ∈ es, e.Plain) {text : String} (h : es.Prints text.toList) :
    ∃ f, SubscribeFilter.new names text = .ok f ∧ ∀ name labels,
      f.allow name labels = ((names.isEmpty || decide (name ∈ names)) && es.matches labels) := by
  obtain ⟨es', hparse, hsame⟩ := parseLabelSelector_prints hes h
  refine ⟨{ names := if names.isEmpty then none else some names, selector := es' }, ?_, ?_⟩
  · rw [SubscribeFilter.new, hparse]
    rfl
  · intro name labels
    rw [SubscribeFilter.allow, Selector.matches_same hsame]
    cases hnames : names.isEmpty with
    | true => rfl
    | false => rfl

end Konfig
