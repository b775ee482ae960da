import Konfig.Subscribe.Selector

/-!
# What the selector parser lets through

The parser finds its operators by searching, and trims what is left and right of them.  So
it takes any text for a key or a value, as long as the text is not blank, and does not read
what follows the last closing parenthesis.

* `parseRequirement_sound`: a text is accepted only if the search finds a requirement in it
  (`parseRequirement_of_reads`: then it is).
* `Selector.Reads`, `parseLabelSelector_of_reads`, `parseLabelSelector_sound`: the same for lists.
* `rejects_parseLabelSelector`: everything else is an `INVALID_ARGUMENT`.
* `parseLabelSelector_strict_iff`: the parser keeps to the grammar where all that it finds are
  words, with nothing behind the parentheses.
-/

namespace Konfig

/-! ### Failures -/

/-- A failure is an `INVALID_ARGUMENT`. -/
def Rejects {α : Type} (x : Except Status α) : Prop :=
  ∀ status, x = .error status → status.code = .invalidArgument

namespace Rejects

variable {α β : Type}

theorem ok (a : α) : Rejects (.ok a : Except Status α) := fun _ h => nomatch h

theorem invalid (what : String) : Rejects (.error (invalidSelector what) : Except Status α) := by
  rintro _ ⟨⟩
  rfl

theorem bind {x : Except Status α} {f : α → Except Status β} (hx : Rejects x) (hf : ∀ a, Rejects (f a)) :
    Rejects (x >>= f) := by
  cases x with
  | ok a => exact hf a
  | error status =>
    rintro _ ⟨⟩
    exact hx status rfl

end Rejects

theorem rejects_splitTopLevel (text : List Char) :
    ∀ depth part parts, Rejects (splitTopLevel text depth part parts) := by
  induction text with
  | nil =>
    intro depth part parts
    rw [splitTopLevel]
    split
    · exact .invalid _
    · exact .ok _
  | cons ch rest ih =>
    intro depth part parts
    rw [splitTopLevel]
    split_ifs
    · exact ih _ _ _
    · exact .invalid _
    · exact ih _ _ _
    · exact ih _ _ _
    · exact ih _ _ _

theorem rejects_parseKey (key : String) : Rejects (parseKey key) := by
  unfold parseKey
  split
  · exact .invalid _
  · exact .ok _

theorem rejects_parseValue (value : String) : Rejects (parseValue value) := by
  unfold parseValue
  split
  · exact .invalid _
  · exact .ok _

theorem rejects_splitSetHead (head : String) : Rejects (splitSetHead head) := by
  unfold splitSetHead
  split
  · exact .invalid _
  split_ifs
  · exact .bind (.ok _) fun op => .bind (rejects_parseKey _) fun key => .ok _
  · exact .bind (.ok _) fun op => .bind (rejects_parseKey _) fun key => .ok _
  · exact .bind (.invalid _) fun op => .bind (rejects_parseKey _) fun key => .ok _

theorem rejects_insertValues (values : List String) : ∀ set, Rejects (insertValues values set) := by
  induction values with
  | nil => exact fun set => .ok set
  | cons v vs ih =>
    intro set
    rw [insertValues]
    split
    · exact .invalid _
    · exact ih _

theorem rejects_parseValueSet (text : String) : Rejects (parseValueSet text) := by
  refine .bind (rejects_insertValues _ _) fun set => ?_
  split
  · exact .invalid _
  · exact .ok _

theorem rejects_parseRequirement (req : String) : Rejects (parseRequirement req) := by
  unfold parseRequirement
  split
  · exact .invalid _
  split
  · split
    · exact .invalid _
    · split
      · exact .invalid _
      · refine .bind (rejects_splitSetHead _) fun p => .bind (rejects_parseValueSet _) fun values => ?_
        split
        · exact .ok _
        · exact .ok _
  split
  · exact .bind (rejects_parseKey _) fun _ => .bind (rejects_parseValue _) fun _ => .ok _
  split
  · exact .bind (rejects_parseKey _) fun _ => .bind (rejects_parseValue _) fun _ => .ok _
  split
  · exact .bind (rejects_parseKey _) fun _ => .bind (rejects_parseValue _) fun _ => .ok _
  split
  · exact .bind (rejects_parseKey _) fun _ => .ok _
  · exact .bind (rejects_parseKey _) fun _ => .ok _

/-- **Every failure of the parser is an `INVALID_ARGUMENT`.** -/
theorem rejects_parseLabelSelector (text : String) : Rejects (parseLabelSelector text) := by
  unfold parseLabelSelector
  split
  · exact .ok _
  · refine .bind (rejects_splitTopLevel _ _ _ _) fun requirements => ?_
    induction requirements with
    | nil => exact .ok _
    | cons req requirements ih =>
      rw [List.mapM_cons]
      exact .bind (rejects_parseRequirement _) fun e => .bind ih fun es => .ok _

theorem ok_of_bind {α β : Type} {x : Except Status α} {f : α → Except Status β} {b : β}
    (h : x >>= f = .ok b) : ∃ a, x = .ok a ∧ f a = .ok b := by
  cases x with
  | error status => cases h
  | ok a => exact ⟨a, rfl, h⟩

/-! ### What is accepted -/

theorem trim_ofList (x : List Char) : trim (String.ofList x) = String.ofList (Lib.trimBoth isWhitespace x) := by
  rw [trim, String.toList_ofList]
  rfl

/-- What a text that is not blank is trimmed to. -/
theorem solid_trim {x : List Char} (h : trim (String.ofList x) ≠ "") :
    Lib.Solid isWhitespace (trim (String.ofList x)).toList ∧
      Lib.Padded isWhitespace (trim (String.ofList x)).toList x := by
  rw [trim_ofList] at h ⊢
  rw [String.toList_ofList]
  refine ⟨Lib.solid_trimBoth fun hnil => h (by rw [hnil]), Lib.padded_trimBoth isWhitespace x⟩

theorem parseKey_sound {x : List Char} {key : String} (h : parseKey (String.ofList x) = .ok key) :
    Lib.Solid isWhitespace key.toList ∧ Lib.Padded isWhitespace key.toList x := by
  unfold parseKey at h
  split at h
  · cases h
  · next hne =>
    obtain rfl := Except.ok.inj h
    exact solid_trim hne

theorem parseValue_sound {x : List Char} {value : String} (h : parseValue (String.ofList x) = .ok value) :
    Lib.Solid isWhitespace value.toList ∧ Lib.Padded isWhitespace value.toList x := by
  unfold parseValue at h
  split at h
  · cases h
  · next hne =>
    obtain rfl := Except.ok.inj h
    exact solid_trim hne

/-- A key and a value that were read on the two sides of an operator. -/
theorem around_of_parse {text a op b : List Char} (hs : Lib.Solid isWhitespace text) (htext : text = a ++ op ++ b)
    {f : String → String → Expression} {e : Expression}
    (h : (do
      let key ← parseKey (String.ofList a)
      let value ← parseValue (String.ofList b)
      return f key value) = Except.ok e) : ∃ key value, Around key value a b := by
  obtain ⟨key, hkey, h⟩ := ok_of_bind h
  obtain ⟨value, hvalue, -⟩ := ok_of_bind h
  obtain ⟨hk, hka⟩ := parseKey_sound hkey
  obtain ⟨hv, hvb⟩ := parseValue_sound hvalue
  have hpre : a <+: text := ⟨op ++ b, by rw [htext, List.append_assoc]⟩
  exact ⟨key, value, hk, hv, hka.left hs hpre, hvb.right hs ⟨a ++ op, htext.symm⟩⟩

/-- A text without whitespace is trimmed already. -/
theorem trim_of_forall {w : String} (h : ∀ c ∈ w.toList, isWhitespace c = false) : trim w = w := by
  by_cases hempty : w = ""
  · subst hempty
    rfl
  · have hsolid : Lib.Solid isWhitespace w.toList :=
      .of_forall (fun hnil => hempty (String.toList_eq_nil_iff.mp hnil)) h
    have htrim := trim_solid hsolid (.refl isWhitespace _)
    rwa [String.ofList_toList] at htrim

/-- A key, an operator, and blanks between them. -/
theorem splitSetHead_sound {x : List Char} {key : String} {op : SetOp}
    (h : splitSetHead (trim (String.ofList x)) = .ok (key, op)) :
    Lib.Solid isWhitespace key.toList ∧ ∃ pre l m, Spaces pre ∧ Spaces l ∧ l ≠ [] ∧ Spaces m ∧
      x = pre ++ (key.toList ++ l ++ op.token.toList ++ m) := by
  unfold splitSetHead at h
  split at h
  · cases h
  next keyPart opToken hcut =>
  obtain ⟨c, hc, htoken, hhead⟩ := exists_of_rsplitOnceWhitespace hcut
  rw [trim_of_forall htoken] at h
  have hop : opToken = op.token ∧ parseKey keyPart = .ok key := by
    split_ifs at h with hin hnotin
    · obtain ⟨op', hop', h⟩ := ok_of_bind h
      obtain ⟨k, hkey, h⟩ := ok_of_bind h
      cases hop'
      cases h
      exact ⟨hin, hkey⟩
    · obtain ⟨op', hop', h⟩ := ok_of_bind h
      obtain ⟨k, hkey, h⟩ := ok_of_bind h
      cases hop'
      cases h
      exact ⟨hnotin, hkey⟩
    · cases h
  obtain ⟨rfl, hkey⟩ := hop
  have hne : trim (String.ofList x) ≠ "" := by
    intro hnil
    rw [hnil] at hhead
    simp at hhead
  obtain ⟨pre, post, hpre, hpost, hx⟩ := (solid_trim hne).2
  rw [← String.ofList_toList (s := keyPart)] at hkey
  obtain ⟨hk, l, r, hl, hr, hkeyPart⟩ := parseKey_sound hkey
  refine ⟨hk, pre ++ l, r ++ [c], post, hpre.append hl, hr.append ?_, by simp, hpost, ?_⟩
  · exact List.forall_mem_singleton.mpr hc
  · rw [hx, hhead, hkeyPart]
    simp only [List.append_assoc, List.cons_append, List.nil_append]

theorem insertValues_sound {pieces : List String} : ∀ {set set' : List String},
    insertValues pieces set = .ok set' → ∀ piece ∈ pieces, trim piece ≠ "" := by
  induction pieces with
  | nil => exact fun _ piece hmem => absurd hmem List.not_mem_nil
  | cons v vs ih =>
    intro set set' h
    rw [insertValues] at h
    split_ifs at h with hv
    exact List.forall_mem_cons.mpr ⟨hv, ih h⟩

/-- The values between the commas. -/
theorem parseValueSet_sound {body : List Char} {set : List String}
    (h : parseValueSet (String.ofList body) = .ok set) : ∃ values, ReadsValues values body := by
  obtain ⟨set', hset, -⟩ := ok_of_bind h
  have hne := insertValues_sound hset
  rw [split, String.toList_ofList] at hne
  have hpieces : List.Forall₂ (fun v piece => ∃ t, (t = v.toList ∧ Lib.Solid isWhitespace t ∧ ',' ∉ t) ∧
      Lib.Padded isWhitespace t piece)
      ((body.splitOn ',').map fun piece => trim (String.ofList piece)) (body.splitOn ',') := by
    rw [List.forall₂_map_left_iff]
    refine List.forall₂_same.mpr fun piece hmem => ?_
    obtain ⟨hsolid, hpad⟩ := solid_trim (hne _ (List.mem_map_of_mem hmem))
    refine ⟨_, ⟨rfl, hsolid, fun hcomma => ?_⟩, hpad⟩
    exact Lib.notMem_of_mem_splitOn piece hmem (hpad.subset hcomma)
  have hjoined : Lib.Joined isWhitespace ',' _ _ _ :=
    Lib.Joined.of_pieces hpieces (List.splitOn_ne_nil ',' body)
  rw [List.intercalate_splitOn] at hjoined
  exact ⟨_, hjoined⟩

/-- What stands before the first `(` and after the last `)`, and what stands between them. -/
theorem exists_of_parens {text a rest a' tail : List Char} (hopen : text = a ++ '(' :: rest)
    (hclose : text = a' ++ ')' :: tail) (horder : ¬ a'.length < a.length) :
    ∃ body, text = a ++ '(' :: (body ++ ')' :: tail) := by
  rcases List.append_eq_append_iff.mp (hopen.symm.trans hclose) with
    ⟨between, rfl, hrest⟩ | ⟨between, rfl, hrest⟩
  · cases between with
    | nil => cases hrest
    | cons c body =>
      obtain ⟨rfl, rfl⟩ := List.cons.inj hrest
      exact ⟨body, hopen⟩
  · cases between with
    | nil => cases hrest
    | cons c body =>
      rw [List.length_append, List.length_cons] at horder
      exact absurd (by omega) horder

theorem parseRequirement_sound_set {text a rest : List Char} {e : Expression}
    (hs : Lib.Solid isWhitespace text) (hopen : text = a ++ '(' :: rest) (ha : '(' ∉ a)
    (h : parseRequirement (String.ofList text) = .ok e) : ∃ e tail, Expression.Reads text e tail := by
  have hfind : find (String.ofList text) '(' = some a.length :=
    find_eq_some (by rw [String.toList_ofList, hopen]) ha
  have hbody : ∃ body tail, text = a ++ '(' :: (body ++ ')' :: tail) ∧ ')' ∉ tail := by
    rw [parseRequirement, if_neg (ofList_ne_empty hs.ne), hfind] at h
    cases hclose : rfind (String.ofList text) ')' with
    | none =>
      simp only [hclose] at h
      cases h
    | some close =>
      simp only [hclose] at h
      split_ifs at h with horder
      obtain ⟨a', tail, htext, htail, rfl⟩ := exists_of_rfind hclose
      rw [String.toList_ofList] at htext
      obtain ⟨body, hbody⟩ := exists_of_parens hopen htext horder
      exact ⟨body, tail, hbody, htail⟩
  obtain ⟨body, tail, htext, htail⟩ := hbody
  rw [parseRequirement_parens (by rw [String.toList_ofList, htext]) ha htail] at h
  obtain ⟨⟨key, op⟩, hhead, h⟩ := ok_of_bind h
  obtain ⟨set, hset, h⟩ := ok_of_bind h
  obtain ⟨hkey, pre, l, m, hpre, hl, hne, hm, hx⟩ := splitSetHead_sound hhead
  obtain ⟨values, hvalues⟩ := parseValueSet_sound hset
  have hnil : pre = [] := hs.eq_nil_of_prefix hpre
    ⟨key.toList ++ l ++ op.token.toList ++ m ++ '(' :: (body ++ ')' :: tail), by
      rw [htext, hx]
      simp only [List.append_assoc]⟩
  rw [hnil, List.nil_append] at hx
  refine ⟨_, tail, .set op (htext.trans (by rw [hx])) hkey (fun hmem => ha ?_) hl hne hm hvalues htail⟩
  rw [hx]
  simp only [List.mem_append]
  exact .inl (.inl (.inl hmem))

/-- **What the parser accepts, the search finds.** -/
theorem parseRequirement_sound {text : List Char} {e : Expression} (hs : Lib.Solid isWhitespace text)
    (h : parseRequirement (String.ofList text) = .ok e) : ∃ e tail, Expression.Reads text e tail := by
  by_cases hparen : '(' ∈ text
  · obtain ⟨a, rest, hopen, ha⟩ := List.eq_append_cons_of_mem hparen
    exact parseRequirement_sound_set hs hopen ha h
  rw [parseRequirement, if_neg (ofList_ne_empty hs.ne), find_none_ofList hparen] at h
  simp only [splitOnceStr_ofList] at h
  cases hdouble : cutAt "==".toList text with
  | some ab =>
    obtain ⟨a, b⟩ := ab
    simp only [hdouble, Option.map_some] at h
    obtain ⟨key, value, haround⟩ := around_of_parse hs (cutAt_eq_some hdouble) h
    exact ⟨_, _, .doubleEqual hparen hdouble haround⟩
  | none =>
  cases hnot : cutAt "!=".toList text with
  | some ab =>
    obtain ⟨a, b⟩ := ab
    simp only [hdouble, hnot, Option.map_none, Option.map_some] at h
    obtain ⟨key, value, haround⟩ := around_of_parse hs (cutAt_eq_some hnot) h
    exact ⟨_, _, .notEqual hparen hdouble hnot haround⟩
  | none =>
  simp only [hdouble, hnot, Option.map_none] at h
  cases hequal : splitOnce (String.ofList text) '=' with
  | some ab =>
    obtain ⟨a, b⟩ := ab
    simp only [hequal] at h
    obtain ⟨htext, hfirst⟩ := splitOnce_eq_some.mp hequal
    rw [String.toList_ofList] at htext
    rw [← String.ofList_toList (s := a), ← String.ofList_toList (s := b)] at h
    have hsides : text = a.toList ++ ['='] ++ b.toList := by
      rw [htext, List.append_assoc, List.singleton_append]
    obtain ⟨key, value, haround⟩ := around_of_parse hs hsides h
    exact ⟨_, _, .equal hparen hdouble hnot htext hfirst haround⟩
  | none =>
  have heq : '=' ∉ text := by
    intro hmem
    rw [splitOnce, String.toList_ofList, if_pos hmem] at hequal
    cases hequal
  simp only [hequal] at h
  cases text with
  | nil => exact absurd rfl hs.ne
  | cons c rest =>
  rw [stripPrefix, String.toList_ofList] at h
  by_cases hbang : c = '!'
  · subst hbang
    simp only [if_true] at h
    obtain ⟨key, hkey, h⟩ := ok_of_bind h
    obtain ⟨hk, hpad⟩ := parseKey_sound hkey
    obtain ⟨l, hl, hrest⟩ := hpad.right hs (List.suffix_cons _ _)
    exact ⟨_, _, .doesNotExist hparen heq (by rw [hrest]) hl hk⟩
  · simp only [if_neg hbang] at h
    obtain ⟨key, hkey, h⟩ := ok_of_bind h
    obtain ⟨hk, hpad⟩ := parseKey_sound hkey
    refine ⟨_, _, .exists hparen heq (fun hhead => hbang (Option.some.inj hhead)) ?_ hk⟩
    rw [← Lib.trimBoth_padded hk hpad, Lib.trimBoth_padded hs (.refl isWhitespace _)]

/-! ### The pieces of a list -/

/-- What reading a text does to the depth of the parentheses, where it closes none that is not open
and has commas inside of some only. -/
inductive Level : Int → List Char → Int → Prop
  | nil (d : Int) : Level d [] d
  | opening {d e : Int} {x : List Char} : Level (d + 1) x e → Level d ('(' :: x) e
  | closing {d e : Int} {x : List Char} : 0 < d → Level (d - 1) x e → Level d (')' :: x) e
  | other {d e : Int} {c : Char} {x : List Char} : c ≠ '(' ∧ c ≠ ')' ∧ (c = ',' → d ≠ 0) →
      Level d x e → Level d (c :: x) e

theorem Level.moves {d e : Int} {x : List Char} (h : Level d x e) : Moves d x e := by
  induction h with
  | nil d => exact .nil d
  | opening _ ih => exact (Moves.opening _).append ih
  | closing hd _ ih => exact (Moves.closing hd).append ih
  | other hc _ ih => exact (Moves.char hc).append ih

theorem Level.of_append {x y : List Char} {d e : Int} (h : Level d (x ++ y) e) :
    ∃ m, Level d x m ∧ Level m y e := by
  induction x generalizing d with
  | nil => exact ⟨d, .nil d, h⟩
  | cons c x ih =>
    rw [List.cons_append] at h
    cases h with
    | opening h =>
      obtain ⟨m, hx, hy⟩ := ih h
      exact ⟨m, .opening hx, hy⟩
    | closing hd h =>
      obtain ⟨m, hx, hy⟩ := ih h
      exact ⟨m, .closing hd hx, hy⟩
    | other hc h =>
      obtain ⟨m, hx, hy⟩ := ih h
      exact ⟨m, .other hc hx, hy⟩

theorem Level.eq_of_spaces {l : List Char} {d e : Int} (h : Level d l e) (hl : Spaces l) : d = e := by
  induction h with
  | nil d => rfl
  | opening _ _ => exact absurd List.mem_cons_self (Spaces.notMem hl (by decide))
  | closing _ _ _ => exact absurd List.mem_cons_self (Spaces.notMem hl (by decide))
  | other _ _ ih => exact ih fun c hc => hl c (List.mem_cons_of_mem _ hc)

/-- Blanks change no depth. -/
theorem Level.of_padded {d e : Int} {t x : List Char} (h : Level d x e)
    (hpad : Lib.Padded isWhitespace t x) : Level d t e := by
  obtain ⟨pre, post, hpre, hpost, rfl⟩ := hpad
  obtain ⟨n, hfirst, hlast⟩ := h.of_append
  obtain ⟨m, hbefore, ht⟩ := hfirst.of_append
  rw [hbefore.eq_of_spaces hpre, ← hlast.eq_of_spaces hpost]
  exact ht

/-- **Cut at its top-level commas**, a text falls into pieces whose parentheses are balanced. -/
theorem splitTopLevel_sound {text : List Char} : ∀ {d : Int} {part : List Char} {parts out : List String},
    splitTopLevel text d part parts = .ok out → ∃ x pieces, text = [','].intercalate (x :: pieces) ∧
      out = parts ++ String.ofList (part ++ x) :: pieces.map String.ofList ∧
      Level d x 0 ∧ ∀ piece ∈ pieces, Level 0 piece 0 := by
  induction text with
  | nil =>
    intro d part parts out h
    rw [splitTopLevel] at h
    split_ifs at h with hd
    obtain rfl := Except.ok.inj h
    obtain rfl := not_not.mp hd
    refine ⟨[], [], List.intercalate_singleton.symm, by simp, .nil 0, ?_⟩
    exact fun piece hmem => absurd hmem List.not_mem_nil
  | cons ch rest ih =>
    intro d part parts out h
    -- a character that cuts nothing goes to the front of the first piece
    have hfront : ∀ {e : Int}, splitTopLevel rest e (part ++ [ch]) parts = .ok out →
        (∀ x, Level e x 0 → Level d (ch :: x) 0) → ∃ x pieces,
          ch :: rest = [','].intercalate (x :: pieces) ∧
          out = parts ++ String.ofList (part ++ x) :: pieces.map String.ofList ∧
          Level d x 0 ∧ ∀ piece ∈ pieces, Level 0 piece 0 := by
      intro e h hlevel
      obtain ⟨x, pieces, hrest, hout, hx, hpieces⟩ := ih h
      refine ⟨ch :: x, pieces, ?_, ?_, hlevel x hx, hpieces⟩
      · rw [List.intercalate_cons_cons_left, hrest]
      · rw [hout, List.append_assoc, List.singleton_append]
    rw [splitTopLevel] at h
    split_ifs at h with hopen hclose hdepth hcomma
    · subst hopen
      exact hfront h fun x hx => .opening hx
    · subst hclose
      exact hfront h fun x hx => .closing (by omega) hx
    · obtain ⟨rfl, rfl⟩ := hcomma
      obtain ⟨x, pieces, hrest, hout, hx, hpieces⟩ := ih h
      refine ⟨[], x :: pieces, ?_, ?_, .nil 0, List.forall_mem_cons.mpr ⟨hx, hpieces⟩⟩
      · rw [List.intercalate_cons_cons, hrest, List.nil_append, List.singleton_append]
      · rw [hout, List.append_nil, List.nil_append, List.map_cons, List.append_assoc, List.singleton_append]
    · exact hfront h fun x hx => .other ⟨hopen, hclose, fun hc hd => hcomma ⟨hc, hd⟩⟩ hx

/-! ### What the parser accepts -/

/-- The texts that the parser takes for a list of requirements: between commas outside of all
parentheses, texts in which the search finds a requirement.  A reading has the requirements, each
with what follows its parentheses. -/
def Selector.Reads (readings : List (Expression × List Char)) (text : List Char) : Prop :=
  Lib.Joined isWhitespace ',' (fun (r : Expression × List Char) t =>
    Lib.Solid isWhitespace t ∧ Level 0 t 0 ∧ r.1.Reads t r.2) readings text

/-- **Every such text is accepted.** -/
theorem parseLabelSelector_of_reads {readings : List (Expression × List Char)} {text : String}
    (h : Selector.Reads readings text.toList) : ∃ es, parseLabelSelector text = .ok es := by
  obtain ⟨es, hparse, -⟩ := parseLabelSelector_joined (fun _ _ ht => ht.1)
    (fun _ _ ht => ht.2.1.moves) (fun _ _ ht => parseRequirement_of_reads ht.2.2) h
  exact ⟨es, hparse⟩

theorem mapM_parseRequirement_sound {reqs : List String} : ∀ {es : List Expression},
    (reqs.mapM fun req => parseRequirement (trim req)) = .ok es →
      ∀ req ∈ reqs, ∃ e, parseRequirement (trim req) = .ok e := by
  induction reqs with
  | nil => exact fun _ req hmem => absurd hmem List.not_mem_nil
  | cons req reqs ih =>
    intro es h
    rw [List.mapM_cons] at h
    obtain ⟨e, he, h⟩ := ok_of_bind h
    obtain ⟨es', hes', -⟩ := ok_of_bind h
    exact List.forall_mem_cons.mpr ⟨⟨e, he⟩, ih hes'⟩

/-- The requirement in a piece. -/
theorem exists_reads_of_piece {piece : List Char} (hlevel : Level 0 piece 0) {e : Expression}
    (h : parseRequirement (trim (String.ofList piece)) = .ok e) :
    ∃ r : Expression × List Char, ∃ t, (Lib.Solid isWhitespace t ∧ Level 0 t 0 ∧ r.1.Reads t r.2) ∧
      Lib.Padded isWhitespace t piece := by
  have hne : trim (String.ofList piece) ≠ "" := by
    intro hempty
    rw [hempty] at h
    cases h
  obtain ⟨hsolid, hpad⟩ := solid_trim hne
  rw [← String.ofList_toList (s := trim (String.ofList piece))] at h
  obtain ⟨e, tail, hreads⟩ := parseRequirement_sound hsolid h
  exact ⟨(e, tail), _, ⟨hsolid, hlevel.of_padded hpad, hreads⟩, hpad⟩

theorem forall₂_of_forall_exists {α β : Type} {R : α → β → Prop} {bs : List β}
    (h : ∀ b ∈ bs, ∃ a, R a b) : ∃ as, List.Forall₂ R as bs := by
  induction bs with
  | nil => exact ⟨[], .nil⟩
  | cons b bs ih =>
    obtain ⟨a, ha⟩ := h b List.mem_cons_self
    obtain ⟨as, has⟩ := ih fun b hb => h b (List.mem_cons_of_mem _ hb)
    exact ⟨a :: as, .cons ha has⟩

/-- **No other text is**, but for whitespace. -/
theorem parseLabelSelector_sound {text : String} {es : Selector} (h : parseLabelSelector text = .ok es) :
    Spaces text.toList ∨ ∃ readings, Selector.Reads readings text.toList := by
  have hpad : Lib.Padded isWhitespace (trim text).toList text.toList := by
    rw [trim, String.toList_ofList]
    exact Lib.padded_trimBoth isWhitespace text.toList
  unfold parseLabelSelector at h
  split_ifs at h with hblank
  · refine .inl ?_
    obtain ⟨pre, post, hpre, hpost, htext⟩ := hpad
    rw [htext, hblank]
    exact (hpre.append fun c hc => absurd hc List.not_mem_nil).append hpost
  · refine .inr ?_
    obtain ⟨requirements, hcut, h⟩ := ok_of_bind h
    obtain ⟨x, pieces, htrim, rfl, hx, hpieces⟩ := splitTopLevel_sound hcut
    have hlevel : ∀ piece ∈ x :: pieces, Level 0 piece 0 := List.forall_mem_cons.mpr ⟨hx, hpieces⟩
    have hparse : ∀ req ∈ (x :: pieces).map String.ofList, ∃ e, parseRequirement (trim req) = .ok e :=
      mapM_parseRequirement_sound h
    obtain ⟨readings, hreadings⟩ := forall₂_of_forall_exists fun piece hmem => by
      obtain ⟨e, he⟩ := hparse (String.ofList piece) (List.mem_map_of_mem hmem)
      exact exists_reads_of_piece (hlevel piece hmem) he
    have hjoined : Lib.Joined isWhitespace ',' _ _ _ :=
      Lib.Joined.of_pieces hreadings (List.cons_ne_nil x pieces)
    rw [← htrim] at hjoined
    obtain ⟨pre, post, hpre, hpost, htext⟩ := hpad
    rw [htext]
    exact ⟨readings, hjoined.pad hpost hpre⟩

/-! ### Where the parser keeps to the grammar -/

/-- The texts of the grammar: whitespace, or requirements between commas in one of the printed forms,
with words as keys and values. -/
def InGrammar (text : String) : Prop :=
  ∃ es : Selector, (∀ e ∈ es, e.Plain) ∧ es.Prints text.toList

theorem Expression.Same.plain {e e' : Expression} (h : e.Same e') (he : e.Plain) : e'.Plain := by
  have hne : ∀ {values values' : List String}, (∀ v, v ∈ values ↔ v ∈ values') → values ≠ [] →
      values' ≠ [] := by
    rintro values _ hsame hne rfl
    obtain ⟨v, hv⟩ := List.exists_mem_of_ne_nil values hne
    exact List.not_mem_nil ((hsame v).mp hv)
  cases h with
  | isIn hsame => exact ⟨he.1, hne hsame he.2.1, fun v hv => he.2.2 v ((hsame v).mpr hv)⟩
  | notIn hsame => exact ⟨he.1, hne hsame he.2.1, fun v hv => he.2.2 v ((hsame v).mpr hv)⟩
  | refl => exact he

theorem Expression.Same.symm {e e' : Expression} (h : e.Same e') : e'.Same e := by
  cases h with
  | isIn hsame => exact .isIn fun v => (hsame v).symm
  | notIn hsame => exact .notIn fun v => (hsame v).symm
  | refl => exact .refl _

/-- Words around an operator have no parentheses in them. -/
theorem notMem_equality {key value : String} (hk : IsWord key) (hv : IsWord value) {l op r : List Char}
    (hl : Spaces l) (hop : '(' ∉ op) (hr : Spaces r) : '(' ∉ key.toList ++ l ++ op ++ (r ++ value.toList) := by
  simp only [List.mem_append, not_or]
  exact ⟨⟨⟨hk.notMem (by simp), Spaces.notMem hl (by decide)⟩, hop⟩,
    Spaces.notMem hr (by decide), hv.notMem (by simp)⟩

/-- A printed requirement with a parenthesis ends in one. -/
theorem Expression.Prints.suffix {e : Expression} {text : List Char} (h : e.Prints text) (he : e.Plain)
    (hparen : '(' ∈ text) : [')'] <:+ text := by
  cases h with
  | isIn | notIn => exact ⟨_, List.append_assoc _ _ _⟩
  | equal hl hr | doubleEqual hl hr | notEqual hl hr =>
    exact absurd hparen (notMem_equality he.1 he.2 hl (by decide) hr)
  | «exists» => exact absurd hparen (IsWord.notMem he (by simp))
  | doesNotExist hl =>
    rcases List.mem_cons.mp hparen with hbang | hparen
    · exact absurd hbang (by decide)
    · exact absurd hparen (IsWord.notMem_padded he (.blank_append hl) (by simp))

/-- In a printed requirement the search finds words, and nothing behind the parentheses. -/
theorem Expression.Prints.plain_of_reads {e r : Expression} {text tail : List Char} (h : e.Prints text)
    (he : e.Plain) (hr : r.Reads text tail) : r.Plain ∧ tail = [] := by
  obtain ⟨e', hparse, hsame⟩ := parseRequirement_prints he h
  obtain ⟨r', hparse', hsame'⟩ := parseRequirement_of_reads hr
  obtain rfl : r' = e' := Except.ok.inj (hparse'.symm.trans hparse)
  refine ⟨hsame'.symm.plain (hsame.plain he), ?_⟩
  cases hr with
  | @set op key values l m body tail htext _ _ _ _ _ _ htail =>
    by_contra hne
    have hclose : [')'] <:+ text := h.suffix he (by simp [htext])
    have htail' : tail <:+ text :=
      ⟨key.toList ++ l ++ op.token.toList ++ m ++ '(' :: (body ++ [')']), by simp [htext]⟩
    have hlast : [')'] <:+ tail :=
      List.suffix_of_suffix_length_le hclose htail' (List.length_pos_iff.mpr hne)
    exact htail (hlast.subset List.mem_cons_self)
  | doubleEqual | notEqual | equal | doesNotExist | «exists» => rfl

/-- Words with nothing behind the parentheses are a printed requirement. -/
theorem Expression.Reads.prints {e : Expression} {text : List Char} (h : e.Reads text []) (he : e.Plain) :
    e.Prints text := by
  cases h with
  | @set op key values l m body _ htext _ _ hl hne hm hvalues _ =>
    have hprints : PrintsValues values body := ⟨values, fun v => Iff.rfl, hvalues.imp _ fun v _ t ht => ht.1⟩
    cases op with
    | isIn => exact htext ▸ .isIn hl hne hm hprints
    | notIn => exact htext ▸ .notIn hl hne hm hprints
  | doubleEqual _ hcut haround =>
    obtain ⟨l, hl, rfl⟩ := haround.left
    obtain ⟨r, hr, rfl⟩ := haround.right
    exact cutAt_eq_some hcut ▸ .doubleEqual hl hr
  | notEqual _ _ hcut haround =>
    obtain ⟨l, hl, rfl⟩ := haround.left
    obtain ⟨r, hr, rfl⟩ := haround.right
    exact cutAt_eq_some hcut ▸ .notEqual hl hr
  | @equal key value a b _ _ _ htext _ haround =>
    obtain ⟨l, hl, rfl⟩ := haround.left
    obtain ⟨r, hr, rfl⟩ := haround.right
    rw [htext, ← List.singleton_append, ← List.append_assoc]
    exact .equal hl hr
  | doesNotExist _ _ htext hl _ => exact htext ▸ .doesNotExist hl
  | «exists» _ _ _ htext _ => exact htext ▸ .exists

theorem Cuts.unique {x : List Char} {xs ys : List (List Char)} (h : Cuts x xs) (h' : Cuts x ys) :
    xs = ys := by
  have hmap : xs.map String.ofList = ys.map String.ofList := Except.ok.inj ((h []).symm.trans (h' []))
  exact (List.map_injective_iff.mpr fun _ _ => String.ofList_inj.mp) hmap

theorem exists_of_forall₂ {α β γ : Type} {R : α → γ → Prop} {S : β → γ → Prop} {as : List α}
    {cs : List γ} (h : List.Forall₂ R as cs) : ∀ {bs : List β}, List.Forall₂ S bs cs →
      ∀ b ∈ bs, ∃ a ∈ as, ∃ c, R a c ∧ S b c := by
  induction h with
  | nil =>
    rintro _ ⟨⟩ b hb
    exact absurd hb List.not_mem_nil
  | @cons a c as cs ha _ ih =>
    rintro _ (_ | ⟨hb, hbs⟩)
    refine List.forall_mem_cons.mpr ⟨⟨a, List.mem_cons_self, c, ha, hb⟩, fun b hmem => ?_⟩
    obtain ⟨a', ha', hrest⟩ := ih hbs b hmem
    exact ⟨a', List.mem_cons_of_mem _ ha', hrest⟩

/-- All that is found in a text of the grammar are words, with nothing behind the parentheses. -/
theorem InGrammar.plain_of_reads {text : String} (h : InGrammar text)
    {readings : List (Expression × List Char)} (hreads : Selector.Reads readings text.toList) :
    ∀ r ∈ readings, r.1.Plain ∧ r.2 = [] := by
  obtain ⟨es, hes, hprints⟩ := h
  cases es with
  | nil =>
    have hblank : Lib.trimBoth isWhitespace text.toList = [] := Lib.Blank.trimBoth hprints
    have htrim := Lib.Joined.trim (fun _ _ ht => ht.1) (by decide) hreads
    exact absurd hblank (htrim.ne_nil fun _ _ ht => ht.1)
  | cons e es =>
    have hjoined : Lib.Joined isWhitespace ',' (fun e t => e.Plain ∧ e.Prints t) (e :: es) text.toList :=
      Lib.Joined.imp hprints _ fun e he t ht => ⟨hes e he, ht⟩
    obtain ⟨pieces, hcuts, hprinted⟩ := Cuts.of_joined (fun _ _ ht => ht.2.moves ht.1) hjoined
    obtain ⟨pieces', hcuts', hfound⟩ := Cuts.of_joined (fun _ _ ht => ht.2.1.moves) hreads
    obtain rfl := hcuts.unique hcuts'
    intro r hr
    obtain ⟨e, -, piece, ⟨t, ht, hpad⟩, t', ht', hpad'⟩ := exists_of_forall₂ hprinted hfound r hr
    obtain rfl : t = t' := by
      rw [← Lib.trimBoth_padded (ht.2.solid ht.1) hpad, Lib.trimBoth_padded ht'.1 hpad']
    exact ht.2.plain_of_reads ht.1 ht'.2.2

theorem inGrammar_of_reads {text : String} {readings : List (Expression × List Char)}
    (hreads : Selector.Reads readings text.toList) (h : ∀ r ∈ readings, r.1.Plain ∧ r.2 = []) :
    InGrammar text := by
  refine ⟨readings.map Prod.fst, ?_, ?_⟩
  · intro e he
    obtain ⟨r, hr, rfl⟩ := List.mem_map.mp he
    exact (h r hr).1
  · have hjoined : Lib.Joined isWhitespace ',' Expression.Prints (readings.map Prod.fst) text.toList := by
      refine Lib.Joined.map hreads ?_
      rintro ⟨e, tail⟩ hr t ⟨-, -, hread⟩
      obtain ⟨he, rfl⟩ := h _ hr
      exact hread.prints he
    cases readings with
    | nil => exact absurd rfl hreads.items_ne_nil
    | cons r readings => exact hjoined

/-- **Where the parser keeps to its grammar.**  It accepts no text outside of the grammar, and
answers `INVALID_ARGUMENT` to every such text, exactly where all that the search finds in the text
are words, and nothing follows a requirement's parentheses. -/
theorem parseLabelSelector_strict_iff (text : String) :
    ((∀ es, parseLabelSelector text = .ok es → InGrammar text) ∧
      (¬ InGrammar text →
        ∃ status, parseLabelSelector text = .error status ∧ status.code = .invalidArgument)) ↔
      ∀ readings, Selector.Reads readings text.toList → ∀ r ∈ readings, r.1.Plain ∧ r.2 = [] := by
  constructor
  · rintro ⟨haccepts, -⟩ readings hreads
    obtain ⟨es, hparse⟩ := parseLabelSelector_of_reads hreads
    exact (haccepts es hparse).plain_of_reads hreads
  · intro h
    have haccepts : ∀ es, parseLabelSelector text = .ok es → InGrammar text := by
      intro es hparse
      rcases parseLabelSelector_sound hparse with hblank | ⟨readings, hreads⟩
      · exact ⟨[], fun e he => absurd he List.not_mem_nil, hblank⟩
      · exact inGrammar_of_reads hreads (h readings hreads)
    refine ⟨haccepts, fun hout => ?_⟩
    cases hparse : parseLabelSelector text with
    | ok es => exact absurd (haccepts es hparse) hout
    | error status => exact ⟨status, rfl, rejects_parseLabelSelector text status hparse⟩

/-- A second operator is read as a part of the value. -/
theorem parseLabelSelector_takes_second_operator :
    ¬ ((∀ es, parseLabelSelector "a=b=c" = .ok es → InGrammar "a=b=c") ∧
      (¬ InGrammar "a=b=c" →
        ∃ status, parseLabelSelector "a=b=c" = .error status ∧ status.code = .invalidArgument)) := by
  rintro ⟨haccepts, -⟩
  have hparse : parseLabelSelector "a=b=c" = .ok [.equal "a" "b=c"] := by rfl
  obtain ⟨es, hes, hprints⟩ := haccepts _ hparse
  obtain ⟨es', hparse', hsame⟩ := parseLabelSelector_prints hes hprints
  obtain rfl := Except.ok.inj (hparse.symm.trans hparse')
  obtain ⟨e, _, he, _, rfl⟩ := List.forall₂_cons_right_iff.mp hsame
  have hwords : IsWord "a" ∧ IsWord "b=c" := he.plain (hes e List.mem_cons_self)
  exact absurd hwords.2 (by decide)

end Konfig
