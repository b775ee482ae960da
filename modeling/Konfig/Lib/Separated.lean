import Mathlib.Data.List.DropRight
import Mathlib.Data.List.Forall2

/-!
# Items with blanks around them and separators between them

The texts that print a list of items: each item in one of the ways it may be printed,
any blanks around it, one separator between two items (`Joined`).

* `Joined.trim`: trimming such a text leaves a text of the same items.
* `Joined.splits`: whatever cuts a text at the separators outside of the items reads the
  items back, one a piece, each piece its item and the blanks around it.
* `trimBoth_padded`: trimming the piece leaves the item.
* `Joined.of_pieces`: pieces with items in them and separators between them are such a text.
-/

namespace Lib

variable {C : Type*} {α : Type*}

/-! ### Blanks -/

/-- Only blanks. -/
def Blank (blank : C → Bool) (l : List C) : Prop := ∀ c ∈ l, blank c = true

theorem Blank.append {blank : C → Bool} {l m : List C} (hl : Blank blank l) (hm : Blank blank m) :
    Blank blank (l ++ m) := fun c hc => (List.mem_append.mp hc).elim (hl c) (hm c)

/-- Without the blanks at both ends. -/
def trimBoth (blank : C → Bool) (l : List C) : List C := (l.dropWhile blank).rdropWhile blank

theorem Blank.trimBoth {blank : C → Bool} {l : List C} (h : Blank blank l) :
    trimBoth blank l = [] := by
  rw [Lib.trimBoth, List.dropWhile_eq_nil_iff.mpr h, List.rdropWhile_nil]

/-- Something, with no blank at either end. -/
structure Solid (blank : C → Bool) (l : List C) : Prop where
  ne : l ≠ []
  first : ∀ c ∈ l.head?, blank c = false
  last : ∀ c ∈ l.getLast?, blank c = false

theorem Solid.of_forall {blank : C → Bool} {l : List C} (hne : l ≠ [])
    (h : ∀ c ∈ l, blank c = false) : Solid blank l where
  ne := hne
  first c hc := h c (List.mem_of_mem_head? hc)
  last c hc := h c (List.mem_of_mem_getLast? hc)

theorem Solid.singleton {blank : C → Bool} {c : C} (h : blank c = false) : Solid blank [c] :=
  .of_forall (List.cons_ne_nil c []) (List.forall_mem_singleton.mpr h)

/-- A text is solid when both its ends are. -/
theorem Solid.of_ends {blank : C → Bool} {a b x : List C} (ha : Solid blank a)
    (hb : Solid blank b) (hpre : a <+: x) (hsuf : b <:+ x) : Solid blank x where
  ne := fun h => ha.ne (List.prefix_nil.mp (h ▸ hpre))
  first c hc := by
    obtain ⟨m, rfl⟩ := hpre
    rw [List.head?_append_of_ne_nil _ ha.ne] at hc
    exact ha.first c hc
  last c hc := by
    obtain ⟨m, rfl⟩ := hsuf
    rw [List.getLast?_append_of_ne_nil _ hb.ne] at hc
    exact hb.last c hc

theorem Solid.dropWhile {blank : C → Bool} {l : List C} (h : Solid blank l) (rest : List C) :
    (l ++ rest).dropWhile blank = l ++ rest := by
  cases l with
  | nil => exact absurd rfl h.ne
  | cons c l =>
    have hc : blank c = false := h.first c rfl
    rw [List.cons_append, List.dropWhile_cons_of_neg (by rw [hc]; exact Bool.false_ne_true)]

theorem Solid.rdropWhile {blank : C → Bool} {l : List C} (h : Solid blank l) (rest : List C) :
    (rest ++ l).rdropWhile blank = rest ++ l := by
  rw [List.rdropWhile_eq_self_iff]
  intro hne hb
  have hlast : (rest ++ l).getLast hne ∈ l.getLast? := by
    rw [List.getLast_append_of_ne_nil _ h.ne]
    exact List.getLast?_eq_getLast_of_ne_nil h.ne
  rw [h.last _ hlast] at hb
  exact Bool.false_ne_true hb

/-- A text with blanks around it. -/
def Padded (blank : C → Bool) (text x : List C) : Prop :=
  ∃ pre post, Blank blank pre ∧ Blank blank post ∧ x = pre ++ text ++ post

theorem Padded.refl (blank : C → Bool) (text : List C) : Padded blank text text :=
  ⟨[], [], by simp [Blank], by simp [Blank], by simp⟩

theorem Padded.append_blank {blank : C → Bool} {text post : List C} (h : Blank blank post) :
    Padded blank text (text ++ post) :=
  ⟨[], post, by simp [Blank], h, rfl⟩

theorem Padded.blank_append {blank : C → Bool} {text pre : List C} (h : Blank blank pre) :
    Padded blank text (pre ++ text) :=
  ⟨pre, [], h, by simp [Blank], by simp⟩

theorem Padded.subset {blank : C → Bool} {text x : List C} (h : Padded blank text x) : text ⊆ x := by
  obtain ⟨pre, post, -, -, rfl⟩ := h
  exact fun c hc => List.mem_append_left _ (List.mem_append_right _ hc)

/-- **Trimming a piece leaves the item.** -/
theorem trimBoth_padded {blank : C → Bool} {text x : List C} (hs : Solid blank text)
    (h : Padded blank text x) : trimBoth blank x = text := by
  obtain ⟨pre, post, hpre, hpost, rfl⟩ := h
  have hright : (text ++ post).rdropWhile blank = text := by
    rw [List.rdropWhile, List.reverse_append, List.dropWhile_append_of_pos (by simpa [Blank] using hpost)]
    exact hs.rdropWhile []
  rw [trimBoth, List.append_assoc, List.dropWhile_append_of_pos hpre, hs.dropWhile, hright]

theorem padded_trimBoth (blank : C → Bool) (x : List C) : Padded blank (trimBoth blank x) x := by
  refine ⟨x.takeWhile blank, (x.dropWhile blank).rtakeWhile blank, fun c hc => List.mem_takeWhile_imp hc,
    fun c hc => List.mem_rtakeWhile_imp hc, ?_⟩
  rw [trimBoth, List.append_assoc, List.rdropWhile_append_rtakeWhile, List.takeWhile_append_dropWhile]

/-- What trimming leaves is solid, if it leaves anything. -/
theorem solid_trimBoth {blank : C → Bool} {x : List C} (h : trimBoth blank x ≠ []) :
    Solid blank (trimBoth blank x) where
  ne := h
  first c hc := by
    have hpre : trimBoth blank x <+: x.dropWhile blank := List.rdropWhile_prefix _ _
    have hne : x.dropWhile blank ≠ [] := fun hnil => h (List.prefix_nil.mp (hnil ▸ hpre))
    have hfirst := List.head_dropWhile_not blank hne
    obtain ⟨t, ht⟩ := hpre
    have hhead : (x.dropWhile blank).head? = some c := by
      rw [← ht, List.head?_append_of_ne_nil _ h]
      exact hc
    rw [List.head?_eq_some_head hne, Option.some.injEq] at hhead
    rw [← hhead]
    exact hfirst
  last c hc := by
    have hlast := List.rdropWhile_last_not blank (x.dropWhile blank) h
    rw [List.getLast?_eq_getLast_of_ne_nil h, Option.mem_some_iff] at hc
    rw [← hc]
    exact Bool.eq_false_iff.mpr hlast

/-- No blanks at the start of a solid text. -/
theorem Solid.eq_nil_of_prefix {blank : C → Bool} {pre x : List C} (hx : Solid blank x)
    (hpre : Blank blank pre) (h : pre <+: x) : pre = [] := by
  cases pre with
  | nil => rfl
  | cons c pre =>
    obtain ⟨t, rfl⟩ := h
    have hc := hx.first c rfl
    rw [hpre c List.mem_cons_self] at hc
    cases hc

/-- None at its end. -/
theorem Solid.eq_nil_of_suffix {blank : C → Bool} {post x : List C} (hx : Solid blank x)
    (hpost : Blank blank post) (h : post <:+ x) : post = [] := by
  rcases List.eq_nil_or_concat post with rfl | ⟨post, c, rfl⟩
  · rfl
  · obtain ⟨t, rfl⟩ := h
    have hc := hx.last c (by simp [← List.append_assoc])
    rw [hpost c (by simp)] at hc
    cases hc

/-- At the start of a solid text there are no blanks before the item. -/
theorem Padded.left {blank : C → Bool} {text a x : List C} (h : Padded blank text a)
    (hx : Solid blank x) (ha : a <+: x) : ∃ post, Blank blank post ∧ a = text ++ post := by
  obtain ⟨pre, post, hpre, hpost, rfl⟩ := h
  have hfirst : pre <+: pre ++ text ++ post := ⟨text ++ post, (List.append_assoc _ _ _).symm⟩
  rw [hx.eq_nil_of_prefix hpre (hfirst.trans ha)]
  exact ⟨post, hpost, rfl⟩

/-- At the end there are none after it. -/
theorem Padded.right {blank : C → Bool} {text a x : List C} (h : Padded blank text a)
    (hx : Solid blank x) (ha : a <:+ x) : ∃ pre, Blank blank pre ∧ a = pre ++ text := by
  obtain ⟨pre, post, hpre, hpost, rfl⟩ := h
  rw [hx.eq_nil_of_suffix hpost ((List.suffix_append _ _).trans ha)]
  exact ⟨pre, hpre, List.append_nil _⟩

/-! ### Separators -/

/-- A text of some items, one at least. -/
inductive Joined (blank : C → Bool) (sep : C) (prints : α → List C → Prop) :
    List α → List C → Prop
  | one {a : α} {text x : List C} : prints a text → Padded blank text x →
      Joined blank sep prints [a] x
  | more {a : α} {as : List α} {text x rest : List C} : prints a text → Padded blank text x →
      Joined blank sep prints as rest → Joined blank sep prints (a :: as) (x ++ sep :: rest)

variable {blank : C → Bool} {sep : C} {prints : α → List C → Prop}

theorem Joined.ne_nil (hsolid : ∀ a text, prints a text → Solid blank text) {as : List α}
    {x : List C} (h : Joined blank sep prints as x) : x ≠ [] := by
  cases h with
  | one hp hx =>
    obtain ⟨pre, post, _, _, rfl⟩ := hx
    simp [(hsolid _ _ hp).ne]
  | more _ _ _ => simp

theorem Joined.items_ne_nil {as : List α} {x : List C} (h : Joined blank sep prints as x) : as ≠ [] := by
  cases h <;> exact List.cons_ne_nil _ _

theorem Joined.imp {as : List α} {x : List C} (h : Joined blank sep prints as x)
    (prints' : α → List C → Prop) :
    (∀ a ∈ as, ∀ text, prints a text → prints' a text) → Joined blank sep prints' as x := by
  induction h with
  | one hp hx => exact fun himp => .one (himp _ (List.mem_singleton.mpr rfl) _ hp) hx
  | more hp hx _ ih =>
    exact fun himp => .more (himp _ List.mem_cons_self _ hp) hx
      (ih fun a ha => himp a (List.mem_cons_of_mem _ ha))

theorem Joined.map {β : Type*} {f : α → β} {prints' : β → List C → Prop} {as : List α} {x : List C}
    (h : Joined blank sep prints as x) :
    (∀ a ∈ as, ∀ text, prints a text → prints' (f a) text) → Joined blank sep prints' (as.map f) x := by
  induction h with
  | one hp hx => exact fun himp => .one (himp _ (List.mem_singleton.mpr rfl) _ hp) hx
  | more hp hx _ ih =>
    exact fun himp => .more (himp _ List.mem_cons_self _ hp) hx
      (ih fun a ha => himp a (List.mem_cons_of_mem _ ha))

/-- Blanks around a text of items. -/
theorem Joined.pad {as : List α} {x : List C} (h : Joined blank sep prints as x) {post : List C}
    (hpost : Blank blank post) : ∀ {pre}, Blank blank pre → Joined blank sep prints as (pre ++ x ++ post) := by
  have hpad : ∀ {text x pre post : List C}, Padded blank text x → Blank blank pre → Blank blank post →
      Padded blank text (pre ++ x ++ post) := by
    rintro text x pre post ⟨l, r, hl, hr, rfl⟩ hpre hpost
    refine ⟨pre ++ l, r ++ post, hpre.append hl, hr.append hpost, ?_⟩
    simp only [List.append_assoc]
  have hnone : Blank blank ([] : List C) := fun c hc => absurd hc List.not_mem_nil
  induction h with
  | one hp hx => exact fun hpre => .one hp (hpad hx hpre hpost)
  | @more a as text x rest hp hx _ ih =>
    intro pre hpre
    have hrest := Joined.more hp (hpad hx hpre hnone) (ih hnone)
    simpa only [List.append_assoc, List.append_nil, List.nil_append, List.cons_append] using hrest

/-- Every character is a blank, a separator, or an item's. -/
theorem Joined.forall_mem {as : List α} {x : List C} (h : Joined blank sep prints as x)
    (good : C → Prop) (hblank : ∀ c, blank c = true → good c) (hsep : good sep)
    (hitem : ∀ a ∈ as, ∀ text, prints a text → ∀ c ∈ text, good c) : ∀ c ∈ x, good c := by
  have hpad : ∀ {text x : List C}, Padded blank text x → (∀ c ∈ text, good c) →
      ∀ c ∈ x, good c := by
    rintro text x ⟨pre, post, hpre, hpost, rfl⟩ htext c hc
    rcases List.mem_append.mp hc with hc | hc
    · rcases List.mem_append.mp hc with hc | hc
      · exact hblank c (hpre c hc)
      · exact htext c hc
    · exact hblank c (hpost c hc)
  induction h with
  | one hp hx => exact hpad hx (hitem _ (List.mem_singleton.mpr rfl) _ hp)
  | more hp hx _ ih =>
    intro c hc
    rcases List.mem_append.mp hc with hc | hc
    · exact hpad hx (hitem _ List.mem_cons_self _ hp) c hc
    · rcases List.mem_cons.mp hc with rfl | hc
      · exact hsep
      · exact ih (fun a ha => hitem a (List.mem_cons_of_mem _ ha)) c hc

theorem Joined.dropWhile (hsolid : ∀ a text, prints a text → Solid blank text) {as : List α}
    {x : List C} (h : Joined blank sep prints as x) :
    Joined blank sep prints as (x.dropWhile blank) := by
  cases h with
  | @one a text _ hp hx =>
    obtain ⟨pre, post, hpre, hpost, rfl⟩ := hx
    rw [List.append_assoc, List.dropWhile_append_of_pos hpre, (hsolid a text hp).dropWhile]
    exact .one hp ⟨[], post, by simp [Blank], hpost, by simp⟩
  | @more a as text _ rest hp hx hrest =>
    obtain ⟨pre, post, hpre, hpost, rfl⟩ := hx
    rw [List.append_assoc, List.append_assoc, List.dropWhile_append_of_pos hpre,
      (hsolid a text hp).dropWhile, ← List.append_assoc]
    exact .more hp ⟨[], post, by simp [Blank], hpost, by simp⟩ hrest

theorem Joined.rdropWhile (hsolid : ∀ a text, prints a text → Solid blank text)
    (hsep : blank sep = false) {as : List α} {x : List C} (h : Joined blank sep prints as x) :
    Joined blank sep prints as (x.rdropWhile blank) := by
  induction h with
  | @one a text _ hp hx =>
    obtain ⟨pre, post, hpre, hpost, rfl⟩ := hx
    rw [List.rdropWhile, List.reverse_append,
      List.dropWhile_append_of_pos (by simpa [Blank] using hpost)]
    refine .one hp ⟨pre, [], hpre, by simp [Blank], ?_⟩
    rw [List.append_nil]
    exact (hsolid a text hp).rdropWhile pre
  | @more a as text x rest hp hx hrest ih =>
    -- the separator is where trimming would stop at the latest
    have hkeep : (x ++ sep :: rest).rdropWhile blank = x ++ sep :: rest.rdropWhile blank := by
      rw [List.rdropWhile, List.reverse_append, List.reverse_cons, List.append_assoc,
        List.singleton_append, List.rdropWhile, List.dropWhile_append]
      split
      · rename_i hnil
        rw [List.isEmpty_iff.mp hnil, List.dropWhile_cons_of_neg (by rw [hsep]; exact Bool.false_ne_true)]
        simp
      · simp
    rw [hkeep]
    exact .more hp hx ih

/-- **Trimming leaves the items.** -/
theorem Joined.trim (hsolid : ∀ a text, prints a text → Solid blank text)
    (hsep : blank sep = false) {as : List α} {x : List C} (h : Joined blank sep prints as x) :
    Joined blank sep prints as (trimBoth blank x) :=
  (h.dropWhile hsolid).rdropWhile hsolid hsep

/-- **Cutting at the separators reads the items back.**  `Splits x xs` is what the cutting
does to a text; `Closed x` is what it does not cut. -/
theorem Joined.splits (Splits : List C → List (List C) → Prop) (Closed : List C → Prop)
    (hone : ∀ x, Closed x → Splits x [x])
    (hmore : ∀ x rest xs, Closed x → Splits rest xs → Splits (x ++ sep :: rest) (x :: xs))
    (hclosed : ∀ a text x, prints a text → Padded blank text x → Closed x)
    {as : List α} {x : List C} (h : Joined blank sep prints as x) :
    ∃ pieces, Splits x pieces ∧
      List.Forall₂ (fun a piece => ∃ text, prints a text ∧ Padded blank text piece) as pieces := by
  induction h with
  | @one a text x hp hx =>
    exact ⟨[x], hone x (hclosed a text x hp hx), .cons ⟨text, hp, hx⟩ .nil⟩
  | @more a as text x rest hp hx _ ih =>
    obtain ⟨pieces, hsplits, hpieces⟩ := ih
    exact ⟨x :: pieces, hmore x rest pieces (hclosed a text x hp hx) hsplits,
      .cons ⟨text, hp, hx⟩ hpieces⟩

/-- **Pieces with separators between them** are a text of the items in them. -/
theorem Joined.of_pieces {as : List α} {pieces : List (List C)}
    (h : List.Forall₂ (fun a piece => ∃ text, prints a text ∧ Padded blank text piece) as pieces) :
    pieces ≠ [] → Joined blank sep prints as ([sep].intercalate pieces) := by
  induction h with
  | nil => exact fun hne => absurd rfl hne
  | @cons a piece as pieces ha htail ih =>
    obtain ⟨text, hp, hpad⟩ := ha
    intro _
    cases htail with
    | nil =>
      rw [List.intercalate_singleton]
      exact .one hp hpad
    | cons hb hrest =>
      rw [List.intercalate_cons_cons, List.append_assoc, List.singleton_append]
      exact .more hp hpad (ih (List.cons_ne_nil _ _))

theorem notMem_of_mem_splitOn [DecidableEq C] {sep : C} {x : List C} :
    ∀ piece ∈ x.splitOn sep, sep ∉ piece := by
  induction x with
  | nil => simp
  | cons c x ih =>
    rw [List.splitOn_cons_eq_if_modifyHead]
    split_ifs with hc
    · intro piece hmem
      rcases List.mem_cons.mp hmem with rfl | hmem
      · exact List.not_mem_nil
      · exact ih piece hmem
    · cases hpieces : x.splitOn sep with
      | nil => exact absurd hpieces (List.splitOn_ne_nil sep x)
      | cons first pieces =>
        rw [hpieces] at ih
        intro piece hmem
        rcases List.mem_cons.mp hmem with rfl | hmem
        · intro hsep
          rcases List.mem_cons.mp hsep with rfl | hsep
          · exact hc (beq_self_eq_true _)
          · exact ih first List.mem_cons_self hsep
        · exact ih piece (List.mem_cons_of_mem _ hmem)

end Lib
