import Mathlib.Algebra.Order.Field.Rat
import Mathlib.Algebra.Order.Round
import Mathlib.Data.List.Nodup
import Mathlib.Data.List.Perm.Basic
import Mathlib.Data.Rat.Floor
import Mathlib.Tactic.Linarith
import Mathlib.Tactic.Positivity

/-!
# Flamebearers

A flamebearer packs a flame graph as rows of numbers, one row a level: the offset of a bar
from the end of the bar before it, its total, its self time and the index of its name.

* `Flamebearer.decodeLevels`: the bars of every level, linked to their parents.
* `ByName.hottest`: the hottest of named values; `ByName.hottest_map`: whatever their scale.
* `Profile`: what each frame spends of its own, in percent; exact rationals.
* `Profile.topFrames`: the `n` hottest frames, rounded to four decimals.
* `Flamebearer.topFrames_eq`: what the tool writes of a flamebearer are the top frames of
  its profile.
-/

namespace Konfig.Flamediff

/-- A decoded flamebearer: names, raw levels, total ticks and sampling meta. -/
structure Flamebearer where
  names : List String
  levels : List (List ℤ)
  numTicks : ℤ
  sampleRate : ℤ
  units : String

/-- One decoded bar.  `parent` is the index of the owning bar in the level above. -/
structure Bar where
  x0 : ℤ
  x1 : ℤ
  self_ : ℤ
  nameIdx : ℕ
  parent : Option ℕ
deriving DecidableEq, Repr

/-! ### Levels -/

/-- A signed 64-bit number cast to an unsigned one. -/
def asUnsigned (i : ℤ) : ℕ := (i % 2 ^ 64).toNat

/-- The bars of a level, from the cursor `x` on.  A last group that is not complete is
dropped. -/
def readBars (x : ℤ) : List ℤ → List Bar
  | offset :: total :: self_ :: name :: lvl =>
    { x0 := x + offset, x1 := x + offset + total, self_, nameIdx := asUnsigned name, parent := none } ::
      readBars (x + offset + total) lvl
  | _ => []

/-- The parent cursor `pi` moved on over the bars that end before `x0`; `parents` are those
from `pi` on. -/
def advance (x0 : ℤ) : List Bar → ℕ → ℕ
  | [], pi => pi
  | p :: parents, pi => if p.x1 ≤ x0 then advance x0 parents (pi + 1) else pi

/-- Does a bar swallow the range of another one? -/
def Bar.Holds (p bar : Bar) : Prop := p.x0 ≤ bar.x0 ∧ bar.x1 ≤ p.x1

instance (p bar : Bar) : Decidable (p.Holds bar) := by
  unfold Bar.Holds
  infer_instance

/-- Link the bars of a level to their parents, with one cursor that only moves forward. -/
def linkBars (parents : List Bar) : ℕ → List Bar → List Bar
  | _, [] => []
  | pi, bar :: bars =>
    let pi := advance bar.x0 (parents.drop pi) pi
    let parent := if (parents[pi]?).any fun p => p.Holds bar then some pi else bar.parent
    { bar with parent } :: linkBars parents pi bars

/-- Link the levels below `parents`, from the top down. -/
def linkLevels (parents : List Bar) : List (List Bar) → List (List Bar)
  | [] => []
  | bars :: perDepth => linkBars parents 0 bars :: linkLevels (linkBars parents 0 bars) perDepth

def Flamebearer.decodeLevels (fb : Flamebearer) : List (List Bar) :=
  match fb.levels.map (readBars 0) with
  | [] => []
  | roots :: perDepth => roots :: linkLevels roots perDepth

/-! ### Values by name -/

/-- The element found under a key that no other element has. -/
theorem find?_of_nodup {α β : Type} [DecidableEq β] {key : α → β} {l : List α} (h : (l.map key).Nodup) {a : α}
    (ha : a ∈ l) : l.find? (fun b => key b = key a) = some a := by
  obtain ⟨b, hb⟩ : ∃ b, l.find? (fun b => key b = key a) = some b :=
    Option.isSome_iff_exists.mp (List.find?_isSome.mpr ⟨a, ha, by simp⟩)
  have hkey : key b = key a := by simpa using List.find?_some hb
  rw [hb, List.inj_on_of_nodup_map h (List.mem_of_find?_eq_some hb) ha hkey]

/-- One value for each name. -/
structure ByName (α : Type) where
  rows : List (String × α)
  nodup : (rows.map Prod.fst).Nodup

namespace ByName

variable {α β : Type}

def Mem (p : ByName α) (f : String) : Prop := f ∈ p.rows.map Prod.fst

instance (p : ByName α) (f : String) : Decidable (p.Mem f) := by
  unfold Mem
  infer_instance

/-- The value of a name; zero where there is none. -/
def get [Zero α] (p : ByName α) (f : String) : α :=
  match p.rows.find? fun e => e.1 = f with
  | some e => e.2
  | none => 0

theorem get_of_mem [Zero α] {p : ByName α} {f : String} {x : α} (h : (f, x) ∈ p.rows) : p.get f = x := by
  rw [get, find?_of_nodup p.nodup h]

theorem get_of_not_mem [Zero α] {p : ByName α} {f : String} (h : ¬ p.Mem f) : p.get f = 0 := by
  have hnone : p.rows.find? (fun e => e.1 = f) = none := by
    refine List.find?_eq_none.mpr fun e he => ?_
    rw [decide_eq_true_eq]
    rintro rfl
    exact h (List.mem_map_of_mem he)
  rw [get, hnone]

def empty : ByName α := ⟨[], List.nodup_nil⟩

def filter (keep : String → Bool) (p : ByName α) : ByName α where
  rows := p.rows.filter fun e => keep e.1
  nodup := p.nodup.sublist (List.filter_sublist.map Prod.fst)

def map (g : α → β) (p : ByName α) : ByName β where
  rows := p.rows.map fun e => (e.1, g e.2)
  nodup := by
    rw [List.map_map]
    exact p.nodup

/-- Rows with `x` added to the entry of a name. -/
def addTo [Add α] (name : String) (x : α) : List (String × α) → List (String × α)
  | [] => [(name, x)]
  | (n, y) :: rows => if n = name then (n, y + x) :: rows else (n, y) :: addTo name x rows

theorem mem_addTo [Add α] {name n : String} {x : α} {rows : List (String × α)} :
    n ∈ (addTo name x rows).map Prod.fst ↔ n = name ∨ n ∈ rows.map Prod.fst := by
  induction rows with
  | nil => simp [addTo]
  | cons e rows ih =>
    rw [addTo]
    split
    · next h => simp [h]
    · simp only [List.map_cons, List.mem_cons, ih]
      exact or_left_comm

theorem nodup_addTo [Add α] {name : String} {x : α} {rows : List (String × α)}
    (h : (rows.map Prod.fst).Nodup) : ((addTo name x rows).map Prod.fst).Nodup := by
  induction rows with
  | nil => simp [addTo]
  | cons e rows ih =>
    obtain ⟨hnot, hnodup⟩ := List.nodup_cons.mp h
    rw [addTo]
    split
    · exact List.nodup_cons.mpr ⟨hnot, hnodup⟩
    · next hne =>
      refine List.nodup_cons.mpr ⟨fun hmem => ?_, ih hnodup⟩
      exact (mem_addTo.mp hmem).elim hne hnot

def add [Add α] (p : ByName α) (name : String) (x : α) : ByName α := ⟨addTo name x p.rows, nodup_addTo p.nodup⟩

/-- The order of the rows: hottest first, ties broken by name. -/
def hotter [LinearOrder α] (a b : String × α) : Bool :=
  decide (b.2 < a.2 ∨ (a.2 = b.2 ∧ a.1 ≤ b.1))

/-- The `n` hottest rows, dropping those without a positive value. -/
def hottest [LinearOrder α] [Zero α] (n : ℕ) (p : ByName α) : List (String × α) :=
  ((p.rows.mergeSort hotter).filter fun e => 0 < e.2).take n

section

variable [LinearOrder α] [Zero α] {n : ℕ} {p : ByName α}

theorem hottest_sublist : (p.hottest n).Sublist (p.rows.mergeSort hotter) :=
  (List.take_sublist _ _).trans List.filter_sublist

theorem nodup_hottest : ((p.hottest n).map Prod.fst).Nodup := by
  have hperm := (List.mergeSort_perm p.rows hotter).map Prod.fst
  exact (hperm.nodup_iff.mpr p.nodup).sublist (hottest_sublist.map Prod.fst)

theorem mem_of_mem_hottest {e : String × α} (h : e ∈ p.hottest n) : e ∈ p.rows ∧ 0 < e.2 := by
  refine ⟨(List.mergeSort_perm _ _).mem_iff.mp (hottest_sublist.subset h), ?_⟩
  simpa using (List.mem_filter.mp (List.mem_of_mem_take h)).2

/-- The hottest rows do not depend on the scale. -/
theorem hottest_map [LinearOrder β] [Zero β] {g : α → β} (hlt : ∀ a b, g a < g b ↔ a < b)
    (hinj : ∀ a b, g a = g b ↔ a = b) (hzero : g 0 = 0) :
    (p.map g).hottest n = (p.hottest n).map fun e => (e.1, g e.2) := by
  have hsort : (p.rows.mergeSort hotter).map (fun e => (e.1, g e.2)) = (p.map g).rows.mergeSort hotter :=
    List.map_mergeSort fun a _ b _ => by simp only [hotter, hlt, hinj]
  have hpos : ∀ a, 0 < g a ↔ 0 < a := fun a => by rw [← hzero, hlt]
  rw [hottest, hottest, ← hsort, List.filter_map, List.map_take]
  congr 2
  refine List.filter_congr fun e _ => ?_
  exact decide_eq_decide.mpr (hpos e.2)

end

end ByName

/-! ### Rounding -/

/-- The nearest integer, a half away from zero. -/
def roundHalfAway (x : ℚ) : ℤ := if 0 ≤ x then ⌊x + 1 / 2⌋ else ⌈x - 1 / 2⌉

def round4 (x : ℚ) : ℚ := roundHalfAway (x * 10000) / 10000

theorem roundHalfAway_mono {x y : ℚ} (h : x ≤ y) : roundHalfAway x ≤ roundHalfAway y := by
  unfold roundHalfAway
  by_cases hx : 0 ≤ x
  · rw [if_pos hx, if_pos (hx.trans h)]
    exact Int.floor_le_floor (by linarith)
  · rw [if_neg hx]
    by_cases hy : 0 ≤ y
    · rw [if_pos hy]
      have hneg : ⌈x - 1 / 2⌉ ≤ 0 := Int.ceil_le.mpr (by push_cast; linarith)
      exact hneg.trans (Int.floor_nonneg.mpr (by linarith))
    · rw [if_neg hy]
      exact Int.ceil_le_ceil (by linarith)

theorem round4_mono {x y : ℚ} (h : x ≤ y) : round4 x ≤ round4 y := by
  have hround : roundHalfAway (x * 10000) ≤ roundHalfAway (y * 10000) :=
    roundHalfAway_mono (by linarith)
  exact div_le_div_of_nonneg_right (by exact_mod_cast hround) (by norm_num)

theorem round4_zero : round4 0 = 0 := by
  norm_num [round4, roundHalfAway]

theorem round4_nonneg {x : ℚ} (h : 0 ≤ x) : 0 ≤ round4 x := round4_zero ▸ round4_mono h

/-! ### Profiles -/

/-- The self percentage of each frame. -/
abbrev Profile := ByName ℚ

/-- The self percentage of a frame; zero for one that is absent. -/
abbrev Profile.pct (p : Profile) (f : String) : ℚ := p.get f

/-- The `n` hottest frames, rounded. -/
def Profile.topFrames (n : ℕ) (p : Profile) : Profile where
  rows := (p.hottest n).map fun e => (e.1, round4 e.2)
  nodup := by
    rw [List.map_map]
    exact ByName.nodup_hottest

/-- A frame that is kept has its own percentage, rounded. -/
theorem Profile.pct_topFrames {n : ℕ} {p : Profile} {f : String} (h : (p.topFrames n).Mem f) :
    0 < p.pct f ∧ (p.topFrames n).pct f = round4 (p.pct f) := by
  obtain ⟨_, hrow, rfl⟩ := List.mem_map.mp h
  obtain ⟨⟨g, x⟩, hkept, rfl⟩ := List.mem_map.mp hrow
  obtain ⟨hmem, hpos⟩ := ByName.mem_of_mem_hottest hkept
  rw [Profile.pct, ByName.get_of_mem hmem]
  exact ⟨hpos, ByName.get_of_mem (List.mem_map.mpr ⟨(g, x), hkept, rfl⟩)⟩

theorem Profile.pct_topFrames_nonneg (n : ℕ) (p : Profile) (f : String) : 0 ≤ (p.topFrames n).pct f := by
  by_cases h : (p.topFrames n).Mem f
  · obtain ⟨hpos, hpct⟩ := Profile.pct_topFrames h
    rw [hpct]
    exact round4_nonneg hpos.le
  · exact (ByName.get_of_not_mem h).ge

/-! ### What the tool writes -/

/-- The self time of each name; nothing where a bar has no name (the code panics). -/
def Flamebearer.byName (fb : Flamebearer) : Option (ByName ℤ) :=
  fb.decodeLevels.flatten.foldlM (fun byName bar =>
    fb.names[bar.nameIdx]?.map fun name => byName.add name bar.self_) ByName.empty

/-- The ticks that percentages are taken of. -/
def Flamebearer.total (fb : Flamebearer) (byName : ByName ℤ) : ℤ :=
  if 0 < fb.numTicks then fb.numTicks
  else
    let sum := (byName.rows.map Prod.snd).sum
    if 0 < sum then sum else 1

theorem Flamebearer.total_pos (fb : Flamebearer) (byName : ByName ℤ) : 0 < fb.total byName := by
  unfold Flamebearer.total
  split
  · assumption
  · dsimp only
    split
    · assumption
    · exact Int.one_pos

/-- The frames that the regular expression `exclude` does not match. -/
def included (exclude : Option (String → Bool)) (name : String) : Bool := exclude.all fun re => !re name

/-- The N hottest frames by self time, in percent of the total.  Frames that `exclude`
matches are dropped before the N are picked, but count in the total. -/
def Flamebearer.topFrames (fb : Flamebearer) (n : ℕ) (exclude : Option (String → Bool)) :
    Option (List (String × ℚ)) := do
  let byName ← fb.byName
  let total := fb.total byName
  let rows := byName.filter (included exclude)
  return (rows.hottest n).map fun e => (e.1, round4 (e.2 / total * 100))

/-- The profile of a flamebearer, every frame with its exact percentage. -/
def Flamebearer.profile (fb : Flamebearer) (exclude : Option (String → Bool)) : Option Profile := do
  let byName ← fb.byName
  return (byName.filter (included exclude)).map fun ticks : ℤ => (ticks / fb.total byName * 100 : ℚ)

/-- **What the tool writes are the top frames of the profile.** -/
theorem Flamebearer.topFrames_eq (fb : Flamebearer) (n : ℕ) (exclude : Option (String → Bool)) :
    fb.topFrames n exclude = (fb.profile exclude).map fun p => (p.topFrames n).rows := by
  unfold Flamebearer.topFrames Flamebearer.profile
  cases fb.byName with
  | none => rfl
  | some byName =>
    have hpos : (0 : ℚ) < fb.total byName := by exact_mod_cast fb.total_pos byName
    -- the percentages are ordered as the ticks are
    have hlt : ∀ a b : ℤ, (a / fb.total byName * 100 : ℚ) < b / fb.total byName * 100 ↔ a < b := fun a b => by
      rw [mul_lt_mul_iff_left₀ (by norm_num), div_lt_div_iff_of_pos_right hpos, Int.cast_lt]
    have hinj : ∀ a b : ℤ, (a / fb.total byName * 100 : ℚ) = b / fb.total byName * 100 ↔ a = b := fun a b => by
      rw [mul_left_inj' (by norm_num), div_left_inj' hpos.ne', Int.cast_inj]
    have hzero : ((0 : ℤ) / fb.total byName * 100 : ℚ) = 0 := by norm_num
    have hmap := ByName.hottest_map (n := n) (p := byName.filter (included exclude)) hlt hinj hzero
    simp only [Option.bind_eq_bind, Option.bind_some, Option.pure_def, Option.map_some, Profile.topFrames,
      hmap, List.map_map]
    rfl

end Konfig.Flamediff
