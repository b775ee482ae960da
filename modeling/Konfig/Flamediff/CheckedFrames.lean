import Konfig.Flamediff.Checked
import Mathlib.Algebra.BigOperators.Group.Finset.Basic

/-!
# When the top frames are written

`top_frames` adds up the self times by name and, without a count of ticks, their total, in the
order in which a hash map hands them out.

* `topFrames_iff`: it never panics exactly when the positions of the rows and the self times
  of each name stay within an `i64`, every bar has a name, and the total fits in every order.
* `topFramesChecked_eq`: what it writes are the top frames of the profile.
-/

namespace Konfig.Flamediff

open Lib

/-! ### The total -/

/-- The values of a table as a sum over names. -/
theorem ByName.sum_values (p : ByName ℤ) {names : Finset String} (hnames : ∀ name, p.Mem name → name ∈ names)
    {h : ℤ → ℤ} (hzero : h 0 = 0) : ((p.rows.map Prod.snd).map h).sum = ∑ name ∈ names, h (p.get name) := by
  have hrows : (p.rows.map Prod.snd).map h = (p.rows.map Prod.fst).map fun name => h (p.get name) := by
    rw [List.map_map, List.map_map]
    refine List.map_congr_left fun e he => ?_
    exact congrArg h (get_of_mem he).symm
  rw [hrows, ← List.sum_toFinset _ p.nodup]
  refine Finset.sum_subset (fun name hname => hnames name (List.mem_toFinset.mp hname)) fun name _ hname => ?_
  rw [get_of_not_mem (fun hmem => hname (List.mem_toFinset.mpr hmem)), hzero]

section

variable {fb : Flamebearer} {order : List ℤ → List ℤ}

theorem Flamebearer.total_returns (horder : ∀ l, (order l).Perm l) (p : ByName ℤ) :
    Checked.Returns (fb.totalChecked order p)
      (fb.numTicks ≤ 0 → Checked.PartialSums InI64 0 (order (p.rows.map Prod.snd))) (fb.total p) := by
  unfold Flamebearer.totalChecked Flamebearer.total
  by_cases hticks : 0 < fb.numTicks
  · rw [if_pos hticks, if_pos hticks]
    exact (Checked.Returns.ok _).congr (iff_of_true trivial fun hle => absurd hticks hle.not_gt)
  · rw [if_neg hticks, if_neg hticks]
    have hsum : 0 + (order (p.rows.map Prod.snd)).sum = (p.rows.map Prod.snd).sum := by
      rw [zero_add, (horder _).sum_eq]
    have hreturns := Checked.sumFrom_returns InI64 0 (order (p.rows.map Prod.snd))
    rw [hsum] at hreturns
    exact hreturns.map.congr ⟨fun h _ => h, fun h => h (not_lt.mp hticks)⟩

end

/-! ### Top frames -/

namespace Flamebearer

variable (fb : Flamebearer)

/-- The self times of every name stay within an `i64`, added up in their order. -/
def SelfTimesFit : Prop := ∀ name, Checked.PartialSums InI64 0 (fb.selfTimes name)

/-- So does the total, where it has to be added up, in whatever order. -/
def TotalFits : Prop := fb.numTicks ≤ 0 →
  -2 ^ 63 ≤ ∑ name ∈ fb.names.toFinset, min 0 (fb.selfTime name) ∧
    ∑ name ∈ fb.names.toFinset, max 0 (fb.selfTime name) < 2 ^ 63

/-- The self times by name. -/
def selfByName : ByName ℤ := fb.addAll .empty fb.decodeLevels.flatten

/-- The rows of the output. -/
def frames (n : ℕ) (exclude : Option (String → Bool)) : List (String × ℚ) :=
  ((fb.selfByName.filter (included exclude)).hottest n).map fun e =>
    (e.1, round4 (e.2 / fb.total fb.selfByName * 100))

variable {fb} {order : List ℤ → List ℤ}

theorem selfByName_returns :
    Checked.Returns (fb.byNameChecked fb.decodeLevels.flatten) (fb.Named ∧ fb.SelfTimesFit) fb.selfByName := by
  refine (addAll_returns fb.decodeLevels.flatten .empty).congr ?_
  rw [named_iff, SelfTimesFit]
  simp only [selfTimes_eq]
  rfl

theorem get_selfByName (hnamed : fb.Named) (name : String) : fb.selfByName.get name = fb.selfTime name := by
  rw [selfByName, get_addAll (named_iff.mpr hnamed), selfTime, selfTimes_eq]
  exact zero_add _

theorem mem_selfByName (hnamed : fb.Named) (name : String) (h : fb.selfByName.Mem name) :
    name ∈ fb.names.toFinset :=
  List.mem_toFinset.mpr (mem_addAll (named_iff.mpr hnamed) (fun _ hmem => absurd hmem List.not_mem_nil) name h)

theorem topFrames_returns (horder : ∀ l, (order l).Perm l) (n : ℕ) (exclude : Option (String → Bool)) :
    Checked.Returns (fb.topFramesChecked order n exclude)
      (fb.RowsFit ∧ (fb.Named ∧ fb.SelfTimesFit) ∧
        (fb.numTicks ≤ 0 → Checked.PartialSums InI64 0 (order (fb.selfByName.rows.map Prod.snd))))
      (fb.frames n exclude) :=
  fb.decodeLevels_returns.bind fun _ => selfByName_returns.bind fun _ => (total_returns horder fb.selfByName).map

/-- The total fits in every order. -/
theorem totalFits_iff (hnamed : fb.Named) :
    fb.TotalFits ↔ (fb.numTicks ≤ 0 → ∀ values : List ℤ, values.Perm (fb.selfByName.rows.map Prod.snd) →
      Checked.PartialSums InI64 0 values) := by
  have hparts : ∀ h : ℤ → ℤ, h 0 = 0 → ((fb.selfByName.rows.map Prod.snd).map h).sum =
      ∑ name ∈ fb.names.toFinset, h (fb.selfTime name) := fun h hzero => by
    rw [fb.selfByName.sum_values (mem_selfByName hnamed) hzero]
    simp only [get_selfByName hnamed]
  have hfit := Checked.sums_fit_iff (by decide : (-2 ^ 63 : ℤ) ≤ 0) (by decide : (0 : ℤ) < 2 ^ 63)
    (fb.selfByName.rows.map Prod.snd)
  rw [Checked.negativePart, Checked.positivePart, hparts (min 0) rfl, hparts (max 0) rfl] at hfit
  unfold TotalFits
  rw [← hfit]
  rfl

/-- **When `top_frames` never panics**, whatever the order of its hash map. -/
theorem topFrames_iff :
    (∀ order, (∀ l, (order l).Perm l) → ∀ n exclude, ∃ rows, fb.topFramesChecked order n exclude = .ok rows) ↔
      fb.RowsFit ∧ fb.Named ∧ fb.SelfTimesFit ∧ fb.TotalFits := by
  constructor
  · intro hall
    have hid := (topFrames_returns (fun l => List.Perm.refl l) 0 none).exists_iff.mp
      (hall id (fun l => List.Perm.refl l) 0 none)
    obtain ⟨hrows, ⟨hnamed, hself⟩, _⟩ := hid
    refine ⟨hrows, hnamed, hself, (totalFits_iff hnamed).mpr fun hticks values hvalues => ?_⟩
    -- an order that hands out these values
    have horder : ∀ l : List ℤ, (if l = fb.selfByName.rows.map Prod.snd then values else l).Perm l := by
      intro l
      split
      · rename_i heq
        rw [heq]
        exact hvalues
      · exact List.Perm.refl l
    have hfits := (topFrames_returns horder 0 none).exists_iff.mp (hall _ horder 0 none)
    have hsums := hfits.2.2 hticks
    rwa [if_pos rfl] at hsums
  · rintro ⟨hrows, hnamed, hself, htotal⟩ order horder n exclude
    refine (topFrames_returns horder n exclude).exists_iff.mpr ⟨hrows, ⟨hnamed, hself⟩, fun hticks => ?_⟩
    exact (totalFits_iff hnamed).mp htotal hticks _ (horder _)

/-- What it writes. -/
theorem topFramesChecked_eq (horder : ∀ l, (order l).Perm l) {n : ℕ} {exclude : Option (String → Bool)}
    {rows : List (String × ℚ)} (h : fb.topFramesChecked order n exclude = .ok rows) :
    ∃ p, fb.profile exclude = some p ∧ rows = (p.topFrames n).rows := by
  obtain ⟨⟨_, ⟨hnamed, _⟩, _⟩, rfl⟩ := (topFrames_returns horder n exclude rows).mp h
  have hwritten : fb.topFrames n exclude = some (fb.frames n exclude) := by
    unfold topFrames
    rw [byName_eq (named_iff.mpr hnamed)]
    rfl
  rw [topFrames_eq] at hwritten
  obtain ⟨p, hp, hrows⟩ := Option.map_eq_some_iff.mp hwritten
  exact ⟨p, hp, hrows.symm⟩

end Flamebearer

end Konfig.Flamediff
