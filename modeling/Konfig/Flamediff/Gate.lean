import Konfig.Flamediff.Flamebearer

/-!
# The regression gate

The gate compares the top frames of two profiles.  It sees the two lists only: a frame that
is absent from one counts as zero there, also where it was merely cut off.

* `regressed_rowOf`: when a row is marked, in terms of the two percentages.
* `marked_iff`: when a frame that does not grow is marked.
* `diff_sound_iff`: when no frame is marked that did not grow in the full profiles.
* `diff_marks_improvement`: a frame that did not grow, and is marked.
-/

namespace Konfig.Flamediff

/-! ### Numbers in texts -/

/-- A quotient of two numbers, which may be zero. -/
inductive RelDelta
  | finite (q : ℚ)
  | posInf
  | negInf
  | nan
deriving DecidableEq

def RelDelta.ofQuotient (a b : ℚ) : RelDelta :=
  if b ≠ 0 then .finite (a / b) else if 0 < a then .posInf else if a < 0 then .negInf else .nan

/-- `rel > threshold`; nothing is greater or smaller than a NaN. -/
def RelDelta.exceeds (threshold : ℚ) : RelDelta → Bool
  | .finite q => threshold < q
  | .posInf => true
  | .negInf | .nan => false

/-- The nearest integer, a half to the even one. -/
def roundHalfEven (x : ℚ) : ℕ :=
  let low := x.num.toNat / x.den
  if x - low < 1 / 2 ∨ (x - low = 1 / 2 ∧ low % 2 = 0) then low else low + 1

/-- A number with a fixed count of decimals. -/
def fixed (decimals : ℕ) (x : ℚ) : String :=
  let digits := toString (roundHalfEven (|x| * 10 ^ decimals))
  let digits := "".pushn '0' (decimals + 1 - digits.length) ++ digits
  let whole := digits.take (digits.length - decimals)
  let sign := if x < 0 then "-" else ""
  if decimals = 0 then sign ++ whole else sign ++ whole ++ "." ++ digits.drop (digits.length - decimals)

/-- The quotient in percent. -/
def RelDelta.percent : RelDelta → String
  | .finite q => fixed 0 (q * 100)
  | .posInf => "inf"
  | .negInf => "-inf"
  | .nan => "NaN"

/-! ### Rows -/

/-- One comparison row. -/
structure Row where
  name : String
  basePct : ℚ
  curPct : ℚ
  relDelta : Option RelDelta
  regressed : Bool
  reason : String

/-- Names of the `top` hottest frames. -/
def topNames (frames : Profile) (top : ℕ) : List String :=
  ((frames.rows.mergeSort ByName.hotter).take top).map Prod.fst

/-- The row of a frame. -/
def rowOf (current baseline : Profile) (threshold minBasePct newFrameFloorPct : ℚ) (name : String) : Row :=
  let base := baseline.pct name
  let cur := current.pct name
  let row : Row := { name, basePct := base, curPct := cur, relDelta := none, regressed := false, reason := "" }
  if minBasePct ≤ base then
    let rel := RelDelta.ofQuotient (cur - base) base
    if rel.exceeds threshold then
      { row with
        relDelta := some rel
        regressed := true
        reason := "self% +" ++ rel.percent ++ "% (> " ++ fixed 0 (threshold * 100) ++ "% gate)" }
    else { row with relDelta := some rel }
  else if newFrameFloorPct ≤ cur then
    { row with
      regressed := true
      reason := "new hot frame " ++ fixed 1 cur ++ "% (>= " ++ fixed 0 newFrameFloorPct ++ "% floor)" }
  else row

/-- Rows for all frames among the top of either side, hottest first. -/
def diff (current baseline : Profile) (threshold : ℚ) (top : ℕ) (minBasePct newFrameFloorPct : ℚ) : List Row :=
  let names := (topNames baseline top ++ topNames current top).dedup.mergeSort
  (names.map (rowOf current baseline threshold minBasePct newFrameFloorPct)).mergeSort
    fun a b => b.curPct ≤ a.curPct

section

variable {current baseline : Profile} {threshold minBasePct newFrameFloorPct : ℚ} {top : ℕ} {row : Row}
  {name : String}

theorem mem_diff : row ∈ diff current baseline threshold top minBasePct newFrameFloorPct ↔
    ∃ name, (name ∈ topNames baseline top ∨ name ∈ topNames current top) ∧
      rowOf current baseline threshold minBasePct newFrameFloorPct name = row := by
  unfold diff
  rw [(List.mergeSort_perm _ _).mem_iff, List.mem_map]
  simp only [(List.mergeSort_perm _ _).mem_iff, List.mem_dedup, List.mem_append]

theorem name_rowOf : (rowOf current baseline threshold minBasePct newFrameFloorPct name).name = name := by
  unfold rowOf
  dsimp only
  split_ifs <;> rfl

/-- When a row is marked. -/
theorem regressed_rowOf :
    (rowOf current baseline threshold minBasePct newFrameFloorPct name).regressed = true ↔
      (minBasePct ≤ baseline.pct name ∧
        (RelDelta.ofQuotient (current.pct name - baseline.pct name) (baseline.pct name)).exceeds threshold) ∨
      (baseline.pct name < minBasePct ∧ newFrameFloorPct ≤ current.pct name) := by
  unfold rowOf
  dsimp only
  by_cases hbase : minBasePct ≤ baseline.pct name
  · rw [if_pos hbase]
    split_ifs with hrel <;> simp [hbase, hrel]
  · rw [if_neg hbase]
    split_ifs with hfloor <;> simp [hbase, hfloor, not_le.mp hbase]

theorem mem_of_mem_topNames (h : name ∈ topNames current top) : current.Mem name := by
  obtain ⟨e, he, rfl⟩ := List.mem_map.mp h
  exact List.mem_map_of_mem ((List.mergeSort_perm _ _).mem_iff.mp (List.mem_of_mem_take he))

end

/-! ### The relative gate -/

/-- From a positive base. -/
theorem exceeds_of_pos {threshold cur base : ℚ} (h : 0 < base) :
    (RelDelta.ofQuotient (cur - base) base).exceeds threshold = true ↔ threshold * base < cur - base := by
  rw [RelDelta.ofQuotient, if_pos h.ne', RelDelta.exceeds, decide_eq_true_eq, lt_div_iff₀ h]

/-- From a base of zero, whatever the threshold. -/
theorem exceeds_zero {threshold cur : ℚ} :
    (RelDelta.ofQuotient (cur - 0) 0).exceeds threshold = true ↔ 0 < cur := by
  rw [RelDelta.ofQuotient, if_neg (not_not.mpr rfl), sub_zero]
  split_ifs with hpos hneg <;> simp [RelDelta.exceeds, hpos]

/-! ### What the gate sees of two profiles -/

/-- The gate on the top `n` frames of two full profiles. -/
def gateTop (old new : Profile) (n : ℕ) (threshold : ℚ) (top : ℕ) (minBasePct newFrameFloorPct : ℚ) :
    List Row :=
  diff (new.topFrames n) (old.topFrames n) threshold top minBasePct newFrameFloorPct

section

variable (old new : Profile) (n : ℕ) (threshold : ℚ) (top : ℕ) (minBasePct newFrameFloorPct : ℚ)
  (f : String)

/-- A frame that the baseline file was cut off above, and that is hot enough in the current
file to pass for a new one. -/
def CutOff : Prop :=
  ¬ (old.topFrames n).Mem f ∧ f ∈ topNames (new.topFrames n) top ∧
    if 0 < minBasePct then newFrameFloorPct ≤ (new.topFrames n).pct f else 0 < (new.topFrames n).pct f

/-- A frame of the baseline file for which one of the two limits is set below what a frame
has that does not grow: the floor for new frames, or a negative threshold. -/
def BelowLimit : Prop :=
  (old.topFrames n).Mem f ∧ (f ∈ topNames (old.topFrames n) top ∨ f ∈ topNames (new.topFrames n) top) ∧
    if (old.topFrames n).pct f < minBasePct then newFrameFloorPct ≤ (new.topFrames n).pct f
    else 0 < (old.topFrames n).pct f ∧
      threshold * (old.topFrames n).pct f < (new.topFrames n).pct f - (old.topFrames n).pct f

variable {old new : Profile} {n : ℕ} {threshold : ℚ} {top : ℕ} {minBasePct newFrameFloorPct : ℚ} {f : String}

/-- A frame that does not grow does not grow in the files, if the baseline has it. -/
theorem pct_le_of_mem (hle : new.pct f ≤ old.pct f) (hmem : (old.topFrames n).Mem f) :
    (new.topFrames n).pct f ≤ (old.topFrames n).pct f := by
  by_cases hnew : (new.topFrames n).Mem f
  · rw [(Profile.pct_topFrames hnew).2, (Profile.pct_topFrames hmem).2]
    exact round4_mono hle
  · rw [Profile.pct, ByName.get_of_not_mem hnew]
    exact Profile.pct_topFrames_nonneg n old f

/-- A frame that is not in the baseline file is marked when it is hot enough. -/
theorem regressed_of_not_mem (hmem : ¬ (old.topFrames n).Mem f) :
    (rowOf (new.topFrames n) (old.topFrames n) threshold minBasePct newFrameFloorPct f).regressed = true ↔
      if 0 < minBasePct then newFrameFloorPct ≤ (new.topFrames n).pct f else 0 < (new.topFrames n).pct f := by
  have hzero : (old.topFrames n).pct f = 0 := ByName.get_of_not_mem hmem
  rw [regressed_rowOf, hzero, exceeds_zero]
  by_cases hmin : 0 < minBasePct
  · simp [hmin]
  · simp [hmin, not_lt.mp hmin]

/-- A frame of the baseline file that does not grow is marked under one of the limits only. -/
theorem regressed_of_mem (hle : new.pct f ≤ old.pct f) (hmem : (old.topFrames n).Mem f) :
    (rowOf (new.topFrames n) (old.topFrames n) threshold minBasePct newFrameFloorPct f).regressed = true ↔
      if (old.topFrames n).pct f < minBasePct then newFrameFloorPct ≤ (new.topFrames n).pct f
      else 0 < (old.topFrames n).pct f ∧
        threshold * (old.topFrames n).pct f < (new.topFrames n).pct f - (old.topFrames n).pct f := by
  have hcur := pct_le_of_mem hle hmem
  rw [regressed_rowOf]
  by_cases hmin : (old.topFrames n).pct f < minBasePct
  · simp [hmin]
  · rw [if_neg hmin]
    have hskip : ¬ ((old.topFrames n).pct f < minBasePct ∧ newFrameFloorPct ≤ (new.topFrames n).pct f) :=
      fun h => hmin h.1
    rw [or_iff_left hskip, and_iff_right (not_lt.mp hmin)]
    rcases (Profile.pct_topFrames_nonneg n old f).eq_or_lt' with hzero | hpos
    · -- rounded to zero in both files: the quotient is a NaN
      have hnone : ¬ 0 < (new.topFrames n).pct f := by
        rw [not_lt, ← hzero]
        exact hcur
      change (old.topFrames n).pct f = 0 at hzero
      rw [hzero, exceeds_zero]
      simp [hnone]
    · rw [exceeds_of_pos hpos]
      simp [hpos]

/-- When a frame that does not grow is marked. -/
theorem marked_iff (hle : new.pct f ≤ old.pct f) :
    (∃ row ∈ gateTop old new n threshold top minBasePct newFrameFloorPct, row.name = f ∧ row.regressed = true) ↔
      CutOff old new n top minBasePct newFrameFloorPct f ∨
      BelowLimit old new n threshold top minBasePct newFrameFloorPct f := by
  constructor
  · rintro ⟨row, hrow, hname, hmarked⟩
    obtain ⟨f', hshown, rfl⟩ := mem_diff.mp hrow
    rw [name_rowOf] at hname
    subst hname
    by_cases hmem : (old.topFrames n).Mem f'
    · exact .inr ⟨hmem, hshown, (regressed_of_mem hle hmem).mp hmarked⟩
    · have hnew := hshown.resolve_left fun h => hmem (mem_of_mem_topNames h)
      exact .inl ⟨hmem, hnew, (regressed_of_not_mem hmem).mp hmarked⟩
  · rintro (⟨hmem, hshown, hhot⟩ | ⟨hmem, hshown, hlimit⟩)
    · exact ⟨_, mem_diff.mpr ⟨f, .inr hshown, rfl⟩, name_rowOf, (regressed_of_not_mem hmem).mpr hhot⟩
    · exact ⟨_, mem_diff.mpr ⟨f, hshown, rfl⟩, name_rowOf, (regressed_of_mem hle hmem).mpr hlimit⟩

/-- The gate is sound where it marks none of them. -/
theorem sound_iff_unmarked :
    (∀ row ∈ gateTop old new n threshold top minBasePct newFrameFloorPct,
      row.regressed = true → old.pct row.name < new.pct row.name) ↔
    ∀ f, new.pct f ≤ old.pct f →
      ¬ ∃ row ∈ gateTop old new n threshold top minBasePct newFrameFloorPct,
        row.name = f ∧ row.regressed = true := by
  constructor
  · rintro hsound f hle ⟨row, hrow, rfl, hmarked⟩
    exact absurd (hsound row hrow hmarked) (not_lt.mpr hle)
  · intro hnone row hrow hmarked
    by_contra hle
    exact hnone row.name (not_lt.mp hle) ⟨row, hrow, rfl, hmarked⟩

end

/-- **When the gate marks only what grew**: there is no frame that did not grow in the full
profiles and was cut off the baseline file, or that a limit is set below. -/
theorem diff_sound_iff (old new : Profile) (n : ℕ) (threshold : ℚ) (top : ℕ)
    (minBasePct newFrameFloorPct : ℚ) :
    (∀ row ∈ gateTop old new n threshold top minBasePct newFrameFloorPct,
      row.regressed = true → old.pct row.name < new.pct row.name) ↔
    ∀ f, new.pct f ≤ old.pct f →
      ¬ CutOff old new n top minBasePct newFrameFloorPct f ∧
      ¬ BelowLimit old new n threshold top minBasePct newFrameFloorPct f := by
  rw [sound_iff_unmarked]
  refine forall_congr' fun f => forall_congr' fun hle => ?_
  rw [marked_iff hle, not_or]

/-- Two frames of which the files keep one: `b` spends 10% in both profiles, and comes first
only in the new one. -/
theorem diff_marks_improvement :
    let old : Profile := ⟨[("a", 50), ("b", 10)], by decide⟩
    let new : Profile := ⟨[("b", 10), ("a", 5)], by decide⟩
    ¬ ∀ row ∈ gateTop old new 1 (1 / 5) 5 1 5, row.regressed = true → old.pct row.name < new.pct row.name := by
  intro old new hsound
  have hold : (old.topFrames 1).rows = [("a", 50)] := by
    have hsort : old.rows.mergeSort ByName.hotter = old.rows := List.mergeSort_of_pairwise (by decide)
    norm_num [Profile.topFrames, ByName.hottest, hsort, old, round4, roundHalfAway]
  have hnew : (new.topFrames 1).rows = [("b", 10)] := by
    have hsort : new.rows.mergeSort ByName.hotter = new.rows := List.mergeSort_of_pairwise (by decide)
    norm_num [Profile.topFrames, ByName.hottest, hsort, new, round4, roundHalfAway]
  have hshown : "b" ∈ topNames (new.topFrames 1) 5 := by simp [topNames, hnew]
  have hhot : (old.topFrames 1).pct "b" < 1 ∧ 5 ≤ (new.topFrames 1).pct "b" := by
    simp [ByName.get, hold, hnew]
    norm_num
  have hrow := hsound _ (mem_diff.mpr ⟨"b", .inr hshown, rfl⟩) (regressed_rowOf.mpr (.inr hhot))
  rw [name_rowOf] at hrow
  exact absurd hrow (by decide)

end Konfig.Flamediff
