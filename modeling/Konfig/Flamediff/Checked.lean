import Konfig.Flamediff.Pprof
import Konfig.Lib.Checked

/-!
# Reading malformed profiles

`decode_levels`, `top_frames` and `to_pprof` with every index and every sum that could make
them panic.  Nothing in a profile is checked before: names are numbers, and offsets and
totals are whatever the rows hold.

* `decodeLevels_returns`: the bars are decoded when the positions of every row stay within an
  `i64`; linking them never fails.
* `forall_bars_iff`, `selfTimes_eq`: what the bars are of, in terms of the numbers of the rows.
* `addAll_returns`: when the self times can be added up by name.
-/

namespace Konfig.Flamediff

open Lib Lib.Protobuf

/-- A signed 64-bit number. -/
def InI64 (n : ℤ) : Prop := -2 ^ 63 ≤ n ∧ n < 2 ^ 63

instance : DecidablePred InI64 := fun n => inferInstanceAs (Decidable (-2 ^ 63 ≤ n ∧ n < 2 ^ 63))

/-! ### Decoding -/

/-- The loop over the groups of a row, from the index `j` on. -/
def readBarsChecked (lvl : List ℤ) (x : ℤ) (j : ℕ) : Checked (List Bar) :=
  if j + 3 < lvl.length then do
    let offset ← Checked.index lvl j
    let x ← Checked.number InI64 (x + offset)
    let total ← Checked.index lvl (j + 1)
    let x1 ← Checked.number InI64 (x + total)
    let self_ ← Checked.index lvl (j + 2)
    let name ← Checked.index lvl (j + 3)
    let next ← Checked.number InI64 (x + total)
    let bars ← readBarsChecked lvl next (j + 4)
    return { x0 := x, x1, self_, nameIdx := asUnsigned name, parent := none } :: bars
  else return []
termination_by lvl.length - j

/-- The loop that moves the parent cursor. -/
def advanceChecked (parents : List Bar) (x0 : ℤ) (pi : ℕ) : Checked ℕ :=
  if pi < parents.length then do
    let p ← Checked.index parents pi
    if p.x1 ≤ x0 then advanceChecked parents x0 (pi + 1) else return pi
  else return pi
termination_by parents.length - pi

def linkBarsChecked (parents : List Bar) : ℕ → List Bar → Checked (List Bar)
  | _, [] => return []
  | pi, bar :: bars => do
    let pi ← advanceChecked parents bar.x0 pi
    let parent ←
      if pi < parents.length then do
        let p ← Checked.index parents pi
        pure (if p.Holds bar then some pi else bar.parent)
      else pure bar.parent
    let rest ← linkBarsChecked parents pi bars
    return { bar with parent } :: rest

/-- Link the bars of one depth to those above. -/
def linkDepth (perDepth : List (List Bar)) (depth : ℕ) : Checked (List (List Bar)) := do
  let above ← Checked.sub depth 1
  let parents ← Checked.index perDepth above
  let cur ← Checked.index perDepth depth
  let cur ← linkBarsChecked parents 0 cur
  return perDepth.set depth cur

def Flamebearer.decodeLevelsChecked (fb : Flamebearer) : Checked (List (List Bar)) := do
  let perDepth ← fb.levels.mapM fun lvl => readBarsChecked lvl 0 0
  (List.range' 1 (perDepth.length - 1)).foldlM linkDepth perDepth

/-! ### Top frames -/

/-- Add the self time of a bar to the entry of its name. -/
def Flamebearer.addSelf (fb : Flamebearer) (byName : ByName ℤ) (bar : Bar) : Checked (ByName ℤ) := do
  let name ← Checked.index fb.names bar.nameIdx
  let _ ← Checked.number InI64 (byName.get name + bar.self_)
  return byName.add name bar.self_

def Flamebearer.byNameChecked (fb : Flamebearer) (bars : List Bar) : Checked (ByName ℤ) :=
  bars.foldlM fb.addSelf ByName.empty

/-- The total; `order` is the order in which a hash map hands out its values. -/
def Flamebearer.totalChecked (fb : Flamebearer) (order : List ℤ → List ℤ) (byName : ByName ℤ) : Checked ℤ :=
  if 0 < fb.numTicks then return fb.numTicks
  else do
    let sum ← Checked.sumFrom InI64 0 (order (byName.rows.map Prod.snd))
    return if 0 < sum then sum else 1

def Flamebearer.topFramesChecked (fb : Flamebearer) (order : List ℤ → List ℤ) (n : ℕ)
    (exclude : Option (String → Bool)) : Checked (List (String × ℚ)) := do
  let perDepth ← fb.decodeLevelsChecked
  let byName ← fb.byNameChecked perDepth.flatten
  let total ← fb.totalChecked order byName
  let rows := byName.filter (included exclude)
  return (rows.hottest n).map fun e => (e.1, round4 (e.2 / total * 100))

/-! ### Pprof -/

def Flamebearer.addBarsChecked (fb : Flamebearer) (t : Tables) (bars : List Bar) : Checked Tables :=
  bars.foldlM (fun t bar => do
    let name ← Checked.index fb.names bar.nameIdx
    return t.addName name) t

/-- The location id of the bar number `ci` at the depth `cd`, and its parent. -/
def Flamebearer.locate (fb : Flamebearer) (t : Tables) (perDepth : List (List Bar)) (cd ci : ℕ) :
    Checked (ℕ × Option ℕ) := do
  let bars ← Checked.index perDepth cd
  let bar ← Checked.index bars ci
  let name ← Checked.index fb.names bar.nameIdx
  let lid ← Checked.expect (t.locationId name)
  return (lid, bar.parent)

/-- The location ids from a bar up to its root; `cd -= 1` has nothing to take from at the top. -/
def Flamebearer.walk (fb : Flamebearer) (t : Tables) (perDepth : List (List Bar)) : ℕ → ℕ → Checked (List ℕ)
  | 0, ci => do
    let (lid, parent) ← fb.locate t perDepth 0 ci
    match parent with
    | none => return [lid]
    | some _ => .error .overflow
  | cd + 1, ci => do
    let (lid, parent) ← fb.locate t perDepth (cd + 1) ci
    match parent with
    | none => return [lid]
    | some pi => do
      let stack ← fb.walk t perDepth cd pi
      return lid :: stack

def Flamebearer.sampleChecked (fb : Flamebearer) (t : Tables) (scale : ℤ) (perDepth : List (List Bar))
    (d i : ℕ) : Checked Bytes := do
  let bars ← Checked.index perDepth d
  let bar ← Checked.index bars i
  if bar.self_ ≤ 0 then return []
  else do
    let stack ← fb.walk t perDepth d i
    let value ← Checked.number InI64 (bar.self_ * scale)
    return lfield 2 (packed 1 stack ++ packed 2 [asUnsigned value])

def Flamebearer.samplesChecked (fb : Flamebearer) (t : Tables) (scale : ℤ) (perDepth : List (List Bar)) :
    Checked Bytes := do
  let samples ← (List.range perDepth.length).mapM fun d => do
    let bars ← Checked.index perDepth d
    let samples ← (List.range bars.length).mapM (fb.sampleChecked t scale perDepth d)
    return samples.flatten
  return samples.flatten

/-- The profile around the samples. -/
def profileBytes (st : SampleType) (t : Tables) (samples : Bytes) : Bytes :=
  let (type, strings) := t.strings.get st.type
  let (unit, strings) := strings.get st.unit
  let body := lfield 1 (vfield 1 type ++ vfield 2 unit) ++ samples ++ t.functions ++ t.locations
  let (type, strings) := strings.get st.type
  let (unit, strings) := strings.get st.unit
  let body := body ++ lfield 11 (vfield 1 type ++ vfield 2 unit) ++ vfield 12 st.period
  body ++ strings.strings.flatMap fun s => lfield 6 (utf8 s)

def Flamebearer.toPprofChecked (fb : Flamebearer) (ns : ℤ → ℤ) : Checked Bytes := do
  let perDepth ← fb.decodeLevelsChecked
  let st := fb.sampleType ns
  let t ← fb.addBarsChecked .new perDepth.flatten
  let samples ← fb.samplesChecked t st.scale perDepth
  return profileBytes st t samples

/-- The location of a name number. -/
def Flamebearer.loc (fb : Flamebearer) (t : Tables) (nameIdx : ℕ) : Option ℕ := do
  t.locationId (← fb.names[nameIdx]?)

/-! ### The numbers of a profile -/

/-- The numbers of one bar. -/
structure Group where
  offset : ℤ
  total : ℤ
  self_ : ℤ
  name : ℤ
  deriving DecidableEq, Repr

/-- The complete groups of a row. -/
def groups : List ℤ → List Group
  | offset :: total :: self_ :: name :: lvl => { offset, total, self_, name } :: groups lvl
  | _ => []

/-- What a row adds to its cursor, in this order. -/
def steps (lvl : List ℤ) : List ℤ := (groups lvl).flatMap fun g => [g.offset, g.total]

theorem steps_cons (offset total self_ name : ℤ) (lvl : List ℤ) :
    steps (offset :: total :: self_ :: name :: lvl) = offset :: total :: steps lvl := rfl

def Flamebearer.groups (fb : Flamebearer) : List Group := fb.levels.flatMap Flamediff.groups

/-- The positions of every row stay within an `i64`. -/
def Flamebearer.RowsFit (fb : Flamebearer) : Prop :=
  ∀ row ∈ fb.levels, Checked.PartialSums InI64 0 (steps row)

/-! ### Bars -/

/-- A row without a complete group. -/
theorem short_row (lvl : List ℤ)
    (h : ∀ offset total self_ name rest, lvl = offset :: total :: self_ :: name :: rest → False) (x : ℤ) :
    readBars x lvl = [] ∧ groups lvl = [] := by
  match lvl, h with
  | [], _ | [_], _ | [_, _], _ | [_, _, _], _ => exact ⟨rfl, rfl⟩
  | offset :: total :: self_ :: name :: rest, h => exact absurd rfl (h offset total self_ name rest)

theorem readBarsChecked_returns (lvl : List ℤ) (x : ℤ) (j : ℕ) :
    Checked.Returns (readBarsChecked lvl x j) (Checked.PartialSums InI64 x (steps (lvl.drop j)))
      (readBars x (lvl.drop j)) := by
  induction hlen : lvl.length - j using Nat.strongRecOn generalizing x j with
  | ind n ih =>
    rw [readBarsChecked]
    split
    · rename_i hj
      have hget : ∀ k (hk : k < lvl.length), Checked.index lvl k = .ok lvl[k] := fun k hk =>
        Checked.index_eq_ok.mpr (List.getElem?_eq_getElem hk)
      have hdrop : lvl.drop j = lvl[j] :: lvl[j + 1] :: lvl[j + 2] :: lvl[j + 3] :: lvl.drop (j + 4) := by
        rw [List.drop_eq_getElem_cons (by omega), List.drop_eq_getElem_cons (by omega),
          List.drop_eq_getElem_cons (by omega), List.drop_eq_getElem_cons (by omega)]
      rw [hget j (by omega), hget (j + 1) (by omega), hget (j + 2) (by omega), hget (j + 3) hj, hdrop]
      simp only [Checked.ok_bind, readBars]
      have hrest := ih (lvl.length - (j + 4)) (by omega) (x + lvl[j] + lvl[j + 1]) (j + 4) rfl
      refine ((Checked.number_returns InI64 (x + lvl[j])).bind fun _ =>
        (Checked.number_returns InI64 (x + lvl[j] + lvl[j + 1])).bind fun _ =>
          (Checked.number_returns InI64 (x + lvl[j] + lvl[j + 1])).bind fun _ =>
            hrest.map).congr ?_
      rw [steps_cons, Checked.partialSums_cons, Checked.partialSums_cons]
      tauto
    · rename_i hj
      have hshort : ∀ offset total self_ name rest, lvl.drop j = offset :: total :: self_ :: name :: rest →
          False := by
        intro offset total self_ name rest hdrop
        have hlength := congrArg List.length hdrop
        simp only [List.length_drop, List.length_cons] at hlength
        omega
      rw [steps, (short_row _ hshort x).1, (short_row _ hshort x).2]
      exact (Checked.Returns.ok []).congr (iff_of_true trivial (Checked.partialSums_nil x))

/-! ### Parents -/

theorem advanceChecked_eq (parents : List Bar) (x0 : ℤ) (pi : ℕ) :
    advanceChecked parents x0 pi = .ok (advance x0 (parents.drop pi) pi) := by
  induction hlen : parents.length - pi using Nat.strongRecOn generalizing pi with
  | ind n ih =>
    rw [advanceChecked]
    split
    · rename_i hpi
      rw [Checked.index_eq_ok.mpr (List.getElem?_eq_getElem hpi), List.drop_eq_getElem_cons hpi, advance,
        Checked.ok_bind]
      split
      · exact ih _ (by omega) (pi + 1) rfl
      · rfl
    · rename_i hpi
      rw [List.drop_of_length_le (Nat.le_of_not_lt hpi), advance]
      rfl

theorem linkBarsChecked_eq (parents : List Bar) (bars : List Bar) : ∀ pi,
    linkBarsChecked parents pi bars = .ok (linkBars parents pi bars) := by
  induction bars with
  | nil => exact fun _ => rfl
  | cons bar bars ih =>
    intro pi
    simp only [linkBarsChecked, linkBars, advanceChecked_eq, Checked.ok_bind]
    generalize advance bar.x0 (parents.drop pi) pi = pi'
    split
    · rename_i hpi
      simp only [Checked.index_eq_ok.mpr (List.getElem?_eq_getElem hpi), Checked.ok_bind, pure_bind, ih]
      simp [List.getElem?_eq_getElem hpi]
      rfl
    · rename_i hpi
      simp only [pure_bind, ih, Checked.ok_bind]
      simp [List.getElem?_eq_none (Nat.le_of_not_lt hpi)]
      rfl

theorem linkDepth_eq {above below : List (List Bar)} {parents bars : List Bar} :
    linkDepth (above ++ parents :: bars :: below) (above.length + 1) =
      .ok (above ++ parents :: linkBars parents 0 bars :: below) := by
  have hparents : (above ++ parents :: bars :: below)[above.length]? = some parents := by simp
  have hcur : (above ++ parents :: bars :: below)[above.length + 1]? = some bars := by simp
  simp only [linkDepth, Checked.sub_of_le (Nat.le_add_left 1 _), Nat.add_sub_cancel, Checked.ok_bind,
    Checked.index_eq_ok.mpr hparents, Checked.index_eq_ok.mpr hcur, linkBarsChecked_eq]
  rw [List.set_append_right _ _ (Nat.le_succ _), Nat.succ_sub (le_refl _), Nat.sub_self]
  rfl

/-- Every depth is linked once the one above it is. -/
theorem foldlM_linkDepth (perDepth : List (List Bar)) : ∀ (above : List (List Bar)) (parents : List Bar),
    (List.range' (above.length + 1) perDepth.length).foldlM linkDepth (above ++ parents :: perDepth) =
      .ok (above ++ parents :: linkLevels parents perDepth) := by
  induction perDepth with
  | nil => exact fun _ _ => rfl
  | cons bars perDepth ih =>
    intro above parents
    have hnext := ih (above ++ [parents]) (linkBars parents 0 bars)
    rw [List.length_append, List.length_singleton, List.append_assoc, List.append_assoc] at hnext
    rw [List.length_cons, List.range'_succ, List.foldlM_cons, linkDepth_eq, Checked.ok_bind]
    exact hnext

/-- **Decoding** needs the positions of each row, and nothing for the links. -/
theorem Flamebearer.decodeLevels_returns (fb : Flamebearer) :
    Checked.Returns fb.decodeLevelsChecked fb.RowsFit fb.decodeLevels := by
  have hread : Checked.Returns (fb.levels.mapM fun lvl => readBarsChecked lvl 0 0) fb.RowsFit
      (fb.levels.map (readBars 0)) :=
    Checked.Returns.mapM fun row _ => readBarsChecked_returns row 0 0
  have hlink : (List.range' 1 ((fb.levels.map (readBars 0)).length - 1)).foldlM linkDepth
      (fb.levels.map (readBars 0)) = .ok fb.decodeLevels := by
    unfold Flamebearer.decodeLevels
    cases fb.levels.map (readBars 0) with
    | nil => rfl
    | cons roots perDepth => exact foldlM_linkDepth perDepth [] roots
  have hok : Checked.Returns ((List.range' 1 ((fb.levels.map (readBars 0)).length - 1)).foldlM linkDepth
      (fb.levels.map (readBars 0))) True fb.decodeLevels := by
    rw [hlink]
    exact Checked.Returns.ok _
  exact (hread.bind fun _ => hok).congr (iff_of_eq (and_true _))

/-! ### What the bars are of -/

/-- The self time and the name number of a bar: what linking leaves alone. -/
def Bar.own (bar : Bar) : ℤ × ℕ := (bar.self_, bar.nameIdx)

def Group.own (g : Group) : ℤ × ℕ := (g.self_, asUnsigned g.name)

theorem own_readBars (lvl : List ℤ) (x : ℤ) : (readBars x lvl).map Bar.own = (groups lvl).map Group.own := by
  induction x, lvl using readBars.induct with
  | case1 x offset total self_ name lvl ih =>
    rw [readBars, groups, List.map_cons, List.map_cons, ih]
    rfl
  | case2 lvl x hshort =>
    have hnone := short_row lvl hshort x
    rw [hnone.1, hnone.2]
    rfl

theorem own_linkBars (parents bars : List Bar) (pi : ℕ) :
    (linkBars parents pi bars).map Bar.own = bars.map Bar.own := by
  induction bars generalizing pi with
  | nil => rfl
  | cons bar bars ih => rw [linkBars, List.map_cons, List.map_cons, ih, Bar.own, Bar.own]

theorem own_linkLevels (perDepth : List (List Bar)) : ∀ parents,
    (linkLevels parents perDepth).map (List.map Bar.own) = perDepth.map (List.map Bar.own) := by
  induction perDepth with
  | nil => exact fun _ => rfl
  | cons bars perDepth ih =>
    intro parents
    rw [linkLevels, List.map_cons, List.map_cons, ih, own_linkBars]

/-- The bars are those of the groups, in their order. -/
theorem Flamebearer.own_decodeLevels (fb : Flamebearer) :
    fb.decodeLevels.flatten.map Bar.own = fb.groups.map Group.own := by
  have hlinked : fb.decodeLevels.map (List.map Bar.own) =
      (fb.levels.map (readBars 0)).map (List.map Bar.own) := by
    unfold Flamebearer.decodeLevels
    cases fb.levels.map (readBars 0) with
    | nil => rfl
    | cons roots perDepth => rw [List.map_cons, List.map_cons, own_linkLevels]
  rw [List.map_flatten, hlinked, Flamebearer.groups, List.flatMap, List.map_flatten, List.map_map, List.map_map]
  congr 1
  exact List.map_congr_left fun lvl _ => own_readBars lvl 0

/-- What holds of all bars by their self time and name holds of all groups. -/
theorem Flamebearer.forall_bars_iff (fb : Flamebearer) (P : ℤ → ℕ → Prop) :
    (∀ bar ∈ fb.decodeLevels.flatten, P bar.self_ bar.nameIdx) ↔
      ∀ g ∈ fb.groups, P g.self_ (asUnsigned g.name) := by
  have hall : ∀ own : List (ℤ × ℕ), own = fb.groups.map Group.own →
      ((∀ o ∈ own, P o.1 o.2) ↔ ∀ g ∈ fb.groups, P g.self_ (asUnsigned g.name)) := by
    rintro _ rfl
    exact List.forall_mem_map
  rw [← hall _ fb.own_decodeLevels, List.forall_mem_map]
  rfl

/-- Every bar has a name. -/
def Flamebearer.Named (fb : Flamebearer) : Prop := ∀ g ∈ fb.groups, asUnsigned g.name < fb.names.length

theorem Flamebearer.named_iff {fb : Flamebearer} :
    (∀ bar ∈ fb.decodeLevels.flatten, bar.nameIdx < fb.names.length) ↔ fb.Named :=
  fb.forall_bars_iff fun _ nameIdx => nameIdx < fb.names.length

/-- The self times of the bars of a name, in their order. -/
def Flamebearer.selfTimes (fb : Flamebearer) (name : String) : List ℤ :=
  (fb.groups.filter fun g => fb.names[asUnsigned g.name]? = some name).map Group.self_

/-- What a name spends of its own. -/
def Flamebearer.selfTime (fb : Flamebearer) (name : String) : ℤ := (fb.selfTimes name).sum

theorem Flamebearer.selfTimes_eq (fb : Flamebearer) (name : String) :
    fb.selfTimes name =
      (fb.decodeLevels.flatten.filter fun bar => fb.names[bar.nameIdx]? = some name).map Bar.self_ := by
  have hall : ∀ own : List (ℤ × ℕ), own = fb.groups.map Group.own →
      (own.filter fun o => fb.names[o.2]? = some name).map Prod.fst = fb.selfTimes name := by
    rintro _ rfl
    rw [List.filter_map, List.map_map]
    rfl
  rw [← hall _ fb.own_decodeLevels, List.filter_map, List.map_map]
  rfl

/-! ### Self times by name -/

theorem ByName.get_add (p : ByName ℤ) (name f : String) (x : ℤ) :
    (p.add name x).get f = p.get f + if name = f then x else 0 := by
  have hrows : ∀ rows : List (String × ℤ),
      (((addTo name x rows).find? fun e => e.1 = f).elim 0 Prod.snd : ℤ) =
        (rows.find? fun e => e.1 = f).elim 0 Prod.snd + if name = f then x else 0 := by
    intro rows
    induction rows with
    | nil => by_cases h : name = f <;> simp [addTo, h]
    | cons e rows ih =>
      rw [addTo]
      by_cases he : e.1 = name
      · by_cases hf : name = f
        · simp [he, hf]
        · simp [he, hf]
      · rw [if_neg he]
        by_cases hf : e.1 = f
        · have hne : name ≠ f := fun h => he (hf.trans h.symm)
          simp [hf, hne]
        · simpa [List.find?_cons, hf] using ih
  have hget : ∀ q : ByName ℤ, q.get f = (q.rows.find? fun e => e.1 = f).elim 0 Prod.snd := by
    intro q
    unfold get
    cases q.rows.find? fun e => e.1 = f <;> rfl
  rw [hget, hget]
  exact hrows p.rows

section

variable (fb : Flamebearer)

/-- The self times of the bars of a name. -/
def Flamebearer.selfTimesOf (name : String) (bars : List Bar) : List ℤ :=
  (bars.filter fun bar => fb.names[bar.nameIdx]? = some name).map Bar.self_

/-- The self times added up by name; the default is for a bar without one. -/
def Flamebearer.addAll (p : ByName ℤ) (bars : List Bar) : ByName ℤ :=
  bars.foldl (fun byName bar => byName.add (fb.names.getD bar.nameIdx "") bar.self_) p

variable {fb}

theorem Flamebearer.selfTimesOf_cons {bar : Bar} (hbar : bar.nameIdx < fb.names.length) (bars : List Bar)
    (name : String) : fb.selfTimesOf name (bar :: bars) =
      if fb.names.getD bar.nameIdx "" = name then bar.self_ :: fb.selfTimesOf name bars
      else fb.selfTimesOf name bars := by
  have hname : fb.names[bar.nameIdx]? = some (fb.names.getD bar.nameIdx "") := by simp [hbar]
  unfold Flamebearer.selfTimesOf
  rw [List.filter_cons, hname]
  simp only [Option.some.injEq, decide_eq_true_eq]
  split <;> rfl

theorem Flamebearer.addAll_returns (bars : List Bar) (p : ByName ℤ) :
    Checked.Returns (bars.foldlM fb.addSelf p)
      ((∀ bar ∈ bars, bar.nameIdx < fb.names.length) ∧
        ∀ name, Checked.PartialSums InI64 (p.get name) (fb.selfTimesOf name bars))
      (fb.addAll p bars) := by
  induction bars generalizing p with
  | nil =>
    refine (Checked.Returns.ok p).congr (iff_of_true trivial ⟨nofun, fun name => ?_⟩)
    exact Checked.partialSums_nil (p.get name)
  | cons bar bars ih =>
    rw [List.foldlM_cons]
    have hstep : Checked.Returns (fb.addSelf p bar)
        (bar.nameIdx < fb.names.length ∧ InI64 (p.get (fb.names.getD bar.nameIdx "") + bar.self_))
        (p.add (fb.names.getD bar.nameIdx "") bar.self_) :=
      (Checked.index_returns fb.names bar.nameIdx "").bind fun _ => (Checked.number_returns InI64 _).map
    refine (hstep.bind fun _ => ih _).congr ?_
    rw [List.forall_mem_cons]
    constructor
    · rintro ⟨⟨hbar, hnumber⟩, hbars, hsums⟩
      refine ⟨⟨hbar, hbars⟩, fun name => ?_⟩
      have hname := hsums name
      rw [ByName.get_add] at hname
      rw [Flamebearer.selfTimesOf_cons hbar]
      split
      · rename_i heq
        rw [if_pos heq] at hname
        rw [Checked.partialSums_cons]
        exact ⟨heq ▸ hnumber, hname⟩
      · rename_i hne
        rwa [if_neg hne, add_zero] at hname
    · rintro ⟨⟨hbar, hbars⟩, hsums⟩
      have hown := hsums (fb.names.getD bar.nameIdx "")
      rw [Flamebearer.selfTimesOf_cons hbar, if_pos rfl, Checked.partialSums_cons] at hown
      refine ⟨⟨hbar, hown.1⟩, hbars, fun name => ?_⟩
      have hname := hsums name
      rw [Flamebearer.selfTimesOf_cons hbar] at hname
      rw [ByName.get_add]
      split
      · rename_i heq
        rw [if_pos heq, Checked.partialSums_cons] at hname
        exact hname.2
      · rename_i hne
        rw [if_neg hne] at hname
        rwa [add_zero]

theorem Flamebearer.get_addAll {bars : List Bar} (hbars : ∀ bar ∈ bars, bar.nameIdx < fb.names.length)
    (p : ByName ℤ) (name : String) :
    (fb.addAll p bars).get name = p.get name + (fb.selfTimesOf name bars).sum := by
  induction bars generalizing p with
  | nil => exact (add_zero _).symm
  | cons bar bars ih =>
    obtain ⟨hbar, hbars⟩ := List.forall_mem_cons.mp hbars
    have hnext := ih hbars (p.add (fb.names.getD bar.nameIdx "") bar.self_)
    rw [ByName.get_add] at hnext
    rw [Flamebearer.selfTimesOf_cons hbar]
    refine hnext.trans ?_
    split
    · rw [List.sum_cons, add_assoc]
    · rw [add_zero]

/-- Only names of the table get a value. -/
theorem Flamebearer.mem_addAll {bars : List Bar} (hbars : ∀ bar ∈ bars, bar.nameIdx < fb.names.length)
    {p : ByName ℤ} (hp : ∀ name, p.Mem name → name ∈ fb.names) :
    ∀ name, (fb.addAll p bars).Mem name → name ∈ fb.names := by
  induction bars generalizing p with
  | nil => exact hp
  | cons bar bars ih =>
    obtain ⟨hbar, hbars⟩ := List.forall_mem_cons.mp hbars
    refine ih hbars fun name hmem => ?_
    rcases ByName.mem_addTo.mp hmem with rfl | hold
    · rw [List.getD_eq_getElem?_getD, List.getElem?_eq_getElem hbar, Option.getD_some]
      exact List.getElem_mem hbar
    · exact hp name hold

/-- With all names in the table it is `byName`. -/
theorem Flamebearer.byName_eq (hnamed : ∀ bar ∈ fb.decodeLevels.flatten, bar.nameIdx < fb.names.length) :
    fb.byName = some (fb.addAll .empty fb.decodeLevels.flatten) := by
  have hfold : ∀ (bars : List Bar) (p : ByName ℤ), (∀ bar ∈ bars, bar.nameIdx < fb.names.length) →
      bars.foldlM (fun byName bar => fb.names[bar.nameIdx]?.map fun name => byName.add name bar.self_) p =
        some (fb.addAll p bars) := by
    intro bars
    induction bars with
    | nil => exact fun _ _ => rfl
    | cons bar bars ih =>
      intro p hbars
      obtain ⟨hbar, hbars⟩ := List.forall_mem_cons.mp hbars
      rw [List.foldlM_cons, List.getElem?_eq_getElem hbar]
      have hname : fb.names.getD bar.nameIdx "" = fb.names[bar.nameIdx] := by simp [hbar]
      refine (ih _ hbars).trans ?_
      rw [Flamebearer.addAll, Flamebearer.addAll, List.foldl_cons, hname]
  exact hfold _ _ hnamed

end

end Konfig.Flamediff
