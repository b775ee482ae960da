import Konfig.Flamediff.Checked
import Konfig.Flamediff.Faithful

/-!
# When the profile is written

`to_pprof` looks names up by their number and walks from every bar with self time up to its
root.  The walks are over parents that linking has found, so they end whatever the profile is
(`allLinked_decodeLevels`); what can go wrong is a name number and the product with the scale.

* `toPprof_iff`: when it never panics.
* `toPprofChecked_eq`: what it writes is what `toPprof` says.
* `toPprofChecked_reads`: of a forest, it is read back as it is.
-/

namespace Konfig.Flamediff

open Lib Lib.Protobuf

/-! ### Walks -/

/-- The parent of a bar is a bar of the level above. -/
def LinkedTo (above : List (List Bar)) (bar : Bar) : Prop :=
  match bar.parent, above with
  | none, _ => True
  | some _, [] => False
  | some pi, bars :: _ => pi < bars.length

/-- All bars of some levels are linked, the nearest level first. -/
def AllLinked : List (List Bar) → Prop
  | [] => True
  | bars :: above => (∀ bar ∈ bars, LinkedTo above bar) ∧ AllLinked above

theorem AllLinked.right {nearest above : List (List Bar)} (h : AllLinked (nearest ++ above)) : AllLinked above := by
  induction nearest with
  | nil => exact h
  | cons bars nearest ih => exact ih h.2

theorem parent_readBars (x : ℤ) (lvl : List ℤ) : ∀ bar ∈ readBars x lvl, bar.parent = none := by
  induction x, lvl using readBars.induct with
  | case1 x offset total self_ name lvl ih =>
    rw [readBars, List.forall_mem_cons]
    exact ⟨rfl, ih⟩
  | case2 lvl x hshort =>
    have hnone := short_row lvl hshort x
    rw [hnone.1]
    exact fun bar hbar => absurd hbar List.not_mem_nil

theorem linked_linkBars {parents : List Bar} (above : List (List Bar)) {bars : List Bar}
    (hbars : ∀ bar ∈ bars, bar.parent = none) :
    ∀ pi, ∀ bar ∈ linkBars parents pi bars, LinkedTo (parents :: above) bar := by
  induction bars with
  | nil => exact fun _ => nofun
  | cons bar bars ih =>
    obtain ⟨hbar, hbars⟩ := List.forall_mem_cons.mp hbars
    intro pi
    rw [linkBars, List.forall_mem_cons]
    refine ⟨?_, ih hbars _⟩
    rw [hbar]
    generalize advance bar.x0 (parents.drop pi) pi = pi'
    unfold LinkedTo
    cases hget : parents[pi']? with
    | none => simp
    | some p =>
      have hlt := (List.getElem?_eq_some_iff.mp hget).1
      by_cases hholds : p.Holds bar <;> simp [hholds, hlt]

theorem allLinked_linkLevels {perDepth : List (List Bar)}
    (hnone : ∀ bars ∈ perDepth, ∀ bar ∈ bars, bar.parent = none) :
    ∀ {parents : List Bar} {above : List (List Bar)}, AllLinked (parents :: above) →
      AllLinked ((linkLevels parents perDepth).reverse ++ parents :: above) := by
  induction perDepth with
  | nil => exact fun h => h
  | cons bars perDepth ih =>
    intro parents above h
    obtain ⟨hbars, hrest⟩ := List.forall_mem_cons.mp hnone
    rw [linkLevels, List.reverse_cons, List.append_assoc]
    exact ih hrest ⟨linked_linkBars above hbars 0, h⟩

theorem Flamebearer.allLinked_decodeLevels (fb : Flamebearer) : AllLinked fb.decodeLevels.reverse := by
  have hnone : ∀ bars ∈ fb.levels.map (readBars 0), ∀ bar ∈ bars, bar.parent = none :=
    List.forall_mem_map.mpr fun lvl _ => parent_readBars 0 lvl
  unfold Flamebearer.decodeLevels
  cases hlevels : fb.levels.map (readBars 0) with
  | nil => exact trivial
  | cons roots perDepth =>
    rw [hlevels] at hnone
    obtain ⟨hroots, hrest⟩ := List.forall_mem_cons.mp hnone
    have hlinked : AllLinked [roots] := by
      refine ⟨fun bar hbar => ?_, trivial⟩
      unfold LinkedTo
      rw [hroots bar hbar]
      trivial
    rw [List.reverse_cons]
    exact allLinked_linkLevels hrest hlinked

/-- A walk over linked bars whose names have locations gets to its root. -/
theorem stackOf_isSome {loc : ℕ → Option ℕ} : ∀ {above : List (List Bar)} {bar : Bar}, AllLinked above →
    LinkedTo above bar → (∀ bars ∈ above, ∀ b ∈ bars, (loc b.nameIdx).isSome) → (loc bar.nameIdx).isSome →
    (stackOf loc above bar).isSome := by
  intro above
  induction above with
  | nil =>
    intro bar _ hlink _ hloc
    obtain ⟨lid, hlid⟩ := Option.isSome_iff_exists.mp hloc
    rw [stackOf, hlid]
    cases hparent : bar.parent with
    | none => rfl
    | some pi => simp [LinkedTo, hparent] at hlink
  | cons bars above ih =>
    intro bar hall hlink hlocs hloc
    obtain ⟨lid, hlid⟩ := Option.isSome_iff_exists.mp hloc
    rw [stackOf, hlid]
    cases hparent : bar.parent with
    | none => rfl
    | some pi =>
      have hpi : pi < bars.length := by simpa [LinkedTo, hparent] using hlink
      obtain ⟨hbars, habove⟩ := List.forall_mem_cons.mp hlocs
      have hmem := List.getElem_mem hpi
      obtain ⟨stack, hstack⟩ := Option.isSome_iff_exists.mp
        (ih hall.2 (hall.1 _ hmem) habove (hbars _ hmem))
      simp [List.getElem?_eq_getElem hpi, hstack]

section

variable {fb : Flamebearer} {t : Tables} {perDepth : List (List Bar)}

theorem Flamebearer.locate_eq {d i lid : ℕ} {bars : List Bar} {bar : Bar} (hbars : perDepth[d]? = some bars)
    (hbar : bars[i]? = some bar) (hloc : fb.loc t bar.nameIdx = some lid) :
    fb.locate t perDepth d i = .ok (lid, bar.parent) := by
  obtain ⟨name, hname, hlid⟩ := Option.bind_eq_some_iff.mp hloc
  rw [Flamebearer.locate, Checked.index_eq_ok.mpr hbars, Checked.ok_bind, Checked.index_eq_ok.mpr hbar,
    Checked.ok_bind, Checked.index_eq_ok.mpr hname, Checked.ok_bind, Checked.expect_eq_ok.mpr hlid]
  rfl

/-- The walk by indices finds the stack. -/
theorem Flamebearer.walk_eq {d i : ℕ} {bars : List Bar} {bar : Bar} {stack : List ℕ}
    (hbars : perDepth[d]? = some bars) (hbar : bars[i]? = some bar)
    (hstack : stackOf (fb.loc t) (perDepth.take d).reverse bar = some stack) :
    fb.walk t perDepth d i = .ok stack := by
  induction d generalizing i bars bar stack with
  | zero =>
    rw [List.take_zero, List.reverse_nil, stackOf] at hstack
    obtain ⟨lid, hlid, hstack⟩ := Option.bind_eq_some_iff.mp hstack
    rw [Flamebearer.walk, Flamebearer.locate_eq hbars hbar hlid, Checked.ok_bind]
    cases hparent : bar.parent with
    | none =>
      rw [hparent] at hstack
      cases hstack
      rfl
    | some pi =>
      rw [hparent] at hstack
      cases hstack
  | succ d ih =>
    have hd : d < perDepth.length := Nat.lt_of_succ_lt (List.getElem?_eq_some_iff.mp hbars).1
    rw [List.take_succ_eq_append_getElem hd, List.reverse_append, List.reverse_singleton,
      List.singleton_append, stackOf] at hstack
    obtain ⟨lid, hlid, hstack⟩ := Option.bind_eq_some_iff.mp hstack
    rw [Flamebearer.walk, Flamebearer.locate_eq hbars hbar hlid, Checked.ok_bind]
    cases hparent : bar.parent with
    | none =>
      rw [hparent] at hstack
      cases hstack
      rfl
    | some pi =>
      rw [hparent] at hstack
      obtain ⟨parent, hget, hstack⟩ := Option.bind_eq_some_iff.mp hstack
      obtain ⟨rest, hrest, hstack⟩ := Option.bind_eq_some_iff.mp hstack
      cases hstack
      dsimp only
      rw [ih (List.getElem?_eq_getElem hd) hget hrest]
      rfl

end

/-! ### Samples -/

section

variable (loc : ℕ → Option ℕ) (scale : ℤ)

/-- The bytes of a bar's sample. -/
def sampleOf (above : List (List Bar)) (bar : Bar) : Bytes :=
  if bar.self_ ≤ 0 then []
  else lfield 2 (packed 1 ((stackOf loc above bar).getD []) ++ packed 2 [asUnsigned (bar.self_ * scale)])

/-- The samples of a level, and of all levels. -/
def levelSamples (above : List (List Bar)) (bars : List Bar) : Bytes := bars.flatMap (sampleOf loc scale above)

def allSamples (perDepth : List (List Bar)) : Bytes :=
  (perDepth.mapIdx fun d bars => levelSamples loc scale (perDepth.take d).reverse bars).flatten

variable {loc scale}

theorem sampleBars_eq_some {above : List (List Bar)} : ∀ {bars : List Bar},
    (∀ bar ∈ bars, (stackOf loc above bar).isSome) →
      sampleBars loc scale above bars = some (levelSamples loc scale above bars) := by
  intro bars
  induction bars with
  | nil => exact fun _ => rfl
  | cons bar bars ih =>
    intro h
    obtain ⟨hbar, hbars⟩ := List.forall_mem_cons.mp h
    obtain ⟨stack, hstack⟩ := Option.isSome_iff_exists.mp hbar
    have hcons : levelSamples loc scale above (bar :: bars) =
        sampleOf loc scale above bar ++ levelSamples loc scale above bars := List.flatMap_cons
    rw [sampleBars, ih hbars, hcons, sampleOf, hstack]
    split <;> rfl

theorem sampleLevels_eq_some : ∀ {perDepth above : List (List Bar)},
    (∀ d bars, perDepth[d]? = some bars → ∀ bar ∈ bars,
      (stackOf loc ((perDepth.take d).reverse ++ above) bar).isSome) →
    sampleLevels loc scale above perDepth = some (perDepth.mapIdx fun d bars =>
      levelSamples loc scale ((perDepth.take d).reverse ++ above) bars).flatten := by
  intro perDepth
  induction perDepth with
  | nil => exact fun _ => rfl
  | cons bars perDepth ih =>
    intro above h
    have hrest := @ih (bars :: above) fun d bars' hget bar hbar => by
      have hdeeper := h (d + 1) bars' hget bar hbar
      rwa [List.take_succ_cons, List.reverse_cons, List.append_assoc] at hdeeper
    have hfirst : sampleBars loc scale above bars = some (levelSamples loc scale above bars) :=
      sampleBars_eq_some (h 0 bars rfl)
    rw [sampleLevels, hfirst, hrest, List.mapIdx_cons, List.flatten_cons]
    simp only [List.take_succ_cons, List.reverse_cons, List.append_assoc]
    rfl

end

namespace Flamebearer

variable {fb : Flamebearer} {t : Tables} {scale : ℤ} {perDepth : List (List Bar)}

/-- One sample, where the walk is known to end. -/
theorem sample_returns (scale : ℤ) {d i : ℕ} {bars : List Bar} {bar : Bar} (hbars : perDepth[d]? = some bars)
    (hbar : bars[i]? = some bar) (hstack : (stackOf (fb.loc t) (perDepth.take d).reverse bar).isSome) :
    Checked.Returns (fb.sampleChecked t scale perDepth d i) (0 < bar.self_ → InI64 (bar.self_ * scale))
      (sampleOf (fb.loc t) scale (perDepth.take d).reverse bar) := by
  obtain ⟨stack, hstack⟩ := Option.isSome_iff_exists.mp hstack
  rw [sampleChecked, Checked.index_eq_ok.mpr hbars, Checked.ok_bind, Checked.index_eq_ok.mpr hbar,
    Checked.ok_bind, sampleOf, hstack]
  by_cases hself : bar.self_ ≤ 0
  · rw [if_pos hself, if_pos hself]
    exact (Checked.Returns.ok []).congr (iff_of_true trivial fun hpos => absurd hself hpos.not_ge)
  · rw [if_neg hself, if_neg hself, walk_eq hbars hbar hstack, Checked.ok_bind]
    exact (Checked.number_returns InI64 (bar.self_ * scale)).map.congr
      ⟨fun h _ => h, fun h => h (not_le.mp hself)⟩

/-- The samples of one depth. -/
theorem levelSamples_returns {d : ℕ} {bars : List Bar} (hbars : perDepth[d]? = some bars)
    (hstack : ∀ bar ∈ bars, (stackOf (fb.loc t) (perDepth.take d).reverse bar).isSome) :
    Checked.Returns (do
        let samples ← (List.range bars.length).mapM (fb.sampleChecked t scale perDepth d)
        return samples.flatten)
      (∀ bar ∈ bars, 0 < bar.self_ → InI64 (bar.self_ * scale))
      (levelSamples (fb.loc t) scale (perDepth.take d).reverse bars) := by
  have hsamples := Checked.Returns.mapM_range fun i bar hget =>
    sample_returns scale hbars hget (hstack bar (List.mem_of_getElem? hget))
  have hmap : bars.mapIdx (fun _ bar => sampleOf (fb.loc t) scale (perDepth.take d).reverse bar) =
      bars.map (sampleOf (fb.loc t) scale (perDepth.take d).reverse) :=
    List.ext_getElem? fun i => by rw [List.getElem?_mapIdx, List.getElem?_map]
  rw [hmap] at hsamples
  refine hsamples.map.congr ⟨fun h bar hbar => ?_, fun h i bar hget => ?_⟩
  · obtain ⟨i, hget⟩ := List.mem_iff_getElem?.mp hbar
    exact h i bar hget
  · exact h bar (List.mem_of_getElem? hget)

/-- The samples of all depths. -/
theorem samples_returns (scale : ℤ) (hstack : ∀ d bars, perDepth[d]? = some bars → ∀ bar ∈ bars,
      (stackOf (fb.loc t) (perDepth.take d).reverse bar).isSome) :
    Checked.Returns (fb.samplesChecked t scale perDepth)
      (∀ bar ∈ perDepth.flatten, 0 < bar.self_ → InI64 (bar.self_ * scale))
      (allSamples (fb.loc t) scale perDepth) := by
  have hall : ∀ d bars, perDepth[d]? = some bars → Checked.Returns (do
        let bars ← Checked.index perDepth d
        let samples ← (List.range bars.length).mapM (fb.sampleChecked t scale perDepth d)
        return samples.flatten)
      (∀ bar ∈ bars, 0 < bar.self_ → InI64 (bar.self_ * scale))
      (levelSamples (fb.loc t) scale (perDepth.take d).reverse bars) := by
    intro d bars hget
    rw [Checked.index_eq_ok.mpr hget, Checked.ok_bind]
    exact levelSamples_returns hget (hstack d bars hget)
  refine (Checked.Returns.mapM_range hall).map.congr ⟨fun h bar hbar => ?_, fun h d bars hget bar hbar => ?_⟩
  · obtain ⟨bars, hbars, hbar⟩ := List.mem_flatten.mp hbar
    obtain ⟨d, hget⟩ := List.mem_iff_getElem?.mp hbars
    exact h d bars hget bar hbar
  · exact h bar (List.mem_flatten_of_mem (List.mem_of_getElem? hget) hbar)

/-! ### The tables -/

theorem addBarsChecked_eq_ok {bars : List Bar} {t t' : Tables} :
    fb.addBarsChecked t bars = .ok t' ↔ fb.addBars t bars = some t' := by
  unfold addBarsChecked addBars
  induction bars generalizing t with
  | nil => simp [Checked.pure_eq_ok]
  | cons bar bars ih =>
    rw [List.foldlM_cons, List.foldlM_cons]
    cases hname : fb.names[bar.nameIdx]? with
    | none =>
      have hindex : Checked.index fb.names bar.nameIdx = .error .outOfBounds := by
        rw [Checked.index, hname]
      rw [hindex]
      exact iff_of_false nofun nofun
    | some name =>
      rw [Checked.index_eq_ok.mpr hname]
      exact ih

/-- The tables for all bars. -/
def tables (fb : Flamebearer) : Tables := (fb.addBars .new fb.decodeLevels.flatten).getD .new

theorem addBars_eq_some (hnamed : fb.Named) :
    fb.addBars .new fb.decodeLevels.flatten = some fb.tables ∧
      ∀ bar ∈ fb.decodeLevels.flatten, (fb.loc fb.tables bar.nameIdx).isSome := by
  obtain ⟨t', hadd, _, _, _, hall⟩ := fb.addBars_spec (named_iff.mpr hnamed) Tables.sound_new
  rw [tables, hadd, Option.getD_some]
  refine ⟨rfl, fun bar hbar => ?_⟩
  obtain ⟨name, hname, hloc⟩ := hall bar hbar
  rw [loc, hname]
  exact hloc

theorem named_of_addBars {bars : List Bar} {t t' : Tables} (h : fb.addBars t bars = some t') :
    ∀ bar ∈ bars, bar.nameIdx < fb.names.length := by
  unfold addBars at h
  induction bars generalizing t with
  | nil => exact nofun
  | cons bar bars ih =>
    rw [List.foldlM_cons] at h
    obtain ⟨t₁, hfirst, hrest⟩ := Option.bind_eq_some_iff.mp h
    obtain ⟨name, hname, _⟩ := Option.map_eq_some_iff.mp hfirst
    rw [List.forall_mem_cons]
    exact ⟨(List.getElem?_eq_some_iff.mp hname).1, ih hrest⟩

theorem tables_returns :
    Checked.Returns (fb.addBarsChecked .new fb.decodeLevels.flatten) fb.Named fb.tables := by
  intro t'
  rw [addBarsChecked_eq_ok]
  constructor
  · intro h
    have hnamed := named_iff.mp (named_of_addBars h)
    exact ⟨hnamed, Option.some.inj ((addBars_eq_some hnamed).1.symm.trans h)⟩
  · rintro ⟨hnamed, rfl⟩
    exact (addBars_eq_some hnamed).1

/-- Every walk of the profile ends. -/
theorem stackOf_decodeLevels (hnamed : fb.Named) : ∀ d bars, fb.decodeLevels[d]? = some bars → ∀ bar ∈ bars,
    (stackOf (fb.loc fb.tables) (fb.decodeLevels.take d).reverse bar).isSome := by
  intro d bars hbars bar hbar
  obtain ⟨hd, rfl⟩ := List.getElem?_eq_some_iff.mp hbars
  have hloc := (addBars_eq_some hnamed).2
  have hall := fb.allLinked_decodeLevels
  rw [← List.take_append_drop d fb.decodeLevels, List.drop_eq_getElem_cons hd, List.reverse_append,
    List.reverse_cons, List.append_assoc] at hall
  obtain ⟨hlevel, habove⟩ := AllLinked.right hall
  refine stackOf_isSome habove (hlevel bar hbar) (fun level hlevel b hb => ?_) (hloc bar ?_)
  · have hmem := List.mem_of_mem_take (List.mem_reverse.mp hlevel)
    exact hloc b (List.mem_flatten_of_mem hmem hb)
  · exact List.mem_flatten_of_mem (List.getElem_mem hd) hbar

/-! ### The profile -/

/-- The value of every sample stays within an `i64`. -/
def ValuesFit (fb : Flamebearer) (ns : ℤ → ℤ) : Prop :=
  ∀ g ∈ fb.groups, 0 < g.self_ → InI64 (g.self_ * (fb.sampleType ns).scale)

/-- The bytes of the output. -/
def pprofBytes (fb : Flamebearer) (ns : ℤ → ℤ) : Bytes :=
  profileBytes (fb.sampleType ns) fb.tables
    (allSamples (fb.loc fb.tables) (fb.sampleType ns).scale fb.decodeLevels)

theorem toPprof_returns (ns : ℤ → ℤ) :
    Checked.Returns (fb.toPprofChecked ns) (fb.RowsFit ∧ fb.Named ∧ fb.ValuesFit ns) (fb.pprofBytes ns) := by
  refine fb.decodeLevels_returns.bind fun _ => tables_returns.bind fun hnamed => ?_
  have hsamples := samples_returns (fb.sampleType ns).scale (stackOf_decodeLevels hnamed)
  exact (hsamples.congr (fb.forall_bars_iff fun self_ _ =>
    0 < self_ → InI64 (self_ * (fb.sampleType ns).scale))).map

/-- **When `to_pprof` never panics.** -/
theorem toPprof_iff (ns : ℤ → ℤ) :
    (∃ bytes, fb.toPprofChecked ns = .ok bytes) ↔ fb.RowsFit ∧ fb.Named ∧ fb.ValuesFit ns :=
  (toPprof_returns ns).exists_iff

theorem toPprof_def (fb : Flamebearer) (ns : ℤ → ℤ) :
    fb.toPprof ns = (fb.addBars .new fb.decodeLevels.flatten).bind fun t =>
      (sampleLevels (fb.loc t) (fb.sampleType ns).scale [] fb.decodeLevels).bind fun samples =>
        some (profileBytes (fb.sampleType ns) t samples) := rfl

/-- What it writes. -/
theorem toPprofChecked_eq {ns : ℤ → ℤ} {bytes : Bytes} (h : fb.toPprofChecked ns = .ok bytes) :
    fb.toPprof ns = some bytes := by
  obtain ⟨⟨_, hnamed, _⟩, rfl⟩ := (toPprof_returns ns bytes).mp h
  have hsamples : sampleLevels (fb.loc fb.tables) (fb.sampleType ns).scale [] fb.decodeLevels =
      some (allSamples (fb.loc fb.tables) (fb.sampleType ns).scale fb.decodeLevels) := by
    rw [sampleLevels_eq_some]
    · simp only [List.append_nil]
      rfl
    · intro d bars hbars bar hbar
      rw [List.append_nil]
      exact stackOf_decodeLevels hnamed d bars hbars bar hbar
  rw [toPprof_def, (addBars_eq_some hnamed).1, Option.bind_some, hsamples]
  rfl

/-- The values of the calls of a forest are those of the samples. -/
theorem ValuesFit.calls {ns : ℤ → ℤ} (h : fb.ValuesFit ns) {f : Forest fb.names.length}
    (hdecode : fb.decodeLevels = f.bars) (c : Call fb.names.length) (hc : c ∈ f.calls []) (hpos : 0 < c.self_) :
    InI64 (c.self_ * (fb.sampleType ns).scale) := by
  obtain ⟨p, hp, rfl⟩ := List.mem_map.mp ((levels_perm f).mem_iff.mpr hc)
  have hbars := (fb.forall_bars_iff fun self_ _ => 0 < self_ → InI64 (self_ * (fb.sampleType ns).scale)).mpr h
  have hbar : p.bar ∈ fb.decodeLevels.flatten := by
    rw [hdecode, Forest.bars, ← List.map_flatten]
    exact List.mem_map_of_mem hp
  exact hbars p.bar hbar hpos

/-- **What the tool writes of a forest is read back as it is**, whatever its values. -/
theorem toPprofChecked_reads {ns : ℤ → ℤ} {bytes : Bytes} (h : fb.toPprofChecked ns = .ok bytes)
    {f : Forest fb.names.length} (hlevels : fb.levels = f.encode) (hf : f.Fits)
    (hnames : fb.names.length ≤ 2 ^ 63) : ∃ p, Pprof.decode bytes = some p ∧ p.strings[0]? = some "" ∧
      (p.samples.map p.resolve).Perm
        (((f.calls []).filter fun c => 0 < c.self_).map fun c =>
          some (c.path.map fb.names.get, [c.self_ * (fb.sampleType ns).scale])) := by
  obtain ⟨-, -, hvalues⟩ := (toPprof_iff ns).mp ⟨bytes, h⟩
  obtain ⟨bytes', p, hbytes, hread⟩ := toPprof_reads fb ns f hlevels hf hnames
    (hvalues.calls (decodeLevels_encode fb hnames hf hlevels))
  obtain rfl : bytes = bytes' := Option.some.inj ((toPprofChecked_eq h).symm.trans hbytes)
  exact ⟨p, hread⟩

end Flamebearer

end Konfig.Flamediff
