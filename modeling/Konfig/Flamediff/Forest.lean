import Konfig.Flamediff.Flamebearer

/-!
# Call forests

What a flamebearer stands for: a forest of calls.  The roots are laid out from left to right,
the children of a call from left to right from its start, and the levels are written one
after the other.

* `Forest.encode`: the rows of numbers.
* `Forest.levels`: the calls of every level where they are laid out, each with the index of
  its parent in the level above.
* `decodeLevels_encode`: decoding links every bar to its parent.
* `levels_perm`: the calls of all levels are the calls of the forest.
-/

namespace Konfig.Flamediff

/-- A forest of calls with names below `k`: it is empty, or a call with the forest of its
children, and the rest. -/
inductive Forest (k : ℕ)
  | nil
  | call (name : Fin k) (total self_ : ℤ) (children rest : Forest k)

namespace Forest

variable {k : ℕ}

/-- The room that the trees take side by side. -/
def width : Forest k → ℤ
  | nil => 0
  | call _ total _ _ rest => total + rest.width

def height : Forest k → ℕ
  | nil => 0
  | call _ _ _ children rest => max (children.height + 1) rest.height

/-- Every call has a self time that is not negative, and a positive total that holds it and
the totals of the children. -/
def Fits : Forest k → Prop
  | nil => True
  | call _ total self_ children rest =>
    0 ≤ self_ ∧ 0 < total ∧ self_ + children.width ≤ total ∧ children.Fits ∧ rest.Fits

theorem Fits.width_nonneg {f : Forest k} (h : f.Fits) : 0 ≤ f.width := by
  induction f with
  | nil => exact le_rfl
  | call name total self_ children rest _ ih =>
    obtain ⟨-, htotal, -, -, hrest⟩ := h
    exact add_nonneg htotal.le (ih hrest)

end Forest

/-! ### Levels -/

/-- A call where it is laid out: its start, the index of its parent in the level above, and
the names on the path to the root. -/
structure Placed (k : ℕ) where
  x : ℤ
  total : ℤ
  self_ : ℤ
  children : Forest k
  parent : Option ℕ
  name : Fin k
  above : List (Fin k)

namespace Placed

variable {k : ℕ}

/-- The names from the call to the root. -/
def path (p : Placed k) : List (Fin k) := p.name :: p.above

/-- Where the call ends. -/
def stop (p : Placed k) : ℤ := p.x + p.total

/-- The bar that stands for the call. -/
def bar (p : Placed k) : Bar := { x0 := p.x, x1 := p.stop, self_ := p.self_, nameIdx := p.name, parent := p.parent }

/-- The bar before it is linked. -/
def unlinked (p : Placed k) : Bar := { p.bar with parent := none }

def Fits (p : Placed k) : Prop := 0 ≤ p.self_ ∧ 0 < p.total ∧ p.self_ + p.children.width ≤ p.total ∧ p.children.Fits

end Placed

variable {k : ℕ}

/-- The trees of a forest from `x` on. -/
def place (parent : Option ℕ) (above : List (Fin k)) (x : ℤ) : Forest k → List (Placed k)
  | .nil => []
  | .call name total self_ children rest =>
    { x, total, self_, children, parent, name, above } :: place parent above (x + total) rest

/-- The children of a level whose first call has the index `i`. -/
def childrenFrom (i : ℕ) : List (Placed k) → List (Placed k)
  | [] => []
  | p :: level => place (some i) p.path p.x p.children ++ childrenFrom (i + 1) level

/-- A level and those below it, `n` in all. -/
def levelsFrom : ℕ → List (Placed k) → List (List (Placed k))
  | 0, _ => []
  | n + 1, level => level :: levelsFrom n (childrenFrom 0 level)

def Forest.roots (f : Forest k) : List (Placed k) := place none [] 0 f

/-- All levels of a forest: as many as it is high. -/
def Forest.levels (f : Forest k) : List (List (Placed k)) := levelsFrom f.height f.roots

/-- A level as a row of numbers, from the end of the bar before it on. -/
def encodeLevel (stop : ℤ) : List (Placed k) → List ℤ
  | [] => []
  | p :: level => (p.x - stop) :: p.total :: p.self_ :: (p.name : ℕ) :: encodeLevel p.stop level

/-- The flamebearer rows of a forest. -/
def Forest.encode (f : Forest k) : List (List ℤ) := f.levels.map (encodeLevel 0)

/-- The bars of a forest, linked. -/
def Forest.bars (f : Forest k) : List (List Bar) := f.levels.map (List.map Placed.bar)

/-! ### Reading the rows -/

theorem asUnsigned_name (hk : k ≤ 2 ^ 63) (name : Fin k) : asUnsigned (name : ℕ) = name := by
  have hlt : (name : ℕ) < 2 ^ 64 := (name.isLt.trans_le hk).trans (by norm_num)
  unfold asUnsigned
  omega

theorem readBars_encodeLevel (hk : k ≤ 2 ^ 63) (level : List (Placed k)) :
    ∀ x, readBars x (encodeLevel x level) = level.map Placed.unlinked := by
  induction level with
  | nil => exact fun _ => rfl
  | cons p level ih =>
    intro x
    have hstart : x + (p.x - x) = p.x := by omega
    rw [encodeLevel, readBars, asUnsigned_name hk, hstart]
    exact congrArg _ (ih p.stop)

/-! ### What is laid out -/

/-- The calls of a level do not overlap. -/
structure Spread (level : List (Placed k)) : Prop where
  apart : level.Pairwise fun p q => p.stop ≤ q.x
  fits : ∀ p ∈ level, p.Fits

theorem mem_place {parent : Option ℕ} {above : List (Fin k)} {f : Forest k} (hf : f.Fits) {q : Placed k} :
    ∀ {x}, q ∈ place parent above x f →
      q.Fits ∧ x ≤ q.x ∧ q.stop ≤ x + f.width ∧ q.parent = parent ∧ q.above = above := by
  induction f with
  | nil => exact fun h => absurd h List.not_mem_nil
  | call name total self_ children rest _ ih =>
    obtain ⟨hself, htotal, hsum, hchildren, hrest⟩ := hf
    have hwidth := hrest.width_nonneg
    intro x h
    rcases List.mem_cons.mp h with rfl | h
    · refine ⟨⟨hself, htotal, hsum, hchildren⟩, le_rfl, ?_, rfl, rfl⟩
      show x + total ≤ x + (total + rest.width)
      omega
    · obtain ⟨hfits, hx, hstop, hparent⟩ := ih hrest h
      refine ⟨hfits, by omega, ?_, hparent⟩
      rw [Forest.width]
      omega

theorem spread_place (parent : Option ℕ) (above : List (Fin k)) {f : Forest k} (hf : f.Fits) :
    ∀ x, Spread (place parent above x f) := by
  refine fun x => ⟨?_, fun q hq => (mem_place hf hq).1⟩
  induction f generalizing x with
  | nil => exact .nil
  | call name total self_ children rest _ ih =>
    obtain ⟨-, -, -, -, hrest⟩ := hf
    exact List.pairwise_cons.mpr ⟨fun q hq => (mem_place hrest hq).2.1, ih hrest _⟩

theorem mem_childrenFrom {level : List (Placed k)} (hfits : ∀ p ∈ level, p.Fits) {q : Placed k} :
    ∀ {i}, q ∈ childrenFrom i level → q.Fits ∧ ∃ j p, q.parent = some (i + j) ∧ level[j]? = some p ∧
      q.above = p.path ∧ p.x ≤ q.x ∧ q.stop ≤ p.stop := by
  induction level with
  | nil => exact fun h => absurd h List.not_mem_nil
  | cons p level ih =>
    intro i h
    have hp := hfits p List.mem_cons_self
    rcases List.mem_append.mp h with h | h
    · obtain ⟨hq, hx, hstop, hparent, habove⟩ := mem_place hp.2.2.2 h
      refine ⟨hq, 0, p, hparent, rfl, habove, hx, hstop.trans ?_⟩
      have hsum := hp.2.2.1
      have hself := hp.1
      rw [Placed.stop]
      omega
    · obtain ⟨hq, j, p', hparent, hp', hrest⟩ := ih (fun p hp => hfits p (List.mem_cons_of_mem _ hp)) h
      exact ⟨hq, j + 1, p', by rw [hparent]; congr 1; omega, by simpa using hp', hrest⟩

theorem Spread.tail {p : Placed k} {level : List (Placed k)} (h : Spread (p :: level)) : Spread level :=
  ⟨h.apart.of_cons, fun q hq => h.fits q (List.mem_cons_of_mem _ hq)⟩

/-- The children of a level do not overlap either. -/
theorem Spread.children {level : List (Placed k)} (h : Spread level) : ∀ i, Spread (childrenFrom i level) := by
  induction level with
  | nil => exact fun _ => ⟨.nil, fun _ hp => absurd hp List.not_mem_nil⟩
  | cons p level ih =>
    intro i
    have hp := h.fits p List.mem_cons_self
    have hplace := spread_place (some i) p.path hp.2.2.2 p.x
    refine ⟨List.pairwise_append.mpr ⟨hplace.apart, (ih h.tail (i + 1)).apart, fun q hq r hr => ?_⟩,
      fun q hq => ?_⟩
    · -- a child of `p` ends before the next call of the level starts
      obtain ⟨-, -, hstop, -⟩ := mem_place hp.2.2.2 hq
      obtain ⟨-, j, p', -, hp', -, hx, -⟩ := mem_childrenFrom h.tail.fits hr
      have hnext := (List.pairwise_cons.mp h.apart).1 p' (List.mem_of_getElem? hp')
      have hsum := hp.2.2.1
      have hself := hp.1
      rw [Placed.stop] at hnext
      omega
    · exact (List.mem_append.mp hq).elim (hplace.fits q) ((ih h.tail (i + 1)).fits q)

/-! ### Links -/

/-- The cursor passes the parents that end before the bar, and stops at the one that does
not. -/
theorem advance_append {x0 : ℤ} {p : Bar} {passed parents : List Bar} (hpassed : ∀ b ∈ passed, b.x1 ≤ x0)
    (hp : x0 < p.x1) : ∀ pi, advance x0 (passed ++ p :: parents) pi = pi + passed.length := by
  induction passed with
  | nil =>
    intro pi
    rw [List.nil_append, advance, if_neg (not_le.mpr hp), List.length_nil, Nat.add_zero]
  | cons b passed ih =>
    intro pi
    have hrest := ih (fun b hb => hpassed b (List.mem_cons_of_mem _ hb)) (pi + 1)
    rw [List.cons_append, advance, if_pos (hpassed b List.mem_cons_self), hrest, List.length_cons]
    omega

/-- One bar: its parent is found from any cursor that is not past it. -/
theorem linkBars_cons {passed parents : List Bar} {p bar : Bar} {pi : ℕ} (hpi : pi ≤ passed.length)
    (hpassed : ∀ b ∈ passed, b.x1 ≤ bar.x0) (hp : bar.x0 < p.x1) (hholds : p.Holds bar) (bars : List Bar) :
    linkBars (passed ++ p :: parents) pi (bar :: bars) =
      { bar with parent := some passed.length } :: linkBars (passed ++ p :: parents) passed.length bars := by
  have hcursor : advance bar.x0 ((passed ++ p :: parents).drop pi) pi = passed.length := by
    rw [List.drop_append_of_le_length hpi,
      advance_append (fun b hb => hpassed b (List.mem_of_mem_drop hb)) hp, List.length_drop]
    omega
  have hget : (passed ++ p :: parents)[passed.length]? = some p := by simp
  rw [linkBars, hcursor, hget]
  simp [hholds]

/-- The children of one call. -/
theorem linkBars_place {p : Placed k} {passed : List Bar} (parents : List Bar) (above : List (Fin k))
    {f : Forest k} (hf : f.Fits) (rest : List Bar) :
    ∀ x pi, (∀ b ∈ passed, b.x1 ≤ x) → p.x ≤ x → x + f.width ≤ p.stop → pi ≤ passed.length →
      ∃ pi' ≤ passed.length, linkBars (passed ++ p.bar :: parents) pi
          ((place (some passed.length) above x f).map Placed.unlinked ++ rest) =
        (place (some passed.length) above x f).map Placed.bar ++
          linkBars (passed ++ p.bar :: parents) pi' rest := by
  induction f with
  | nil => exact fun x pi _ _ _ hpi => ⟨pi, hpi, rfl⟩
  | call name total self_ children next _ ih =>
    obtain ⟨-, htotal, -, -, hnext⟩ := hf
    have hwidth := hnext.width_nonneg
    intro x pi hpassed hx hstop hpi
    rw [Forest.width] at hstop
    obtain ⟨pi', hpi', heq⟩ := ih hnext (x + total) passed.length
      (fun b hb => (hpassed b hb).trans (by omega)) (by omega) (by omega) le_rfl
    refine ⟨pi', hpi', ?_⟩
    rw [place, List.map_cons, List.map_cons, List.cons_append, List.cons_append, ← heq]
    refine linkBars_cons hpi hpassed (show x < p.stop by omega) ⟨hx, ?_⟩ _
    show x + total ≤ p.stop
    omega

/-- The children of a level. -/
theorem linkBars_childrenFrom {level : List (Placed k)} (h : Spread level) (passed : List Bar) :
    ∀ pi, (∀ b ∈ passed, ∀ p ∈ level, b.x1 ≤ p.x) → pi ≤ passed.length →
      linkBars (passed ++ level.map Placed.bar) pi
          ((childrenFrom passed.length level).map Placed.unlinked) =
        (childrenFrom passed.length level).map Placed.bar := by
  induction level generalizing passed with
  | nil => exact fun _ _ _ => rfl
  | cons p level ih =>
    intro pi hpassed hpi
    obtain ⟨hself, -, hsum, hchildren⟩ := h.fits p List.mem_cons_self
    have hlen : (passed ++ [p.bar]).length = passed.length + 1 := by simp
    have hroom : p.x + p.children.width ≤ p.stop := by
      rw [Placed.stop]
      omega
    obtain ⟨pi', hpi', heq⟩ := linkBars_place (level.map Placed.bar) p.path hchildren
      ((childrenFrom (passed.length + 1) level).map Placed.unlinked) p.x pi
      (fun b hb => hpassed b hb p List.mem_cons_self) le_rfl hroom hpi
    rw [childrenFrom, List.map_append, List.map_append, List.map_cons, heq]
    congr 1
    -- `p` has been passed when the next call's children come
    have hrest := ih h.tail (passed ++ [p.bar]) pi' (fun b hb q hq => ?_) (by omega)
    · rwa [hlen, List.append_assoc, List.singleton_append] at hrest
    · rcases List.mem_append.mp hb with hb | hb
      · exact hpassed b hb q (List.mem_cons_of_mem _ hq)
      · obtain rfl := List.mem_singleton.mp hb
        exact (List.pairwise_cons.mp h.apart).1 q hq

theorem linkLevels_levelsFrom (n : ℕ) : ∀ {level : List (Placed k)}, Spread level →
    linkLevels (level.map Placed.bar)
        ((levelsFrom n (childrenFrom 0 level)).map (List.map Placed.unlinked)) =
      (levelsFrom n (childrenFrom 0 level)).map (List.map Placed.bar) := by
  induction n with
  | zero => exact fun _ => rfl
  | succ n ih =>
    intro level h
    have hlink := linkBars_childrenFrom h [] 0 (fun _ hb => absurd hb List.not_mem_nil) le_rfl
    rw [List.nil_append, List.length_nil] at hlink
    rw [levelsFrom, List.map_cons, linkLevels, hlink, ih (h.children 0)]
    rfl

theorem unlinked_roots {f : Forest k} (hf : f.Fits) : f.roots.map Placed.unlinked = f.roots.map Placed.bar := by
  refine List.map_congr_left fun p hp => ?_
  obtain ⟨-, -, -, hparent, -⟩ := mem_place hf hp
  rw [Placed.unlinked, Placed.bar, hparent]

/-- **Decoding links every bar to its parent.** -/
theorem decodeLevels_encode (fb : Flamebearer) (hk : fb.names.length ≤ 2 ^ 63) {f : Forest fb.names.length}
    (hf : f.Fits) (hlevels : fb.levels = f.encode) : fb.decodeLevels = f.bars := by
  have hread : fb.levels.map (readBars 0) = f.levels.map (List.map Placed.unlinked) := by
    rw [hlevels, Forest.encode, List.map_map]
    exact List.map_congr_left fun level _ => readBars_encodeLevel hk level 0
  rw [Flamebearer.decodeLevels, hread, Forest.bars, Forest.levels]
  cases f.height with
  | zero => rfl
  | succ n =>
    have hlinks := linkLevels_levelsFrom n (spread_place none [] hf 0)
    simp only [levelsFrom, List.map_cons, unlinked_roots hf]
    exact congrArg _ hlinks

/-! ### Paths -/

/-- Every call of a level has its parent in the level above, and the path of its parent above
its own name; the levels above are given nearest first. -/
def Rooted : List (List (Placed k)) → List (Placed k) → Prop
  | [], level => ∀ q ∈ level, q.parent = none ∧ q.above = []
  | upper :: above, level =>
    (∀ q ∈ level, ∃ j p, q.parent = some j ∧ upper[j]? = some p ∧ q.above = p.path) ∧ Rooted above upper

theorem rooted_roots {f : Forest k} (hf : f.Fits) : Rooted [] f.roots := fun _ hq =>
  (mem_place hf hq).2.2.2

theorem Rooted.children {above : List (List (Placed k))} {level : List (Placed k)} (h : Rooted above level)
    (hfits : ∀ p ∈ level, p.Fits) : Rooted (level :: above) (childrenFrom 0 level) := by
  refine ⟨fun q hq => ?_, h⟩
  obtain ⟨-, j, p, hparent, hp, habove, -⟩ := mem_childrenFrom hfits hq
  exact ⟨j, p, by rw [hparent, Nat.zero_add], hp, habove⟩

/-- What holds of the names of all calls holds of the names on their paths. -/
theorem path_levelsFrom {P : Fin k → Prop} (n : ℕ) : ∀ level : List (Placed k), (∀ p ∈ level, p.Fits) →
    (∀ p ∈ level, ∀ name ∈ p.above, P name) → (∀ l ∈ levelsFrom n level, ∀ p ∈ l, P p.name) →
    ∀ l ∈ levelsFrom n level, ∀ p ∈ l, ∀ name ∈ p.path, P name := by
  induction n with
  | zero => exact fun _ _ _ _ l hl => absurd hl List.not_mem_nil
  | succ n ih =>
    intro level hfits habove hname
    have hlevel : ∀ p ∈ level, ∀ name ∈ p.path, P name := by
      intro p hp name h
      rcases List.mem_cons.mp h with rfl | h
      · exact hname level List.mem_cons_self p hp
      · exact habove p hp name h
    have hbelow := ih (childrenFrom 0 level) (fun q hq => (mem_childrenFrom hfits hq).1)
      (fun q hq name h => by
        obtain ⟨-, j, p, -, hp, hpath, -⟩ := mem_childrenFrom hfits hq
        rw [hpath] at h
        exact hlevel p (List.mem_of_getElem? hp) name h)
      (fun l hl => hname l (List.mem_cons_of_mem _ hl))
    intro l hl
    rcases List.mem_cons.mp hl with rfl | hl
    · exact hlevel
    · exact hbelow l hl

/-! ### All calls -/

/-- A call of a forest: the names from it to its root, and its self time. -/
structure Call (k : ℕ) where
  path : List (Fin k)
  self_ : ℤ

/-- The calls of a forest, each before its children. -/
def Forest.calls (above : List (Fin k)) : Forest k → List (Call k)
  | .nil => []
  | .call name _ self_ children rest =>
    ⟨name :: above, self_⟩ :: (children.calls (name :: above) ++ rest.calls above)

def Placed.call (p : Placed k) : Call k := ⟨p.path, p.self_⟩

/-- The calls below a call. -/
def Placed.below (p : Placed k) : List (Call k) := p.children.calls p.path

theorem calls_place (parent : Option ℕ) (above : List (Fin k)) (f : Forest k) :
    ∀ x, (place parent above x f).flatMap (fun p => p.call :: p.below) = f.calls above := by
  induction f with
  | nil => exact fun _ => rfl
  | call name total self_ children rest _ ih =>
    intro x
    rw [place, List.flatMap_cons, ih, Forest.calls]
    rfl

theorem calls_childrenFrom (level : List (Placed k)) :
    ∀ i, (childrenFrom i level).flatMap (fun p => p.call :: p.below) = level.flatMap Placed.below := by
  induction level with
  | nil => exact fun _ => rfl
  | cons p level ih =>
    intro i
    rw [childrenFrom, List.flatMap_append, calls_place, ih, List.flatMap_cons]
    rfl

theorem height_place {parent : Option ℕ} {above : List (Fin k)} {f : Forest k} {q : Placed k} :
    ∀ {x}, q ∈ place parent above x f → q.children.height + 1 ≤ f.height := by
  induction f with
  | nil => exact fun h => absurd h List.not_mem_nil
  | call name total self_ children rest _ ih =>
    intro x h
    rcases List.mem_cons.mp h with rfl | h
    · exact le_max_left _ _
    · exact (ih h).trans (le_max_right _ _)

theorem height_childrenFrom {level : List (Placed k)} {n : ℕ}
    (h : ∀ p ∈ level, p.children.height + 1 ≤ n + 1) {q : Placed k} :
    ∀ {i}, q ∈ childrenFrom i level → q.children.height + 1 ≤ n := by
  induction level with
  | nil => exact fun hq => absurd hq List.not_mem_nil
  | cons p level ih =>
    intro i hq
    rcases List.mem_append.mp hq with hq | hq
    · exact (height_place hq).trans (Nat.le_of_succ_le_succ (h p List.mem_cons_self))
    · exact ih (fun p hp => h p (List.mem_cons_of_mem _ hp)) hq

theorem levelsFrom_perm (n : ℕ) : ∀ level : List (Placed k),
    (∀ p ∈ level, p.children.height + 1 ≤ n) →
    ((levelsFrom n level).flatten.map Placed.call).Perm
      (level.flatMap fun p => p.call :: p.below) := by
  induction n with
  | zero =>
    intro level h
    obtain rfl : level = [] := List.eq_nil_iff_forall_not_mem.mpr fun p hp => absurd (h p hp) (by omega)
    exact .nil
  | succ n ih =>
    intro level h
    have hrest := ih (childrenFrom 0 level) fun q hq => height_childrenFrom h hq
    rw [calls_childrenFrom] at hrest
    rw [levelsFrom, List.flatten_cons, List.map_append]
    exact (hrest.append_left _).trans (List.map_append_flatMap_perm level _ _)

/-- **The calls of all levels are the calls of the forest.** -/
theorem levels_perm (f : Forest k) : (f.levels.flatten.map Placed.call).Perm (f.calls []) := by
  have h := levelsFrom_perm f.height f.roots fun p hp => height_place hp
  rwa [Forest.roots, calls_place] at h

end Konfig.Flamediff
