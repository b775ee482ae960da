import Konfig.Subscribe.Served

/-!
# The grace period of the sweeps

`gc_tick` collects a namespace that has had no receiver for longer than `GC_GRACE`.  The
idle timers are a map of their own, keyed by the name: a watcher that ends takes its
namespace out of the broadcast map and leaves the timer, so that the next registration of
the name goes on with it.

`GcRun` is the machine of the namespace maps with a history of what the sweeps have seen.

* `GcRun.Inv`, `GcRun.Inv.step`: a timer whose registration is still there says how long
  the sweeps have found it idle.
* `gc_honours_grace`: every removal keeps the grace period, in a run where each sweep that
  finds a registration idle finds no timer of another one, and removes what it has seen.
* `gc_inherits_timer`: a registration is removed that no earlier sweep has seen.
-/

namespace Konfig

open Lib Namespaces

/-- What a sweep has seen: a registration, and whether it had no receiver. -/
structure Sighting where
  ns : String
  g : Nat
  idle : Bool
  deriving DecidableEq, Repr

structure Sweep where
  now : Instant
  seen : List Sighting
  deriving DecidableEq, Repr

/-- A registration that a sweep removes, with the sweeps so far, the newest first. -/
structure Removal where
  ns : String
  g : Nat
  now : Instant
  sweeps : List Sweep
  deriving DecidableEq, Repr

/-- **The grace period was kept**: the registration was found idle by a sweep more than
`GC_GRACE` ago and by every sweep since. -/
def Removal.Honoured (r : Removal) : Prop :=
  ∃ recent sweep older, r.sweeps = recent ++ sweep :: older ∧ sweep.now + GC_GRACE < r.now ∧
    ∀ x ∈ recent ++ [sweep], ⟨r.ns, r.g, true⟩ ∈ x.seen

/-- The maps with the history of the sweeps; `timerOf` is the registration for which the
idle timer of a name was started. -/
structure GcRun where
  maps : Namespaces
  timerOf : Map String Nat
  sweeps : List Sweep
  removals : List Removal

def Gc.collects : Gc → Option String
  | .collecting (ns :: _) => some ns
  | _ => none

def Gc.unseen : Gc → List String
  | .scanning _ unseen _ _ => unseen
  | _ => []

/-- The names that the sweep is going to remove. -/
def Gc.toGc : Gc → List String
  | .scanning _ _ _ toGc | .collecting toGc => toGc
  | .removed _ _ rest | .unhandled _ rest | .unbuffered _ rest => rest
  | .idle => []

/-- Add to what the newest sweep has seen. -/
def sight (x : Sighting) : List Sweep → List Sweep
  | [] => []
  | sweep :: older => { sweep with seen := x :: sweep.seen } :: older

namespace GcRun

def start : GcRun := { maps := .new, timerOf := ∅, sweeps := [], removals := [] }

/-- When the newest sweep was started. -/
def now (s : GcRun) : Instant := (s.sweeps.head?.map Sweep.now).getD 0

/-- What an operation adds to the history. -/
def observe (s : GcRun) (maps : Namespaces) : NamespacesLabel → GcRun
  | .gcStart now => { s with maps, sweeps := { now, seen := [] } :: s.sweeps }
  | .gcVisit ns _ =>
    match s.maps.broadcasts.lookup ns with
    | none => { s with maps }
    | some g =>
      if s.maps.totalReceiverCount g = 0 then
        { s with
          maps
          timerOf := if (s.maps.idleSince.lookup ns).isSome then s.timerOf else s.timerOf.insert ns g
          sweeps := sight ⟨ns, g, true⟩ s.sweeps }
      else { s with maps, timerOf := s.timerOf.erase ns, sweeps := sight ⟨ns, g, false⟩ s.sweeps }
  | .gcNext =>
    match s.maps.gc with
    | .collecting (ns :: _) =>
      match s.maps.broadcasts.lookup ns with
      | none => { s with maps }
      | some g =>
        if s.maps.totalReceiverCount g = 0 then
          { s with maps, removals := ⟨ns, g, s.now, s.sweeps⟩ :: s.removals }
        else { s with maps }
    | .unbuffered ns _ => { s with maps, timerOf := s.timerOf.erase ns }
    | _ => { s with maps }
  | _ => { s with maps }

/-- A sweep reads the clock after it has started. -/
def Clocked (s : GcRun) : NamespacesLabel → Prop
  | .gcVisit _ clock => s.now ≤ clock
  | _ => True

instance (s : GcRun) : (l : NamespacesLabel) → Decidable (s.Clocked l)
  | .gcVisit _ clock => inferInstanceAs (Decidable (s.now ≤ clock))
  | .subscribe _ | .call _ | .leave _ | .streamEnds _ | .unlist _ | .finish _ | .cancel _ | .gcStart _
  | .gcCollect | .gcNext => isTrue trivial

def step (s : GcRun) (l : NamespacesLabel) : Option GcRun :=
  if s.Clocked l then (s.maps.step l).map fun maps => s.observe maps l else none

/-- A sweep that finds a registration idle finds no timer of another one, and what it
removes it has seen. -/
def Own (s : GcRun) : NamespacesLabel → Prop
  | .gcVisit ns _ => ∀ g ∈ s.maps.broadcasts.lookup ns, s.maps.totalReceiverCount g = 0 →
      ∀ o ∈ s.timerOf.lookup ns, o = g
  | .gcNext => ∀ ns ∈ s.maps.gc.collects, ∀ g ∈ s.maps.broadcasts.lookup ns,
      s.maps.totalReceiverCount g = 0 → ∃ x ∈ s.sweeps.head?, ⟨ns, g, true⟩ ∈ x.seen
  | _ => True

instance (s : GcRun) : (l : NamespacesLabel) → Decidable (s.Own l)
  | .gcVisit ns _ => inferInstanceAs (Decidable (∀ g ∈ s.maps.broadcasts.lookup ns,
      s.maps.totalReceiverCount g = 0 → ∀ o ∈ s.timerOf.lookup ns, o = g))
  | .gcNext => inferInstanceAs (Decidable (∀ ns ∈ s.maps.gc.collects,
      ∀ g ∈ s.maps.broadcasts.lookup ns, s.maps.totalReceiverCount g = 0 →
        ∃ x ∈ s.sweeps.head?, ⟨ns, g, true⟩ ∈ x.seen))
  | .subscribe _ | .call _ | .leave _ | .streamEnds _ | .unlist _ | .finish _ | .cancel _ | .gcStart _
  | .gcCollect => isTrue trivial

end GcRun

/-! ### Found idle, again and again -/

/-- The newest sweep has found the registration idle, and so have those before it, back to
an early one. -/
def SeenIdle (ns : String) (g : Nat) (early : Instant → Prop) : List Sweep → Prop
  | [] => False
  | x :: older => ⟨ns, g, true⟩ ∈ x.seen ∧ (early x.now ∨ SeenIdle ns g early older)

section SeenIdle

variable {ns : String} {g : Nat} {early early' : Instant → Prop}

theorem SeenIdle.mono (h : ∀ t, early t → early' t) : ∀ {sweeps : List Sweep},
    SeenIdle ns g early sweeps → SeenIdle ns g early' sweeps := by
  intro sweeps
  induction sweeps with
  | nil => exact id
  | cons x older ih => exact fun hs => ⟨hs.1, hs.2.imp (h x.now) ih⟩

theorem SeenIdle.sight (x : Sighting) {sweeps : List Sweep} (h : SeenIdle ns g early sweeps) :
    SeenIdle ns g early (sight x sweeps) := by
  cases sweeps with
  | nil => exact h
  | cons y older => exact ⟨List.mem_cons_of_mem _ h.1, h.2⟩

theorem SeenIdle.exists_early : ∀ {sweeps : List Sweep}, SeenIdle ns g early sweeps →
    ∃ recent sweep older, sweeps = recent ++ sweep :: older ∧ early sweep.now ∧
      ∀ x ∈ recent ++ [sweep], ⟨ns, g, true⟩ ∈ x.seen := by
  intro sweeps
  induction sweeps with
  | nil => exact nofun
  | cons x older ih =>
    rintro ⟨hx, hearly | hrest⟩
    · exact ⟨[], x, older, rfl, hearly, by simpa using hx⟩
    · obtain ⟨recent, sweep, older', rfl, hearly, hall⟩ := ih hrest
      refine ⟨x :: recent, sweep, older', rfl, hearly, fun y hy => ?_⟩
      rw [List.cons_append, List.mem_cons] at hy
      rcases hy with rfl | hy
      · exact hx
      · exact hall y hy

end SeenIdle

@[simp] theorem sight_cons (x : Sighting) (sweep : Sweep) (older : List Sweep) :
    sight x (sweep :: older) = { sweep with seen := x :: sweep.seen } :: older := rfl

@[simp] theorem tail_sight (x : Sighting) (sweeps : List Sweep) : (sight x sweeps).tail = sweeps.tail := by
  cases sweeps <;> rfl

/-! ### The invariant -/

namespace GcRun

structure Inv (s : GcRun) : Prop where
  registered : ∀ ns g, s.maps.broadcasts.lookup ns = some g → g < s.maps.gens.length
  owner : ∀ ns o, s.timerOf.lookup ns = some o → o < s.maps.gens.length
  timed : ∀ ns since, s.maps.idleSince.lookup ns = some since → ∃ o, s.timerOf.lookup ns = some o
  scan : ∀ now unseen seen toGc, s.maps.gc = .scanning now unseen seen toGc →
    ∃ x older, s.sweeps = x :: older ∧ x.now = now ∧ (∀ y ∈ x.seen, y.ns ∈ seen) ∧
      ∀ ns ∈ toGc, ns ∈ seen
  /-- The sweep under way may have the registration still to visit. -/
  idle : ∀ ns o since, s.timerOf.lookup ns = some o → s.maps.idleSince.lookup ns = some since →
    s.maps.broadcasts.lookup ns = some o →
    SeenIdle ns o (· ≤ since) (if ns ∈ s.maps.gc.unseen then s.sweeps.tail else s.sweeps)
  pending : ∀ x older, s.sweeps = x :: older → ∀ ns ∈ s.maps.gc.toGc, ∀ g, ⟨ns, g, true⟩ ∈ x.seen →
    SeenIdle ns g (· + GC_GRACE < x.now) s.sweeps
  honoured : ∀ r ∈ s.removals, r.Honoured

theorem inv_start : Inv start where
  registered ns g h := by simp [start, Namespaces.new] at h
  owner ns o h := by simp [start] at h
  timed ns since h := by simp [start, Namespaces.new] at h
  scan now unseen seen toGc h := by simp [start, Namespaces.new] at h
  idle ns o since h := by simp [start] at h
  pending x older h := by simp [start] at h
  honoured r h := by simp [start] at h

/-- What is kept when no sweep sees anything: registrations, timers and the work of the
sweep may go, and a new registration has no timer. -/
theorem Inv.of_less {s t : GcRun} (hi : s.Inv) (hsweeps : t.sweeps = s.sweeps)
    (hgens : s.maps.gens.length ≤ t.maps.gens.length)
    (hreg : ∀ ns g, t.maps.broadcasts.lookup ns = some g → s.maps.broadcasts.lookup ns = some g ∨
      s.maps.gens.length ≤ g ∧ g < t.maps.gens.length)
    (howner : ∀ ns o, t.timerOf.lookup ns = some o → s.timerOf.lookup ns = some o)
    (htimer : ∀ ns since, t.maps.idleSince.lookup ns = some since →
      s.maps.idleSince.lookup ns = some since ∧ t.timerOf.lookup ns = s.timerOf.lookup ns)
    (hscan : ∀ now unseen seen toGc, t.maps.gc = .scanning now unseen seen toGc →
      ∃ unseen', s.maps.gc = .scanning now unseen' seen toGc)
    (hunseen : ∀ ns, (t.maps.broadcasts.lookup ns).isSome →
      (ns ∈ t.maps.gc.unseen ↔ ns ∈ s.maps.gc.unseen))
    (htoGc : ∀ ns ∈ t.maps.gc.toGc, ns ∈ s.maps.gc.toGc) (hrem : ∀ r ∈ t.removals, r.Honoured) :
    t.Inv where
  registered ns g h := by
    rcases hreg ns g h with hold | ⟨-, hlt⟩
    · exact lt_of_lt_of_le (hi.registered ns g hold) hgens
    · exact hlt
  owner ns o h := lt_of_lt_of_le (hi.owner ns o (howner ns o h)) hgens
  timed ns since h := by
    obtain ⟨hold, heq⟩ := htimer ns since h
    rw [heq]
    exact hi.timed ns since hold
  scan now unseen seen toGc h := by
    obtain ⟨unseen', hold⟩ := hscan now unseen seen toGc h
    rw [hsweeps]
    exact hi.scan now unseen' seen toGc hold
  idle ns o since ho hs hr := by
    have hold := howner ns o ho
    rw [hsweeps]
    rcases hreg ns o hr with hreg' | ⟨hnew, -⟩
    · have hiff := hunseen ns (by rw [hr]; rfl)
      simp only [hiff]
      exact hi.idle ns o since hold (htimer ns since hs).1 hreg'
    · exact absurd (hi.owner ns o hold) (not_lt.mpr hnew)
  pending x older h ns hns g hg := by
    rw [hsweeps] at h ⊢
    exact hi.pending x older h ns (htoGc ns hns) g hg
  honoured := hrem

/-- No sweep moves on. -/
theorem Inv.keep {s : GcRun} (hi : s.Inv) {maps : Namespaces}
    (hreg : maps.broadcasts = s.maps.broadcasts) (hidle : maps.idleSince = s.maps.idleSince)
    (hgc : maps.gc = s.maps.gc) (hgens : s.maps.gens.length = maps.gens.length) :
    Inv { s with maps } := by
  refine hi.of_less rfl (le_of_eq hgens) (fun ns g h => Or.inl ?_) (fun _ _ h => h) (fun ns since h => ⟨?_, rfl⟩)
    (fun now unseen seen toGc h => ⟨unseen, ?_⟩) (fun ns _ => ?_) (fun ns h => ?_) hi.honoured
  · exact hreg ▸ h
  · exact hidle ▸ h
  · exact hgc ▸ h
  · exact hgc ▸ Iff.rfl
  · exact hgc ▸ h

/-- What a call does to the maps that the sweeps use. -/
theorem getOrCreateBroadcast_maps {m m' : Namespaces} {i : Nat} {c : BroadcastCall}
    (h : m.getOrCreateBroadcast i c = some m') :
    m'.idleSince = m.idleSince ∧ m'.gc = m.gc ∧
      ((m'.broadcasts = m.broadcasts ∧ m.gens.length = m'.gens.length) ∨
        ∃ ns, m'.broadcasts = m.broadcasts.insert ns m.gens.length ∧
          m'.gens.length = m.gens.length + 1) := by
  have hbuffer : ∀ ns, (m.replayBuffer ns).1.idleSince = m.idleSince ∧ (m.replayBuffer ns).1.gc = m.gc ∧
      (m.replayBuffer ns).1.broadcasts = m.broadcasts ∧ (m.replayBuffer ns).1.gens = m.gens := by
    intro ns
    obtain ⟨buffers, nextBuffer, heq⟩ := m.replayBuffer_eq ns
    rw [heq]
    exact ⟨rfl, rfl, rfl, rfl⟩
  cases c with
  | started ns =>
    simp only [getOrCreateBroadcast] at h
    split at h
    · cases h
    · split at h <;> cases h <;> exact ⟨rfl, rfl, Or.inl ⟨rfl, rfl⟩⟩
  | found ns g | occupied ns g | inserted ns g =>
    obtain ⟨hidle, hgc, hreg, hgens⟩ := hbuffer ns
    cases h
    exact ⟨hidle, hgc, Or.inl ⟨hreg, (congrArg List.length hgens).symm⟩⟩
  | ready ns g buf | held ns g buf | spawned ns g buf =>
    cases h
    exact ⟨rfl, rfl, Or.inl ⟨rfl, (length_onSubs _ _ _).symm⟩⟩
  | missed ns =>
    simp only [getOrCreateBroadcast] at h
    split at h
    · cases h
    · split at h
      · cases h
        exact ⟨rfl, rfl, Or.inl ⟨rfl, rfl⟩⟩
      · cases h
        exact ⟨rfl, rfl, Or.inr ⟨ns, rfl, List.length_append⟩⟩
  | buffered ns g buf =>
    cases h
    exact ⟨rfl, rfl, Or.inl ⟨rfl, (length_onTask m.gens g fun _ => .running).symm⟩⟩
  | returned ns g buf => cases h

theorem Inv.call {s : GcRun} (hi : s.Inv) {i : Nat} {c : BroadcastCall} {maps : Namespaces}
    (h : s.maps.getOrCreateBroadcast i c = some maps) : Inv { s with maps } := by
  obtain ⟨hidle, hgc, ⟨hreg, hgens⟩ | ⟨ns, hreg, hgens⟩⟩ := getOrCreateBroadcast_maps h
  · exact hi.keep hreg hidle hgc hgens
  · refine hi.of_less rfl (by simp only [hgens]; omega) (fun ns' g hg => ?_) (fun _ _ h => h)
      (fun ns' since hs => ⟨hidle ▸ hs, rfl⟩) (fun now unseen seen toGc hs => ⟨unseen, hgc ▸ hs⟩)
      (fun _ _ => hgc ▸ Iff.rfl) (fun _ hns => hgc ▸ hns) hi.honoured
    simp only [hreg] at hg
    rcases lookup_insert_some hg with ⟨-, rfl⟩ | ⟨-, hold⟩
    · exact Or.inr ⟨le_rfl, by simp only [hgens]; omega⟩
    · exact Or.inl hold

/-- A watcher that has ended takes its namespace out of the map, whoever is registered. -/
theorem Inv.unlist {s : GcRun} (hi : s.Inv) (g : Nat) (ns : String) :
    Inv { s with maps := { s.maps.setTask g .unlisted with
      broadcasts := s.maps.broadcasts.erase ns, gc := s.maps.gc.forget ns } } := by
  refine hi.of_less rfl (le_of_eq (length_onTask s.maps.gens g fun _ => .unlisted).symm)
    (fun ns' g' h => Or.inl (lookup_erase_some h).2) (fun _ _ h => h) (fun _ _ h => ⟨h, rfl⟩)
    (fun now unseen seen toGc h => ?_) (fun ns' h => ?_) (fun ns' h => ?_) hi.honoured
  · cases hgc : s.maps.gc with
    | scanning now' unseen' seen' toGc' =>
      simp only [hgc, Gc.forget, Gc.scanning.injEq] at h
      obtain ⟨rfl, -, rfl, rfl⟩ := h
      exact ⟨unseen', rfl⟩
    | idle => simp [hgc, Gc.forget] at h
    | collecting toGc => simp [hgc, Gc.forget] at h
    | removed ns g rest => simp [hgc, Gc.forget] at h
    | unhandled ns rest => simp [hgc, Gc.forget] at h
    | unbuffered ns rest => simp [hgc, Gc.forget] at h
  · obtain ⟨g', hg'⟩ := Option.isSome_iff_exists.mp h
    have hne : ns' ≠ ns := (lookup_erase_some hg').1
    cases s.maps.gc <;> simp [Gc.forget, Gc.unseen, hne]
  · cases hgc : s.maps.gc <;> rw [hgc] at h <;> exact h

/-! ### A sweep moves on -/

theorem Inv.gcStart {s : GcRun} (hi : s.Inv) (hgc : s.maps.gc = .idle) (now : Instant) :
    Inv { s with
      maps := { s.maps with gc := .scanning now s.maps.broadcasts.keys [] [] }
      sweeps := { now, seen := [] } :: s.sweeps } where
  registered := hi.registered
  owner := hi.owner
  timed := hi.timed
  scan now' unseen seen toGc h := by
    cases h
    exact ⟨_, _, rfl, rfl, nofun, nofun⟩
  idle ns o since ho hs hr := by
    have hmem : ns ∈ s.maps.broadcasts.keys := by
      rw [← AList.mem_keys, ← AList.lookup_isSome, show s.maps.broadcasts.lookup ns = some o from hr]
      rfl
    have hbefore := hi.idle ns o since ho hs hr
    rw [hgc, if_neg (show ns ∉ Gc.idle.unseen from List.not_mem_nil)] at hbefore
    show SeenIdle ns o (· ≤ since) (if ns ∈ s.maps.broadcasts.keys then s.sweeps else _)
    rw [if_pos hmem]
    exact hbefore
  pending _ _ _ ns hns := absurd hns List.not_mem_nil
  honoured := hi.honoured

/-- The registration of a name other than the one that is visited. -/
theorem Inv.idle_sight {s : GcRun} (hi : s.Inv) {now : Instant} {unseen seen toGc : List String}
    (hgc : s.maps.gc = .scanning now unseen seen toGc) (x : Sighting) {ns' ns : String} (hne : ns' ≠ ns)
    {o : Nat} {since : Instant} (ho : s.timerOf.lookup ns' = some o)
    (hs : s.maps.idleSince.lookup ns' = some since) (hr : s.maps.broadcasts.lookup ns' = some o) :
    SeenIdle ns' o (· ≤ since)
      (if ns' ∈ unseen.filter (· != ns) then (sight x s.sweeps).tail else sight x s.sweeps) := by
  have hbefore := hi.idle ns' o since ho hs hr
  rw [hgc] at hbefore
  have hiff : ns' ∈ unseen.filter (· != ns) ↔ ns' ∈ unseen := by
    rw [List.mem_filter]
    simp [hne]
  by_cases hmem : ns' ∈ unseen
  · rw [if_pos (show ns' ∈ (Gc.scanning now unseen seen toGc).unseen from hmem)] at hbefore
    rw [if_pos (hiff.mpr hmem), tail_sight]
    exact hbefore
  · rw [if_neg (show ns' ∉ (Gc.scanning now unseen seen toGc).unseen from hmem)] at hbefore
    rw [if_neg (mt hiff.mp hmem)]
    exact hbefore.sight x

/-- What a name that is waiting to be collected was found to be, whatever else the sweep
sees. -/
theorem Inv.pending_sight {s : GcRun} (hi : s.Inv) {now : Instant} {unseen seen toGc : List String}
    (hgc : s.maps.gc = .scanning now unseen seen toGc) {x : Sighting} (hseen : x.ns ∉ seen) {y : Sweep}
    {older : List Sweep} (hsweeps : sight x s.sweeps = y :: older) {ns : String} (hns : ns ∈ toGc) {g : Nat}
    (hg : ⟨ns, g, true⟩ ∈ y.seen) : SeenIdle ns g (· + GC_GRACE < y.now) (sight x s.sweeps) := by
  obtain ⟨z, older', hz, -, -, hcollect⟩ := hi.scan now unseen seen toGc hgc
  rw [hz, sight_cons, List.cons.injEq] at hsweeps
  obtain ⟨rfl, rfl⟩ := hsweeps
  have hold : ⟨ns, g, true⟩ ∈ z.seen := by
    rcases List.mem_cons.mp hg with heq | hmem
    · rw [← heq] at hseen
      exact absurd (hcollect ns hns) hseen
    · exact hmem
  exact (hi.pending z older' hz ns (by rw [hgc]; exact hns) g hold).sight x

/-- The scan goes on. -/
theorem Inv.scan_sight {s : GcRun} (hi : s.Inv) {now : Instant} {unseen seen toGc : List String}
    (hgc : s.maps.gc = .scanning now unseen seen toGc) (x : Sighting) :
    ∃ y older, sight x s.sweeps = y :: older ∧ y.now = now ∧ (∀ z ∈ y.seen, z.ns ∈ x.ns :: seen) ∧
      ∀ ns ∈ toGc, ns ∈ x.ns :: seen := by
  obtain ⟨y, older, hy, hnow, hnames, hcollect⟩ := hi.scan now unseen seen toGc hgc
  refine ⟨{ y with seen := x :: y.seen }, older, by rw [hy, sight_cons], hnow, fun z hz => ?_, fun ns h =>
    List.mem_cons_of_mem _ (hcollect ns h)⟩
  rcases List.mem_cons.mp hz with rfl | hz
  · exact List.mem_cons_self
  · exact List.mem_cons_of_mem _ (hnames z hz)

/-- The sweep finds a registration with a receiver. -/
theorem Inv.visitActive {s : GcRun} (hi : s.Inv) {now : Instant} {unseen seen toGc : List String}
    (hgc : s.maps.gc = .scanning now unseen seen toGc) {ns : String} (g : Nat) (hseen : ns ∉ seen) :
    Inv { s with
      maps := { s.maps with
        idleSince := s.maps.idleSince.erase ns
        gc := .scanning now (unseen.filter (· != ns)) (ns :: seen) toGc }
      timerOf := s.timerOf.erase ns
      sweeps := sight ⟨ns, g, false⟩ s.sweeps } where
  registered := hi.registered
  owner ns' o h := hi.owner ns' o (lookup_erase_some h).2
  timed ns' since h := by
    obtain ⟨hne, hold⟩ := lookup_erase_some h
    obtain ⟨o, ho⟩ := hi.timed ns' since hold
    exact ⟨o, (AList.lookup_erase_ne hne).trans ho⟩
  scan now' unseen' seen' toGc' h := by
    cases h
    exact hi.scan_sight hgc ⟨ns, g, false⟩
  idle ns' o since ho hs hr := by
    obtain ⟨hne, ho⟩ := lookup_erase_some ho
    exact hi.idle_sight hgc _ hne ho (lookup_erase_some hs).2 hr
  pending y older h ns' hns' g' hg' := hi.pending_sight hgc hseen h hns' hg'
  honoured := hi.honoured

/-- The sweep finds a registration without a receiver, and no timer of another one: it has
been found idle by every sweep since the timer was started. -/
theorem Inv.seenIdle_visit {s : GcRun} (hi : s.Inv) {now : Instant} {unseen seen toGc : List String}
    (hgc : s.maps.gc = .scanning now unseen seen toGc) {ns : String} {g : Nat}
    (hreg : s.maps.broadcasts.lookup ns = some g) {clock : Instant} (hclock : now ≤ clock)
    (hown : ∀ o, s.timerOf.lookup ns = some o → o = g) :
    SeenIdle ns g (· ≤ (s.maps.idleSince.lookup ns).getD clock) (sight ⟨ns, g, true⟩ s.sweeps) := by
  obtain ⟨x, older, hsweeps, hnow, -⟩ := hi.scan now unseen seen toGc hgc
  cases hs : s.maps.idleSince.lookup ns with
  | none =>
    rw [hsweeps, sight_cons]
    exact ⟨List.mem_cons_self, Or.inl (hnow.le.trans hclock)⟩
  | some since =>
    obtain ⟨o, ho⟩ := hi.timed ns since hs
    have hog := hown o ho
    rw [hog] at ho
    have hbefore := hi.idle ns g since ho hs hreg
    split at hbefore
    · rw [hsweeps] at hbefore ⊢
      exact ⟨List.mem_cons_self, Or.inr hbefore⟩
    · exact hbefore.sight _

/-- A timer is started for the registration that is visited, if none is running. -/
theorem owner_visit {s : GcRun} {ns ns' : String} {g o : Nat}
    (h : (if (s.maps.idleSince.lookup ns).isSome then s.timerOf else s.timerOf.insert ns g).lookup ns' =
      some o) : s.timerOf.lookup ns' = some o ∨ ns' = ns ∧ o = g := by
  split at h
  · exact Or.inl h
  · exact (lookup_insert_some h).symm.imp And.right id

/-- What is put on the list at this visit has been idle for longer than the grace period. -/
theorem Inv.late_visit {s : GcRun} (hi : s.Inv) {now : Instant} {unseen seen toGc : List String}
    (hgc : s.maps.gc = .scanning now unseen seen toGc) {ns : String} (hseen : ns ∉ seen) {g : Nat}
    {since : Instant} (hidle : SeenIdle ns g (· ≤ since) (sight ⟨ns, g, true⟩ s.sweeps))
    (hlate : GC_GRACE < now - since) {y : Sweep} {older : List Sweep}
    (h : sight ⟨ns, g, true⟩ s.sweeps = y :: older) {g' : Nat} (hg' : ⟨ns, g', true⟩ ∈ y.seen) :
    SeenIdle ns g' (· + GC_GRACE < y.now) (sight ⟨ns, g, true⟩ s.sweeps) := by
  obtain ⟨x, older', hx, hnow, hnames, -⟩ := hi.scan now unseen seen toGc hgc
  rw [hx, sight_cons] at h hidle ⊢
  rw [List.cons.injEq] at h
  obtain ⟨rfl, rfl⟩ := h
  have hgg : g' = g := by
    rcases List.mem_cons.mp hg' with heq | hmem
    · cases heq
      rfl
    · exact absurd (hnames _ hmem) hseen
  rw [hgg]
  refine hidle.mono fun t ht => ?_
  calc t + GC_GRACE ≤ since + GC_GRACE := Nat.add_le_add_right ht _
    _ < now := Nat.add_lt_of_lt_sub' hlate
    _ = x.now := hnow.symm

theorem Inv.visitIdle {s : GcRun} (hi : s.Inv) {now : Instant} {unseen seen toGc : List String}
    (hgc : s.maps.gc = .scanning now unseen seen toGc) {ns : String} {g : Nat} (hseen : ns ∉ seen)
    (hreg : s.maps.broadcasts.lookup ns = some g) {clock since : Instant} (hclock : now ≤ clock)
    (hown : ∀ o, s.timerOf.lookup ns = some o → o = g)
    (hsince : (s.maps.idleSince.lookup ns).getD clock = since) :
    Inv { s with
      maps := { s.maps with
        idleSince := s.maps.idleSince.insert ns since
        gc := .scanning now (unseen.filter (· != ns)) (ns :: seen)
          (if GC_GRACE < now - since then toGc ++ [ns] else toGc) }
      timerOf := if (s.maps.idleSince.lookup ns).isSome then s.timerOf else s.timerOf.insert ns g
      sweeps := sight ⟨ns, g, true⟩ s.sweeps } := by
  have hidle := hi.seenIdle_visit hgc hreg hclock hown
  rw [hsince] at hidle
  have htoGc : ∀ ns' ∈ (if GC_GRACE < now - since then toGc ++ [ns] else toGc),
      ns' ∈ toGc ∨ ns' = ns ∧ GC_GRACE < now - since := by
    intro ns' h
    split at h
    · rename_i hlate
      rw [List.mem_append, List.mem_singleton] at h
      exact h.imp id fun h => ⟨h, hlate⟩
    · exact Or.inl h
  refine ⟨hi.registered, fun ns' o h => ?_, fun ns' since' h => ?_, ?_, fun ns' o since' ho hs hr => ?_,
    fun y older h ns' hns' g' hg' => ?_, hi.honoured⟩
  · rcases owner_visit h with hold | ⟨rfl, rfl⟩
    · exact hi.owner ns' o hold
    · exact hi.registered ns' o hreg
  · by_cases hne : ns' = ns
    · subst hne
      dsimp only
      split
      · rename_i hsome
        obtain ⟨since'', hs⟩ := Option.isSome_iff_exists.mp hsome
        exact hi.timed ns' since'' hs
      · exact ⟨g, AList.lookup_insert _⟩
    · rw [AList.lookup_insert_ne hne] at h
      obtain ⟨o, ho⟩ := hi.timed ns' since' h
      refine ⟨o, ?_⟩
      dsimp only
      split
      · exact ho
      · exact (AList.lookup_insert_ne hne).trans ho
  · intro now' unseen' seen' toGc' h
    cases h
    obtain ⟨y, older, hy, hnow, hnames, hcollect⟩ := hi.scan_sight hgc ⟨ns, g, true⟩
    refine ⟨y, older, hy, hnow, hnames, fun ns' hns' => ?_⟩
    rcases htoGc ns' hns' with hold | ⟨rfl, -⟩
    · exact hcollect ns' hold
    · exact List.mem_cons_self
  · by_cases hne : ns' = ns
    · subst hne
      have hog : o = g := Option.some.inj (hr.symm.trans hreg)
      rw [AList.lookup_insert, Option.some.injEq] at hs
      subst hog hs
      show SeenIdle ns' o (· ≤ since) (if ns' ∈ unseen.filter (· != ns') then _ else _)
      rw [if_neg (by simp)]
      exact hidle
    · have hold : s.timerOf.lookup ns' = some o := by
        rcases owner_visit ho with hold | ⟨heq, -⟩
        · exact hold
        · exact absurd heq hne
      rw [AList.lookup_insert_ne hne] at hs
      exact hi.idle_sight hgc _ hne hold hs hr
  · rcases htoGc ns' hns' with hold | ⟨rfl, hlate⟩
    · exact hi.pending_sight hgc hseen h hold hg'
    · exact hi.late_visit hgc hseen hidle hlate h hg'

/-- The next operation of a sweep after its scan; what it removes it has seen. -/
theorem Inv.gcNext {s : GcRun} (hi : s.Inv) (hown : s.Own .gcNext) {maps : Namespaces}
    (h : s.maps.gcNext s.maps.gc = some maps) : (s.observe maps .gcNext).Inv := by
  -- the work of the sweep gets less, and nothing else changes
  have hless : ∀ {maps : Namespaces} {removals : List Removal}, maps.gens.length = s.maps.gens.length →
      (∀ ns g, maps.broadcasts.lookup ns = some g → s.maps.broadcasts.lookup ns = some g) →
      maps.idleSince = s.maps.idleSince → maps.gc.unseen = [] → s.maps.gc.unseen = [] →
      (∀ now unseen seen toGc, maps.gc ≠ .scanning now unseen seen toGc) →
      (∀ ns ∈ maps.gc.toGc, ns ∈ s.maps.gc.toGc) → (∀ r ∈ removals, r.Honoured) →
      Inv { s with maps, removals } := by
    intro maps removals hgens hreg hidle hunseen hunseen' hscan htoGc hrem
    exact hi.of_less rfl (le_of_eq hgens.symm) (fun ns g h => Or.inl (hreg ns g h)) (fun _ _ h => h)
      (fun ns since h => ⟨hidle ▸ h, rfl⟩) (fun now unseen seen toGc h => absurd h (hscan now unseen seen toGc))
      (fun ns _ => by simp only [hunseen, hunseen']) htoGc hrem
  cases hgc : s.maps.gc with
  | idle => simp [hgc, Namespaces.gcNext] at h
  | scanning now unseen seen toGc => simp [hgc, Namespaces.gcNext] at h
  | collecting toGc =>
    cases toGc with
    | nil =>
      simp only [hgc, Namespaces.gcNext, Option.some.injEq] at h
      subst h
      simp only [observe, hgc]
      exact hless rfl (fun _ _ h => h) rfl rfl (by rw [hgc]; rfl) (fun _ _ _ _ hscan => by cases hscan)
        (fun _ hmem => absurd hmem List.not_mem_nil) hi.honoured
    | cons ns rest =>
      have hrest : ∀ ns' ∈ rest, ns' ∈ s.maps.gc.toGc := fun ns' h => by
        rw [hgc]
        exact List.mem_cons_of_mem _ h
      simp only [hgc, Namespaces.gcNext] at h
      split at h
      · cases h
      · split at h
        · rename_i hnone
          cases h
          simp only [observe, hgc, hnone]
          exact hless rfl (fun _ _ h => h) rfl rfl (by rw [hgc]; rfl)
            (fun _ _ _ _ hscan => by cases hscan) hrest hi.honoured
        · rename_i g hreg
          split at h
          · rename_i hidle
            cases h
            simp only [observe, hgc, hreg, if_pos hidle]
            refine hless rfl (fun _ _ h => (lookup_erase_some h).2) rfl rfl (by rw [hgc]; rfl)
              (fun _ _ _ _ hscan => by cases hscan) hrest fun r hr => ?_
            rcases List.mem_cons.mp hr with rfl | hr
            · obtain ⟨x, hx, hseen⟩ := hown ns (by rw [hgc]; rfl) g hreg hidle
              obtain ⟨older, hsweeps⟩ := List.head?_eq_some_iff.mp hx
              have hearly := hi.pending x older hsweeps ns (by rw [hgc]; exact List.mem_cons_self) g hseen
              have hnow : s.now = x.now := by rw [now, hsweeps]; rfl
              rw [← hnow] at hearly
              exact hearly.exists_early
            · exact hi.honoured r hr
          · rename_i hidle
            cases h
            simp only [observe, hgc, hreg, if_neg hidle]
            exact hless rfl (fun _ _ h => h) rfl rfl (by rw [hgc]; rfl)
              (fun _ _ _ _ hscan => by cases hscan) hrest hi.honoured
  | removed ns g rest =>
    have hrest : ∀ ns' ∈ rest, ns' ∈ s.maps.gc.toGc := fun ns' h => by rw [hgc]; exact h
    simp only [hgc, Namespaces.gcNext] at h
    split at h
    · cases h
      simp only [observe, hgc]
      exact hless rfl (fun _ _ h => h) rfl rfl (by rw [hgc]; rfl)
        (fun _ _ _ _ hscan => by cases hscan) hrest hi.honoured
    · cases h
      simp only [observe, hgc]
      exact hless (length_onTask _ _ _) (fun _ _ h => h) rfl rfl (by rw [hgc]; rfl)
        (fun _ _ _ _ hscan => by cases hscan) hrest hi.honoured
  | unhandled ns rest =>
    have hrest : ∀ ns' ∈ rest, ns' ∈ s.maps.gc.toGc := fun ns' h => by rw [hgc]; exact h
    simp only [hgc, Namespaces.gcNext, Option.some.injEq] at h
    subst h
    simp only [observe, hgc]
    exact hless rfl (fun _ _ h => h) rfl rfl (by rw [hgc]; rfl)
      (fun _ _ _ _ hscan => by cases hscan) hrest hi.honoured
  | unbuffered ns rest =>
    simp only [hgc, Namespaces.gcNext, Option.some.injEq] at h
    subst h
    simp only [observe, hgc]
    refine hi.of_less rfl le_rfl (fun _ _ h => Or.inl h) (fun _ _ h => (lookup_erase_some h).2)
      (fun ns' since h => ?_)
      (fun _ _ _ _ hscan => by cases hscan) (fun _ _ => by rw [hgc]; rfl) (fun ns' h => by rw [hgc]; exact h) hi.honoured
    obtain ⟨hne, hold⟩ := lookup_erase_some h
    exact ⟨hold, AList.lookup_erase_ne hne⟩

/-- **Every operation keeps the invariant.** -/
theorem Inv.step {s t : GcRun} (hi : s.Inv) {l : NamespacesLabel} (hown : s.Own l) (h : s.step l = some t) :
    t.Inv := by
  unfold GcRun.step at h
  split at h
  · rename_i hclock
    obtain ⟨maps, hmaps, rfl⟩ := Option.map_eq_some_iff.mp h
    cases l with
    | subscribe ns =>
      cases hmaps
      exact hi.keep rfl rfl rfl rfl
    | call i =>
      obtain ⟨c, _, hcall⟩ := Option.bind_eq_some_iff.mp hmaps
      exact hi.call hcall
    | leave g =>
      obtain ⟨x, _, hmaps⟩ := Option.bind_eq_some_iff.mp hmaps
      split at hmaps
      · cases hmaps
        exact hi.keep rfl rfl rfl (length_onSubs s.maps.gens g (· - 1)).symm
      · cases hmaps
    | streamEnds g =>
      obtain ⟨x, _, hmaps⟩ := Option.bind_eq_some_iff.mp hmaps
      split at hmaps
      · cases hmaps
        exact hi.keep rfl rfl rfl (length_onTask s.maps.gens g fun _ => .ended).symm
      · cases hmaps
    | unlist g =>
      obtain ⟨x, _, hmaps⟩ := Option.bind_eq_some_iff.mp hmaps
      split at hmaps
      · cases hmaps
        exact hi.unlist g x.ns
      · cases hmaps
    | finish g =>
      obtain ⟨x, _, hmaps⟩ := Option.bind_eq_some_iff.mp hmaps
      split at hmaps
      · cases hmaps
        exact hi.keep rfl rfl rfl (length_onTask s.maps.gens g fun _ => .finished).symm
      · cases hmaps
    | cancel g =>
      obtain ⟨x, _, hmaps⟩ := Option.bind_eq_some_iff.mp hmaps
      split at hmaps
      · cases hmaps
        exact hi.keep rfl rfl rfl (length_onTask s.maps.gens g fun _ => .aborted).symm
      · cases hmaps
    | gcStart now =>
      simp only [Namespaces.step] at hmaps
      split at hmaps
      · rename_i hgc
        cases hmaps
        exact hi.gcStart hgc now
      · cases hmaps
    | gcVisit ns clock =>
      simp only [Namespaces.step] at hmaps
      split at hmaps
      · rename_i now unseen seen toGc g hgc hreg
        split at hmaps
        · cases hmaps
        · rename_i hguard
          rw [not_or] at hguard
          obtain ⟨x, older, hsweeps, hnow, -⟩ := hi.scan now unseen seen toGc hgc
          have hclock' : now ≤ clock := by
            have hle : s.now ≤ clock := hclock
            rw [GcRun.now, hsweeps] at hle
            exact hnow ▸ hle
          simp only [Namespaces.gcVisit] at hmaps
          split at hmaps
          · rename_i hidle
            cases hmaps
            simp only [observe, hreg, if_pos hidle]
            exact hi.visitIdle hgc hguard.1 hreg hclock' (hown g hreg hidle) rfl
          · rename_i hidle
            cases hmaps
            simp only [observe, hreg, if_neg hidle]
            exact hi.visitActive hgc g hguard.1
      · cases hmaps
    | gcCollect =>
      simp only [Namespaces.step] at hmaps
      split at hmaps
      · rename_i now seen toGc hgc
        cases hmaps
        refine hi.of_less rfl le_rfl (fun _ _ h => Or.inl h) (fun _ _ h => h) (fun _ _ h => ⟨h, rfl⟩)
          (fun _ _ _ _ hscan => by cases hscan)
          (fun _ _ => by rw [hgc]; rfl) (fun ns h => by rw [hgc]; exact h) hi.honoured
      · cases hmaps
    | gcNext => exact hi.gcNext hown hmaps
  · cases h

end GcRun

/-- **Every removal keeps the grace period**, in a run whose sweeps use their own timers. -/
theorem gc_honours_grace {ls : List NamespacesLabel} {s : GcRun}
    (hrun : run GcRun.step .start ls = some s) (hown : Along GcRun.step (fun _ => GcRun.Own) .start ls) :
    ∀ r ∈ s.removals, r.Honoured := by
  refine (run_induction_along (fun _ => GcRun.Own) (fun _ => GcRun.Inv) GcRun.inv_start ?_ ls s hrun hown).honoured
  intro _ s l t _ hi hl ht
  exact hi.step hl ht

/-- One subscriber comes and goes, and its namespace is collected. -/
def oneVisitor : List NamespacesLabel :=
  [.subscribe "prod", .call 0, .call 0, .call 0, .call 0, .call 0, .leave 0, .gcStart 0,
    .gcVisit "prod" 0, .gcCollect, .gcNext, .gcStart 40000, .gcVisit "prod" 40000, .gcCollect, .gcNext]

theorem gc_honours_grace_oneVisitor :
    ∃ s, run GcRun.step .start oneVisitor = some s ∧ s.removals.length = 1 ∧
      ∀ r ∈ s.removals, r.Honoured := by
  obtain ⟨s, hs, hlen⟩ := (Option.any_eq_true _ _).mp
    (show (run GcRun.step .start oneVisitor).any (fun s => decide (s.removals.length = 1)) = true by
      decide +kernel)
  exact ⟨s, hs, of_decide_eq_true hlen, gc_honours_grace hs (by decide +kernel)⟩

/-! ### Timers of others -/

/-- What no sweep has seen before the one that removes it. -/
theorem Removal.not_honoured {r : Removal} {x : Sweep} {older : List Sweep} (hr : r.sweeps = x :: older)
    (hnow : r.now ≤ x.now) (hunseen : ∀ y ∈ older, ⟨r.ns, r.g, true⟩ ∉ y.seen) : ¬ r.Honoured := by
  rintro ⟨recent, sweep, older', heq, hlate, hall⟩
  rw [hr] at heq
  cases recent with
  | nil =>
    rw [List.nil_append, List.cons.injEq] at heq
    rw [← heq.1] at hlate
    exact absurd (hlate.trans_le hnow) (by omega)
  | cons y recent =>
    rw [List.cons_append, List.cons.injEq] at heq
    refine hunseen sweep (by rw [heq.2]; simp) (hall sweep (by simp))

/-- The watcher ends when its namespace has been idle for a while; the name is registered
again, and its first subscriber leaves. -/
def endsAndReturns : List NamespacesLabel :=
  [.subscribe "prod", .call 0, .call 0, .call 0, .call 0, .call 0, .leave 0, .gcStart 0,
    .gcVisit "prod" 0, .gcCollect, .gcNext, .streamEnds 0, .unlist 0, .finish 0, .subscribe "prod",
    .call 1, .call 1, .call 1, .call 1, .call 1, .leave 1, .gcStart 40000, .gcVisit "prod" 40000,
    .gcCollect, .gcNext]

/-- **A registration is removed at the first sweep that sees it.** -/
theorem gc_inherits_timer :
    ∃ s, run GcRun.step .start endsAndReturns = some s ∧ ¬ ∀ r ∈ s.removals, r.Honoured := by
  obtain ⟨s, hs, hread⟩ := (Option.any_eq_true _ _).mp
    (show (run GcRun.step .start endsAndReturns).any (fun s => decide (s.removals =
      [⟨"prod", 1, 40000, [⟨40000, [⟨"prod", 1, true⟩]⟩, ⟨0, [⟨"prod", 0, true⟩]⟩]⟩])) = true by
      decide +kernel)
  refine ⟨s, hs, fun hall => ?_⟩
  rw [of_decide_eq_true hread] at hall
  exact Removal.not_honoured rfl le_rfl (by decide) (hall _ List.mem_cons_self)

end Konfig
