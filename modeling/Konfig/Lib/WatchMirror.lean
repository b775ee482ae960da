import Mathlib.Data.List.AList
import Mathlib.Data.List.Perm.Basic
import Konfig.Lib.Machine

/-!
# Tables published from a mirror of watched objects

A list-and-watch client sees a stream of `WatchEvent`s: a relist is `init`, one
`initApply` for each listed object and `initDone`; between relists there are
live `apply` and `delete` events.  A common way to turn such a stream into a
lookup table is to keep a mirror of the parsed objects under a key and to
rebuild the whole table from the mirror after each object event.  `Kind` is one
such client: how an object is keyed and parsed, and how the entries of the
mirror, visited in some order, make up the table.

`Kind.step` is the client as a machine.  `connect` starts a new connection,
which has a fresh mirror but keeps the published table; an object event carries
the order in which the mirror was visited for the rebuild, since a hash map
promises none.

* `Kind.run_relist`: what a completed relist leaves behind.
* `Kind.View`: a question put to the table whose answer for an identity depends
  only on which entries of that identity the table was built from.
* `View.ask_relist`: a relist that lists again every mirrored object answers as
  a table built from the listed objects alone.
* `View.settled_run`: while every object event finds all objects of an
  identity delivered, the answers for that identity do not change.
-/

namespace Lib

/-- The events of a list-and-watch stream. -/
inductive WatchEvent (Obj : Type)
  | apply (obj : Obj)
  | delete (obj : Obj)
  | init
  | initApply (obj : Obj)
  | initDone

/-- A finite map. -/
abbrev Map (K V : Type) := AList fun _ : K => V

namespace Map

variable {K V : Type} [DecidableEq K]

/-- The values met when the keys are visited in `order`. -/
def visit (m : Map K V) (order : List K) : List V := order.filterMap fun k => m.lookup k

theorem mem_visit {m : Map K V} {order : List K} (h : order.Perm m.keys) {v : V} :
    v ∈ m.visit order ↔ ∃ k, m.lookup k = some v := by
  rw [visit, List.mem_filterMap]
  constructor
  · rintro ⟨k, _, hk⟩
    exact ⟨k, hk⟩
  · rintro ⟨k, hk⟩
    refine ⟨k, h.mem_iff.mpr ?_, hk⟩
    rw [← AList.mem_keys, ← AList.lookup_isSome, hk]
    rfl

/-- What holds of everything that is found holds of all entries. -/
theorem forall_lookup_iff {m : Map K V} {P : K → V → Prop} :
    (∀ k v, m.lookup k = some v → P k v) ↔ ∀ e ∈ m.entries, P e.1 e.2 := by
  refine ⟨fun h e he => ?_, fun h k v hv => ?_⟩
  · exact h e.1 e.2 (AList.mem_lookup_iff.mpr he)
  · exact h ⟨k, v⟩ (AList.mem_lookup_iff.mp hv)

/-- The map with every value replaced. -/
def mapVals {W : Type} (m : Map K V) (f : V → W) : Map K W where
  entries := m.entries.map (Sigma.map id fun _ => f)
  nodupKeys := List.NodupKeys.map₂ (fun _ => f) m.entries m.nodupKeys

theorem lookup_mapVals {W : Type} (m : Map K V) (f : V → W) (k : K) :
    (m.mapVals f).lookup k = (m.lookup k).map f := List.dlookup_map₂ k

/-- Every value is stored under its own key. -/
def Keyed (key : V → K) (m : Map K V) : Prop := ∀ k v, m.lookup k = some v → key v = k

theorem keyed_empty (key : V → K) : Keyed key (∅ : Map K V) := by
  intro k v h
  rw [AList.lookup_empty] at h
  cases h

theorem Keyed.insert {key : V → K} {m : Map K V} (h : Keyed key m) (v : V) :
    Keyed key (AList.insert (key v) v m) := by
  intro k w hw
  by_cases hk : k = key v
  · rw [hk, AList.lookup_insert, Option.some.injEq] at hw
    rw [hk, hw]
  · rw [AList.lookup_insert_ne hk] at hw
    exact h k w hw

theorem Keyed.erase {key : V → K} {m : Map K V} (h : Keyed key m) (k : K) :
    Keyed key (AList.erase k m) := by
  intro j w hw
  by_cases hk : j = k
  · rw [hk, AList.lookup_erase] at hw
    cases hw
  · rw [AList.lookup_erase_ne hk] at hw
    exact h j w hw

theorem Keyed.mapVals {key : V → K} {m : Map K V} {f : V → V} (h : Keyed key m)
    (hf : ∀ v, key (f v) = key v) : Keyed key (m.mapVals f) := by
  intro k w hw
  rw [lookup_mapVals, Option.map_eq_some_iff] at hw
  obtain ⟨v, hv, rfl⟩ := hw
  rw [hf, h k v hv]

/-- Visiting some of the keys finds only values whose own key is among them. -/
theorem Keyed.of_mem_visit {key : V → K} {m : Map K V} (h : Keyed key m) {order : List K} {v : V}
    (hv : v ∈ m.visit order) : key v ∈ order := by
  obtain ⟨k, hk, hlook⟩ := List.mem_filterMap.mp hv
  rw [h k v hlook]
  exact hk

end Map

/-- How one kind of object is mirrored and published. -/
structure Kind (Obj K E T : Type) where
  key : Obj → K
  parse : Obj → Option E
  publish : List E → T

/-- The state of one client: the mirror of the current connection, the
published table, and whether some relist has completed. -/
structure Watch (K E T : Type) where
  objects : Map K E
  table : T
  synced : Bool

/-- What can happen to a client. -/
inductive WatchLabel (Obj K : Type)
  | connect
  | event (ev : WatchEvent Obj) (order : List K)

namespace Kind

variable {Obj K E T I A : Type} [DecidableEq K] (κ : Kind Obj K E T)

/-- An applied object replaces its entry; one that does not parse removes it. -/
def upsert (m : Map K E) (obj : Obj) : Map K E :=
  match κ.parse obj with
  | some e => m.insert (κ.key obj) e
  | none => m.erase (κ.key obj)

/-- One event on the mirror and the sync flag; the last component says whether
the table is to be rebuilt. -/
def handle (ev : WatchEvent Obj) (objects : Map K E) (synced : Bool) : Map K E × Bool × Bool :=
  match ev with
  | .apply obj | .initApply obj => (κ.upsert objects obj, synced, true)
  | .delete obj => (objects.erase (κ.key obj), synced, true)
  | .init => (objects, synced, false)
  | .initDone => (objects, true, false)

/-- The client as a machine. -/
def step (w : Watch K E T) : WatchLabel Obj K → Option (Watch K E T)
  | .connect => some { w with objects := ∅ }
  | .event ev order =>
    match κ.handle ev w.objects w.synced with
    | (objects, synced, false) => some { w with objects, synced }
    | (objects, synced, true) =>
      if order.Perm objects.keys then
        some { objects, table := κ.publish (objects.visit order), synced }
      else none

/-- The mirror built from a list of applied objects alone. -/
def listed (objs : List Obj) : Map K E := objs.foldl κ.upsert ∅

/-- The table built from a list of objects alone. -/
def ofObjects (objs : List Obj) : T := κ.publish ((κ.listed objs).visit (κ.listed objs).keys)

/-! ### The mirror after a list of objects -/

theorem lookup_upsert_self (m : Map K E) (obj : Obj) :
    (κ.upsert m obj).lookup (κ.key obj) = κ.parse obj := by
  unfold upsert
  cases κ.parse obj with
  | none => exact AList.lookup_erase _ _
  | some e => exact AList.lookup_insert _

theorem lookup_upsert_ne (m : Map K E) {obj : Obj} {k : K} (h : k ≠ κ.key obj) :
    (κ.upsert m obj).lookup k = m.lookup k := by
  unfold upsert
  cases κ.parse obj with
  | none => exact AList.lookup_erase_ne h
  | some e => exact AList.lookup_insert_ne h

theorem lookup_foldl_of_notMem : ∀ (objs : List Obj) (m : Map K E) {k : K},
    k ∉ objs.map κ.key → (objs.foldl κ.upsert m).lookup k = m.lookup k := by
  intro objs
  induction objs with
  | nil => intro m k _; rfl
  | cons o os ih =>
    intro m k h
    rw [List.map_cons, List.mem_cons, not_or] at h
    rw [List.foldl_cons, ih _ h.2, κ.lookup_upsert_ne m h.1]

/-- A key that is listed forgets what the mirror held for it before. -/
theorem lookup_foldl_of_mem : ∀ (objs : List Obj) (m m' : Map K E) {k : K},
    k ∈ objs.map κ.key → (objs.foldl κ.upsert m).lookup k = (objs.foldl κ.upsert m').lookup k := by
  intro objs
  induction objs with
  | nil => intro m m' k h; simp at h
  | cons o os ih =>
    intro m m' k h
    rw [List.foldl_cons, List.foldl_cons]
    by_cases hk : k ∈ os.map κ.key
    · exact ih _ _ hk
    · rw [κ.lookup_foldl_of_notMem os _ hk, κ.lookup_foldl_of_notMem os _ hk]
      rw [List.map_cons, List.mem_cons] at h
      obtain rfl := h.resolve_right hk
      rw [κ.lookup_upsert_self, κ.lookup_upsert_self]

/-- If every mirrored key is listed again, the mirror is the listed one. -/
theorem lookup_foldl_eq_listed {objs : List Obj} {m : Map K E}
    (h : ∀ k ∈ m.keys, k ∈ objs.map κ.key) (k : K) :
    (objs.foldl κ.upsert m).lookup k = (κ.listed objs).lookup k := by
  by_cases hk : k ∈ objs.map κ.key
  · exact κ.lookup_foldl_of_mem objs m ∅ hk
  · rw [listed, κ.lookup_foldl_of_notMem objs m hk, κ.lookup_foldl_of_notMem objs ∅ hk,
      AList.lookup_empty, AList.lookup_eq_none, AList.mem_keys]
    exact fun hm => hk (h k hm)

/-! ### Completed relists -/

/-- The labels of a completed relist: each listed object comes with the order of
the rebuild it causes. -/
def relist (objs : List (Obj × List K)) : List (WatchLabel Obj K) :=
  .event .init [] :: (objs.map fun p => .event (.initApply p.1) p.2) ++ [.event .initDone []]

theorem step_object {w w' : Watch K E T} {obj : Obj} {order : List K}
    (h : κ.step w (.event (.initApply obj) order) = some w') :
    order.Perm w'.objects.keys ∧ w' =
      { objects := κ.upsert w.objects obj
        table := κ.publish ((κ.upsert w.objects obj).visit order)
        synced := w.synced } := by
  simp only [step, handle] at h
  split at h
  · rename_i hp
    cases h
    exact ⟨hp, rfl⟩
  · cases h

theorem step_delete {w w' : Watch K E T} {obj : Obj} {order : List K}
    (h : κ.step w (.event (.delete obj) order) = some w') :
    order.Perm w'.objects.keys ∧ w' =
      { objects := w.objects.erase (κ.key obj)
        table := κ.publish (Map.visit (w.objects.erase (κ.key obj)) order)
        synced := w.synced } := by
  simp only [step, handle] at h
  split at h
  · rename_i hp
    cases h
    exact ⟨hp, rfl⟩
  · cases h

theorem run_initApply : ∀ (objs : List (Obj × List K)) {w w' : Watch K E T},
    run κ.step w (objs.map fun p => .event (.initApply p.1) p.2) = some w' →
      w'.objects = (objs.map Prod.fst).foldl κ.upsert w.objects ∧ w'.synced = w.synced ∧
      (objs = [] → w' = w) ∧
      (objs ≠ [] → ∃ order, order.Perm w'.objects.keys ∧
        w'.table = κ.publish (w'.objects.visit order)) := by
  intro objs
  induction objs using List.reverseRecOn with
  | nil =>
    intro w w' h
    simp only [List.map_nil, run_nil, Option.some.injEq] at h
    subst h
    simp
  | append_singleton objs p ih =>
    intro w w' h
    rw [List.map_append, List.map_singleton] at h
    obtain ⟨m, hm, hs⟩ := run_snoc.mp h
    obtain ⟨hobj, hsync, _, _⟩ := ih hm
    obtain ⟨hp, rfl⟩ := κ.step_object hs
    refine ⟨?_, hsync, by simp, fun _ => ⟨p.2, hp, rfl⟩⟩
    rw [List.map_append, List.foldl_append, ← hobj]
    rfl

/-- **What a completed relist leaves behind**: the listed objects on top of the
connection's mirror, and a rebuilt table only if something was listed. -/
theorem run_relist {objs : List (Obj × List K)} {w w' : Watch K E T}
    (h : run κ.step w (relist objs) = some w') :
    w'.objects = (objs.map Prod.fst).foldl κ.upsert w.objects ∧ w'.synced = true ∧
      (objs = [] → w'.table = w.table) ∧
      (objs ≠ [] → ∃ order, order.Perm w'.objects.keys ∧
        w'.table = κ.publish (w'.objects.visit order)) := by
  rw [relist, List.cons_append, run_cons] at h
  change run κ.step w _ = some w' at h
  obtain ⟨m, hm, hd⟩ := run_snoc.mp h
  obtain ⟨hobj, _, hnil, hcons⟩ := κ.run_initApply objs hm
  change some { m with synced := true } = some w' at hd
  cases hd
  refine ⟨hobj, rfl, fun he => ?_, hcons⟩
  rw [hnil he]

/-- The sync flag is never cleared. -/
theorem synced_step {w w' : Watch K E T} {l : WatchLabel Obj K} (h : κ.step w l = some w')
    (hs : w.synced = true) : w'.synced = true := by
  cases l with
  | connect => cases h; exact hs
  | event ev order =>
    cases ev with
    | init => cases h; exact hs
    | initDone => cases h; rfl
    | apply o | initApply o | delete o =>
      simp only [step, handle] at h
      split at h
      · cases h; exact hs
      · cases h

theorem synced_run {w w' : Watch K E T} {labels : List (WatchLabel Obj K)}
    (h : run κ.step w labels = some w') (hs : w.synced = true) : w'.synced = true :=
  run_induction (fun _ w => w.synced = true) hs
    (fun _ _ _ _ _ hinv hstep => κ.synced_step hstep hinv) labels w' h

/-! ### Questions to the table -/

/-- Once the label is handled, every object of `own` has been delivered on this
connection. -/
def Delivered (own : List Obj) (m : Map K E) : WatchLabel Obj K → Prop
  | .event (.apply o) _ | .event (.initApply o) _ => ∀ o' ∈ own, κ.key o' ∈ m ∨ o' = o
  | .event (.delete _) _ => ∀ o' ∈ own, κ.key o' ∈ m
  | _ => True

/-- A question `ask` put to the table for an identity, with the law that its
answer depends only on which entries of that identity went into the table. -/
structure View (κ : Kind Obj K E T) (I A : Type) where
  ident : E → I
  ask : T → I → A
  congr : ∀ (i : I) (es es' : List E), (∀ e, ident e = i → (e ∈ es ↔ e ∈ es')) →
    ask (κ.publish es) i = ask (κ.publish es') i

namespace View

variable {κ} (V : κ.View I A)

theorem ask_visit_congr {m m' : Map K E} {order order' : List K} (h : order.Perm m.keys)
    (h' : order'.Perm m'.keys) (hm : ∀ k, m.lookup k = m'.lookup k) (i : I) :
    V.ask (κ.publish (m.visit order)) i = V.ask (κ.publish (m'.visit order')) i := by
  refine V.congr i _ _ fun e _ => ?_
  rw [Map.mem_visit h, Map.mem_visit h']
  simp only [hm]

/-- The relist lists again every object in the mirror; the empty relist, which
rebuilds nothing, finds a table that already answers as an empty one. -/
structure Covers (w : Watch K E T) (objs : List Obj) : Prop where
  mirror : ∀ k ∈ w.objects.keys, k ∈ objs.map κ.key
  empty : objs = [] → ∀ i, V.ask w.table i = V.ask (κ.publish []) i

/-- **A relist that covers the mirror answers as the listed objects do.** -/
theorem ask_relist {objs : List (Obj × List K)} {w w' : Watch K E T}
    (h : run κ.step w (relist objs) = some w') (hcov : V.Covers w (objs.map Prod.fst)) (i : I) :
    V.ask w'.table i = V.ask (κ.ofObjects (objs.map Prod.fst)) i := by
  obtain ⟨hobj, _, hnil, hcons⟩ := κ.run_relist h
  by_cases he : objs = []
  · subst he
    rw [hnil rfl, hcov.empty rfl i]
    rfl
  · obtain ⟨order, hp, ht⟩ := hcons he
    rw [ht, ofObjects]
    refine V.ask_visit_congr hp (List.Perm.refl _) (fun k => ?_) i
    rw [hobj]
    exact κ.lookup_foldl_eq_listed hcov.mirror k

/-! ### Answers that do not change -/

/-- The objects of identity `i` are `own`, and the label does not change them:
an object under one of their keys is that object, no such object is deleted,
and no other object is `i`'s. -/
def Unchanged (i : I) (own : List Obj) : WatchLabel Obj K → Prop
  | .event (.apply o) _ | .event (.initApply o) _ =>
    (κ.key o ∈ own.map κ.key → o ∈ own) ∧
      (κ.key o ∉ own.map κ.key → ∀ e, κ.parse o = some e → V.ident e ≠ i)
  | .event (.delete o) _ => κ.key o ∉ own.map κ.key
  | _ => True

/-- The mirror's part for `i` comes from `own`. -/
structure Within (i : I) (own : List Obj) (m : Map K E) : Prop where
  sound : ∀ k e, m.lookup k = some e → V.ident e = i → ∃ o ∈ own, κ.key o = k ∧ κ.parse o = some e
  same : ∀ o ∈ own, κ.key o ∈ m → m.lookup (κ.key o) = κ.parse o

/-- The answer the objects `own` give. -/
def expected (i : I) (own : List Obj) : A := V.ask (κ.publish (own.filterMap κ.parse)) i

theorem within_upsert {i : I} {own : List Obj} {m : Map K E} {o : Obj}
    (hw : V.Within i own m) (hin : κ.key o ∈ own.map κ.key → o ∈ own)
    (hout : κ.key o ∉ own.map κ.key → ∀ e, κ.parse o = some e → V.ident e ≠ i)
    (hinj : ∀ o₁ ∈ own, ∀ o₂ ∈ own, κ.key o₁ = κ.key o₂ → o₁ = o₂) :
    V.Within i own (κ.upsert m o) := by
  refine ⟨fun k e hk hi => ?_, fun o' ho' hk => ?_⟩
  · by_cases hko : k = κ.key o
    · subst hko
      rw [κ.lookup_upsert_self] at hk
      by_cases hmem : κ.key o ∈ own.map κ.key
      · exact ⟨o, hin hmem, rfl, hk⟩
      · exact absurd hi (hout hmem e hk)
    · rw [κ.lookup_upsert_ne m hko] at hk
      exact hw.sound k e hk hi
  · by_cases hko : κ.key o' = κ.key o
    · have ho : o ∈ own := hin (by rw [← hko]; exact List.mem_map_of_mem ho')
      rw [hinj o' ho' o ho hko, κ.lookup_upsert_self]
    · rw [κ.lookup_upsert_ne m hko]
      refine hw.same o' ho' ?_
      rw [← AList.lookup_isSome] at hk ⊢
      rwa [κ.lookup_upsert_ne m hko] at hk

theorem within_erase {i : I} {own : List Obj} {m : Map K E} {k : K}
    (hw : V.Within i own m) : V.Within i own (m.erase k) := by
  refine ⟨fun k' e hk hi => ?_, fun o ho hk => ?_⟩
  · by_cases hkk : k' = k
    · subst hkk
      rw [AList.lookup_erase] at hk
      cases hk
    · rw [AList.lookup_erase_ne hkk] at hk
      exact hw.sound k' e hk hi
  · rw [AList.mem_erase] at hk
    rw [AList.lookup_erase_ne hk.1]
    exact hw.same o ho hk.2

/-- A mirror that holds every object of `own` for `i`, and nothing else for it,
is published with the answer `own` gives. -/
theorem ask_eq_expected {i : I} {own : List Obj} {m : Map K E} {order : List K}
    (hw : V.Within i own m) (hall : ∀ o ∈ own, κ.parse o ≠ none → κ.key o ∈ m)
    (hord : order.Perm m.keys) :
    V.ask (κ.publish (m.visit order)) i = V.expected i own := by
  refine V.congr i _ _ fun e hi => ?_
  rw [Map.mem_visit hord, List.mem_filterMap]
  constructor
  · rintro ⟨k, hk⟩
    obtain ⟨o, ho, _, hp⟩ := hw.sound k e hk hi
    exact ⟨o, ho, hp⟩
  · rintro ⟨o, ho, hp⟩
    refine ⟨κ.key o, ?_⟩
    rw [hw.same o ho (hall o ho (by rw [hp]; simp)), hp]

theorem mem_upsert_of_delivered {own : List Obj} {m : Map K E} {o o' : Obj}
    (hd : κ.key o' ∈ m ∨ o' = o) (hp : κ.parse o' ≠ none)
    (hin : κ.key o ∈ own.map κ.key → o ∈ own)
    (hinj : ∀ o₁ ∈ own, ∀ o₂ ∈ own, κ.key o₁ = κ.key o₂ → o₁ = o₂) (ho' : o' ∈ own) :
    κ.key o' ∈ κ.upsert m o := by
  rw [← AList.lookup_isSome]
  by_cases hk : κ.key o' = κ.key o
  · have ho : o ∈ own := hin (by rw [← hk]; exact List.mem_map_of_mem ho')
    obtain rfl := hinj o' ho' o ho hk
    rw [κ.lookup_upsert_self]
    exact Option.isSome_iff_ne_none.mpr hp
  · rw [κ.lookup_upsert_ne m hk]
    rcases hd with hd | rfl
    · exact AList.lookup_isSome.mpr hd
    · exact absurd rfl hk

/-- The mirror's part for `i` comes from `own`, and the published table answers
for `i` as `own` does. -/
structure Settled (i : I) (own : List Obj) (w : Watch K E T) : Prop where
  within : V.Within i own w.objects
  answers : V.ask w.table i = V.expected i own

/-- A fold of listed objects keeps the mirror's part for `i` and delivers every
object of `own` that is listed. -/
theorem within_listed {i : I} {own : List Obj}
    (hinj : ∀ o₁ ∈ own, ∀ o₂ ∈ own, κ.key o₁ = κ.key o₂ → o₁ = o₂) : ∀ (objs : List Obj),
    (∀ o ∈ objs, (κ.key o ∈ own.map κ.key → o ∈ own) ∧
      (κ.key o ∉ own.map κ.key → ∀ e, κ.parse o = some e → V.ident e ≠ i)) →
    V.Within i own (κ.listed objs) ∧
      ∀ o ∈ own, o ∈ objs → κ.parse o ≠ none → κ.key o ∈ κ.listed objs := by
  intro objs
  induction objs using List.reverseRecOn with
  | nil =>
    intro _
    refine ⟨⟨fun k e hk => ?_, fun o _ hk => absurd hk (AList.notMem_empty _)⟩, by simp⟩
    rw [listed, List.foldl_nil, AList.lookup_empty] at hk
    cases hk
  | append_singleton objs p ih =>
    intro h
    obtain ⟨hw, hmem⟩ := ih fun o ho => h o (by simp [ho])
    obtain ⟨hin, hout⟩ := h p (by simp)
    have hfold : κ.listed (objs ++ [p]) = κ.upsert (κ.listed objs) p := by
      simp [listed]
    rw [hfold]
    refine ⟨V.within_upsert hw hin hout hinj, fun o ho hop hp => ?_⟩
    refine mem_upsert_of_delivered ?_ hp hin hinj ho
    rw [List.mem_append, List.mem_singleton] at hop
    exact hop.imp_left fun hmo => hmem o ho hmo hp

/-- A completed relist on a fresh connection settles every identity whose
objects are among the listed ones. -/
theorem settled_relist {i : I} {own : List Obj}
    (hinj : ∀ o₁ ∈ own, ∀ o₂ ∈ own, κ.key o₁ = κ.key o₂ → o₁ = o₂) {w w' : Watch K E T}
    {objs : List (Obj × List K)} (hfresh : w.objects = ∅) (hne : objs ≠ [])
    (hown : ∀ o ∈ own, o ∈ objs.map Prod.fst)
    (hsame : ∀ l ∈ relist objs, V.Unchanged i own l)
    (hrun : run κ.step w (relist objs) = some w') : V.Settled i own w' := by
  obtain ⟨hobj, _, _, hcons⟩ := κ.run_relist hrun
  obtain ⟨order, hord, htable⟩ := hcons hne
  rw [hfresh] at hobj
  have hlisted : w'.objects = κ.listed (objs.map Prod.fst) := hobj
  obtain ⟨hw, hmem⟩ := V.within_listed hinj (objs.map Prod.fst) (by
    intro o ho
    obtain ⟨p, hp, rfl⟩ := List.mem_map.mp ho
    exact hsame (.event (.initApply p.1) p.2) (by
      rw [relist, List.cons_append, List.mem_cons, List.mem_append]
      exact Or.inr (Or.inl (List.mem_map.mpr ⟨p, hp, rfl⟩))))
  rw [← hlisted] at hw hmem
  refine ⟨hw, ?_⟩
  rw [htable]
  exact V.ask_eq_expected hw (fun o ho hp => hmem o ho (hown o ho) hp) hord

/-- **The answers for an identity do not change** along any run whose object
events each find all its objects delivered on the current connection, counting
the event itself.  The induction carries `Within` for the mirror, which a new
connection restores trivially because it empties it. -/
theorem settled_run {i : I} {own : List Obj}
    (hinj : ∀ o₁ ∈ own, ∀ o₂ ∈ own, κ.key o₁ = κ.key o₂ → o₁ = o₂) {w₀ w : Watch K E T}
    {labels : List (WatchLabel Obj K)} (h₀ : V.Settled i own w₀)
    (hsame : ∀ l ∈ labels, V.Unchanged i own l) (hrun : run κ.step w₀ labels = some w)
    (hdel : Along κ.step (fun _ w l => κ.Delivered own w.objects l) w₀ labels) :
    V.Settled i own w := by
  have hmem : Along κ.step (fun _ _ l => V.Unchanged i own l) w₀ labels := by
    intro pre a post s he _
    exact hsame a (by rw [he]; simp)
  refine run_induction_along (fun _ w l => κ.Delivered own w.objects l ∧ V.Unchanged i own l)
    (fun _ w => V.Settled i own w) h₀ ?_ labels w hrun
    (fun pre a post s he hs => ⟨hdel pre a post s he hs, hmem pre a post s he hs⟩)
  intro pre s l t _ hinv hC hstep
  obtain ⟨hwith, hask⟩ := hinv
  -- an applied object, live or listed
  have happ : ∀ (o : Obj) (order : List K), κ.step s (.event (.initApply o) order) = some t →
      (∀ o' ∈ own, κ.key o' ∈ s.objects ∨ o' = o) → (κ.key o ∈ own.map κ.key → o ∈ own) →
      (κ.key o ∉ own.map κ.key → ∀ e, κ.parse o = some e → V.ident e ≠ i) →
      V.Settled i own t := by
    intro o order hs hd hin hout
    obtain ⟨hp, rfl⟩ := κ.step_object hs
    have hwith' := V.within_upsert hwith hin hout hinj
    exact ⟨hwith', V.ask_eq_expected hwith'
      (fun o' ho' hpo => mem_upsert_of_delivered (hd o' ho') hpo hin hinj ho') hp⟩
  cases l with
  | connect =>
    -- the mirror is emptied, and the table stays
    cases hstep
    refine ⟨⟨fun k e hk => ?_, fun o _ hk => absurd hk (AList.notMem_empty _)⟩, hask⟩
    rw [AList.lookup_empty] at hk
    cases hk
  | event ev order =>
    cases ev with
    | apply o => exact happ o order hstep hC.1 hC.2.1 hC.2.2
    | initApply o => exact happ o order hstep hC.1 hC.2.1 hC.2.2
    | init => cases hstep; exact ⟨hwith, hask⟩
    | initDone => cases hstep; exact ⟨hwith, hask⟩
    | delete o =>
      obtain ⟨hp, rfl⟩ := κ.step_delete hstep
      have hwith' := V.within_erase hwith (k := κ.key o)
      refine ⟨hwith', V.ask_eq_expected hwith' (fun o' ho' _ => ?_) hp⟩
      rw [AList.mem_erase]
      refine ⟨fun hk => hC.2 ?_, hC.1 o' ho'⟩
      rw [← hk]
      exact List.mem_map_of_mem ho'

end View

end Kind

end Lib
