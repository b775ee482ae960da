import Konfig.Lib.WatchMirror

/-!
# One connection of a mirrored watch

What the mirror and the table of a `Kind` hold after the events of a single
connection, in terms of the events alone.

* `Kind.Live`: the last event about an object's key put that object in place.
* `Kind.lookup_iff_live`: the mirror holds what the live objects parse to.
* `Kind.published_run`: the table is always built from the present mirror, in
  some order.
* `View.ask_congr_published`: two connections whose mirrors hold the same entries of
  an identity answer alike for it.
* `Kind.synced_iff_initDone`: the flag says whether a relist has completed.
-/

namespace Lib

variable {Obj K E T I A : Type}

/-- The object that an event puts in place. -/
def WatchEvent.applied : WatchEvent Obj → Option Obj
  | .apply obj | .initApply obj => some obj
  | .delete _ | .init | .initDone => none

namespace Kind

variable (κ : Kind Obj K E T)

/-- The key that an event is about. -/
def about : WatchEvent Obj → Option K
  | .apply obj | .initApply obj | .delete obj => some (κ.key obj)
  | .init | .initDone => none

/-- The labels of one connection: each event comes with the order of the
rebuild it may cause. -/
def connection (events : List (WatchEvent Obj × List K)) : List (WatchLabel Obj K) :=
  events.map fun p => .event p.1 p.2

theorem connection_snoc (events : List (WatchEvent Obj × List K)) (p : WatchEvent Obj × List K) :
    connection (events ++ [p]) = connection events ++ [.event p.1 p.2] := by
  simp [connection]

/-- `obj` is live: it was put in place, and no later event is about its key. -/
def Live (events : List (WatchEvent Obj)) (obj : Obj) : Prop :=
  ∃ pre ev post, events = pre ++ ev :: post ∧ ev.applied = some obj ∧
    ∀ ev' ∈ post, κ.about ev' ≠ some (κ.key obj)

theorem not_live_nil (obj : Obj) : ¬ κ.Live [] obj := by
  rintro ⟨pre, ev, post, he, _⟩
  simp at he

/-- One more event: its own object is live, and the other live objects are
those the event is not about. -/
theorem live_snoc {events : List (WatchEvent Obj)} {ev : WatchEvent Obj} {obj : Obj} :
    κ.Live (events ++ [ev]) obj ↔
      ev.applied = some obj ∨ κ.Live events obj ∧ κ.about ev ≠ some (κ.key obj) := by
  constructor
  · rintro ⟨pre, e, post, he, happ, hpost⟩
    rcases List.eq_nil_or_concat post with rfl | ⟨post', c, rfl⟩
    · obtain ⟨_, hlast⟩ := List.append_inj' he rfl
      rw [List.cons.injEq] at hlast
      rw [hlast.1]
      exact Or.inl happ
    · rw [List.concat_eq_append] at he hpost
      rw [← List.cons_append, ← List.append_assoc] at he
      obtain ⟨hpre, hlast⟩ := List.append_inj' he rfl
      rw [List.cons.injEq] at hlast
      rw [hlast.1]
      refine Or.inr ⟨⟨pre, e, post', hpre, happ, fun ev' hev' => ?_⟩, hpost c (by simp)⟩
      exact hpost ev' (by simp [hev'])
  · rintro (happ | ⟨⟨pre, e, post, rfl, happ, hpost⟩, hne⟩)
    · exact ⟨events, ev, [], rfl, happ, by simp⟩
    · refine ⟨pre, e, post ++ [ev], by simp, happ, fun ev' hev' => ?_⟩
      rw [List.mem_append, List.mem_singleton] at hev'
      rcases hev' with hev' | rfl
      · exact hpost ev' hev'
      · exact hne

/-- The key of an applied object is the one its event is about. -/
theorem about_of_applied {ev : WatchEvent Obj} {obj : Obj} (h : ev.applied = some obj) :
    κ.about ev = some (κ.key obj) := by
  cases ev with
  | apply o | initApply o =>
    cases h
    rfl
  | delete _ | init | initDone => cases h

variable [DecidableEq K]

/-- What one event leaves under a key. -/
theorem lookup_handle (ev : WatchEvent Obj) (m : Map K E) (synced : Bool) (k : K) :
    (κ.handle ev m synced).1.lookup k =
      if κ.about ev = some k then ev.applied.bind κ.parse else m.lookup k := by
  cases ev with
  | init | initDone => rfl
  | apply obj | initApply obj =>
    change (κ.upsert m obj).lookup k = _
    by_cases hk : κ.key obj = k
    · subst hk
      rw [κ.lookup_upsert_self, about, if_pos rfl]
      rfl
    · rw [κ.lookup_upsert_ne m (Ne.symm hk), about, if_neg (by simpa using hk)]
  | delete obj =>
    change (m.erase (κ.key obj)).lookup k = _
    by_cases hk : κ.key obj = k
    · subst hk
      rw [AList.lookup_erase, about, if_pos rfl]
      rfl
    · rw [AList.lookup_erase_ne (Ne.symm hk), about, if_neg (by simpa using hk)]

/-- Everything one event does: the mirror and the flag are `handle`'s, and the
table stays or is built from the new mirror. -/
theorem step_event {w w' : Watch K E T} {ev : WatchEvent Obj} {order : List K}
    (h : κ.step w (.event ev order) = some w') :
    w'.objects = (κ.handle ev w.objects w.synced).1 ∧
    w'.synced = (κ.handle ev w.objects w.synced).2.1 ∧
    ((κ.about ev = none ∧ w'.table = w.table ∧ w'.objects = w.objects) ∨
      order.Perm w'.objects.keys ∧ w'.table = κ.publish (w'.objects.visit order)) := by
  cases ev with
  | init | initDone =>
    cases h
    exact ⟨rfl, rfl, Or.inl ⟨rfl, rfl, rfl⟩⟩
  | apply obj | initApply obj | delete obj =>
    simp only [step, handle] at h
    split at h
    · rename_i hperm
      cases h
      exact ⟨rfl, rfl, Or.inr ⟨hperm, rfl⟩⟩
    · cases h

/-- **The mirror holds what the live objects parse to.** -/
theorem lookup_iff_live {w₀ : Watch K E T} (hfresh : w₀.objects = ∅) :
    ∀ (events : List (WatchEvent Obj × List K)) {w : Watch K E T},
      run κ.step w₀ (connection events) = some w → ∀ k e, w.objects.lookup k = some e ↔
        ∃ obj, κ.Live (events.map Prod.fst) obj ∧ κ.key obj = k ∧ κ.parse obj = some e := by
  intro events
  induction events using List.reverseRecOn with
  | nil =>
    intro w h k e
    rw [connection, List.map_nil, run_nil, Option.some.injEq] at h
    rw [← h, hfresh, AList.lookup_empty]
    constructor
    · intro hnone
      cases hnone
    · rintro ⟨obj, hlive, _⟩
      exact absurd hlive (κ.not_live_nil obj)
  | append_singleton events p ih =>
    intro w h k e
    rw [connection_snoc] at h
    obtain ⟨m, hm, hs⟩ := run_snoc.mp h
    rw [(κ.step_event hs).1, κ.lookup_handle, List.map_append, List.map_singleton]
    simp only [κ.live_snoc]
    by_cases hk : κ.about p.1 = some k
    · -- the event decides the key
      rw [if_pos hk, Option.bind_eq_some_iff]
      constructor
      · rintro ⟨obj, happ, hparse⟩
        rw [κ.about_of_applied happ, Option.some.injEq] at hk
        exact ⟨obj, Or.inl happ, hk, hparse⟩
      · rintro ⟨obj, happ | ⟨_, hne⟩, hkey, hparse⟩
        · exact ⟨obj, happ, hparse⟩
        · rw [hkey] at hne
          exact absurd hk hne
    · -- the event is about another key, or none
      rw [if_neg hk, ih hm]
      constructor
      · rintro ⟨obj, hlive, hkey, hparse⟩
        exact ⟨obj, Or.inr ⟨hlive, by rwa [hkey]⟩, hkey, hparse⟩
      · rintro ⟨obj, happ | ⟨hlive, _⟩, hkey, hparse⟩
        · rw [κ.about_of_applied happ, hkey] at hk
          exact absurd rfl hk
        · exact ⟨obj, hlive, hkey, hparse⟩

/-- The table is built from the present mirror, visited in some order. -/
def Published (w : Watch K E T) : Prop :=
  ∃ order, order.Perm w.objects.keys ∧ w.table = κ.publish (w.objects.visit order)

theorem published_step {w w' : Watch K E T} {ev : WatchEvent Obj} {order : List K}
    (h : κ.step w (.event ev order) = some w') (hw : κ.Published w) : κ.Published w' := by
  obtain ⟨_, _, ⟨_, htable, hobjects⟩ | ⟨hperm, htable⟩⟩ := κ.step_event h
  · obtain ⟨order', hperm', htable'⟩ := hw
    exact ⟨order', by rwa [hobjects], by rw [htable, htable', hobjects]⟩
  · exact ⟨order, hperm, htable⟩

theorem published_run {w₀ : Watch K E T} (h₀ : κ.Published w₀) :
    ∀ (events : List (WatchEvent Obj × List K)) {w : Watch K E T},
      run κ.step w₀ (connection events) = some w → κ.Published w := by
  intro events
  induction events using List.reverseRecOn with
  | nil =>
    intro w h
    rw [connection, List.map_nil, run_nil, Option.some.injEq] at h
    rwa [← h]
  | append_singleton events p ih =>
    intro w h
    rw [connection_snoc] at h
    obtain ⟨m, hm, hs⟩ := run_snoc.mp h
    exact κ.published_step hs (ih hm)

theorem synced_iff_initDone {w₀ : Watch K E T} (h₀ : w₀.synced = false) :
    ∀ (events : List (WatchEvent Obj × List K)) {w : Watch K E T},
      run κ.step w₀ (connection events) = some w →
        (w.synced = true ↔ .initDone ∈ events.map Prod.fst) := by
  intro events
  induction events using List.reverseRecOn with
  | nil =>
    intro w h
    rw [connection, List.map_nil, run_nil, Option.some.injEq] at h
    rw [← h, h₀]
    simp
  | append_singleton events p ih =>
    intro w h
    rw [connection_snoc] at h
    obtain ⟨m, hm, hs⟩ := run_snoc.mp h
    rw [(κ.step_event hs).2.1, List.map_append, List.map_singleton, List.mem_append,
      List.mem_singleton, ← ih hm]
    cases p.1 with
    | initDone => simp [handle]
    | apply _ | initApply _ | delete _ | init => simp [handle]

namespace View

variable {κ} (V : κ.View I A)

/-- **Two connections whose mirrors hold the same entries of an identity answer
alike for it**, whatever else they hold and however their mirrors were visited. -/
theorem ask_congr_published {w w' : Watch K E T} (hw : κ.Published w) (hw' : κ.Published w') {i : I}
    (h : ∀ k e, V.ident e = i → (w.objects.lookup k = some e ↔ w'.objects.lookup k = some e)) :
    V.ask w.table i = V.ask w'.table i := by
  obtain ⟨order, hperm, htable⟩ := hw
  obtain ⟨order', hperm', htable'⟩ := hw'
  rw [htable, htable']
  refine V.congr i _ _ fun e he => ?_
  rw [Map.mem_visit hperm, Map.mem_visit hperm']
  exact exists_congr fun k => h k e he

end View

end Kind

end Lib
