import Konfig.Subscribe.Namespaces

/-!
# Subscribers and their watchers

* `Namespaces.Inv`: the registered `ShardSet` of a namespace is its newest one,
  and its watcher's handle is on file once its creator has returned.  It is kept
  by every operation as long as handles are stored in the order of creation and
  not under a sweep that is about to take one (`Orderly`).
* `subscribers_served`: then a subscriber's watcher is there, or the subscriber
  sees the end of its stream, and a sweep aborts the watcher it collects.
* `sweep_orphans_subscriber`: otherwise a sweep can abort a new watcher and leave
  its `ShardSet` registered.
-/

namespace Konfig

open Lib

namespace Namespaces

variable {s t : Namespaces} {l : NamespacesLabel}

/-! ### What has to hold -/

/-- No sender of `g` is left: it is registered nowhere and no call holds it.
(The watcher's own goes with the task.) -/
def SendersDropped (s : Namespaces) (g : Nat) : Prop :=
  (∀ ns, s.broadcasts.lookup ns ≠ some g) ∧
    ∀ c ∈ s.calls, c.clone ≠ some g ∧ c.spawns ≠ some g

/-- The watcher task of `g` exists. -/
def watched (s : Namespaces) (g : Nat) : Bool := (taskOf s.gens g).any Task.alive

/-- Each subscriber's watcher task exists, or its stream has ended. -/
def Fed (s : Namespaces) : Prop :=
  ∀ g, 0 < subsOf s.gens g → s.watched g ∨ s.SendersDropped g

/-- As `Fed`, up to what calls at work are about to do: the creator has yet to
spawn the watcher, or the only senders left are the clones that calls drop when
they return. -/
def FedSoon (s : Namespaces) : Prop :=
  ∀ g, 0 < subsOf s.gens g → s.watched g ∨ (∃ c ∈ s.calls, c.spawns = some g) ∨
    ((∀ ns, s.broadcasts.lookup ns ≠ some g) ∧ ∀ c ∈ s.calls, c.spawns ≠ some g)

/-- The watcher a sweep is about to abort is the one of the `ShardSet` it removed. -/
def AbortsOwn (s : Namespaces) : Prop :=
  ∀ ns g rest h, s.gc = .removed ns g rest → s.handles.lookup ns = some h → h = g

/-! ### Conditions -/

def removing (s : Namespaces) (ns : String) : Bool :=
  match s.gc with
  | .removed ns' _ _ => ns' == ns
  | _ => false

/-- A call stores its watcher's handle over an older one only, and not while a
sweep has removed the namespace and not yet taken its handle. -/
def Orderly (s : Namespaces) : NamespacesLabel → Prop
  | .call i =>
    ∀ p ∈ (s.calls[i]?).bind BroadcastCall.stores,
      (∀ h ∈ s.handles.lookup p.1, h < p.2) ∧ s.removing p.1 = false
  | _ => True

/-- A receiver is returned only once the watcher has been spawned, and of a
`ShardSet` whose watcher is gone only to the last call that holds it; a watcher
with subscribers stops only when no call holds its `ShardSet`. -/
def Settled (s : Namespaces) : NamespacesLabel → Prop
  | .call i =>
    ∀ g ∈ (s.calls[i]?).bind BroadcastCall.gets,
      taskOf s.gens g ≠ some .unspawned ∧
        (s.watched g = false → ∀ c ∈ s.calls.eraseIdx i, c.clone ≠ some g)
  | .finish g | .cancel g => 0 < subsOf s.gens g → ∀ c ∈ s.calls, c.clone ≠ some g
  | _ => True

instance (s : Namespaces) : ∀ l, Decidable (s.Orderly l)
  | .call i => inferInstanceAs (Decidable (∀ p ∈ (s.calls[i]?).bind BroadcastCall.stores,
      (∀ h ∈ s.handles.lookup p.1, h < p.2) ∧ s.removing p.1 = false))
  | .subscribe _ | .leave _ | .streamEnds _ | .unlist _ | .finish _ | .cancel _ | .gcStart _
  | .gcVisit _ _ | .gcCollect | .gcNext => isTrue trivial

instance (s : Namespaces) : ∀ l, Decidable (s.Settled l)
  | .call i => inferInstanceAs (Decidable (∀ g ∈ (s.calls[i]?).bind BroadcastCall.gets,
      taskOf s.gens g ≠ some .unspawned ∧
        (s.watched g = false → ∀ c ∈ s.calls.eraseIdx i, c.clone ≠ some g)))
  | .finish g | .cancel g =>
    inferInstanceAs (Decidable (0 < subsOf s.gens g → ∀ c ∈ s.calls, c.clone ≠ some g))
  | .subscribe _ | .leave _ | .streamEnds _ | .unlist _ | .gcStart _ | .gcVisit _ _ | .gcCollect
  | .gcNext => isTrue trivial

/-! ### The invariant -/

structure Inv (s : Namespaces) : Prop where
  registered : ∀ ns g, s.broadcasts.lookup ns = some g →
    nsOf s.gens g = some ns ∧ (taskOf s.gens g).any Task.listed
  newest : ∀ ns g, s.broadcasts.lookup ns = some g → ∀ g', nsOf s.gens g' = some ns → g' ≤ g
  handled : ∀ ns g, s.broadcasts.lookup ns = some g →
    s.handles.lookup ns = some g ∨ ∃ c ∈ s.calls, c.creates = some (ns, g)
  handles : ∀ ns h, s.handles.lookup ns = some h → nsOf s.gens h = some ns
  removed : ∀ ns g rest, s.gc = .removed ns g rest →
    g < s.gens.length ∧ s.broadcasts.lookup ns ≠ some g ∧
      ∀ h, s.handles.lookup ns = some h → h = g
  creates : ∀ c ∈ s.calls, ∀ ns g, c.creates = some (ns, g) → nsOf s.gens g = some ns
  unspawned : ∀ g, taskOf s.gens g = some .unspawned ↔ ∃ c ∈ s.calls, c.spawns = some g
  spawner : ∀ (g i j : Nat) (c d : BroadcastCall), s.calls[i]? = some c → s.calls[j]? = some d →
    c.spawns = some g → d.spawns = some g → i = j

theorem inv_new : Inv .new where
  registered ns g h := by simp [Namespaces.new] at h
  newest ns g h := by simp [Namespaces.new] at h
  handled ns g h := by simp [Namespaces.new] at h
  handles ns g h := by simp [Namespaces.new] at h
  removed ns g rest h := by simp [Namespaces.new] at h
  creates c h := by simp [Namespaces.new] at h
  unspawned g := by simp [Namespaces.new, taskOf]
  spawner g i j c d h := by simp [Namespaces.new] at h

/-! ### Lists and maps -/

section Lists

variable {α : Type} {calls : List α} {i : Nat} {c c' : α} {P : α → Prop}

theorem exists_mem_set (hc : calls[i]? = some c) (hP : P c → P c')
    (h : ∃ d ∈ calls, P d) : ∃ d ∈ calls.set i c', P d := by
  obtain ⟨d, hd, hPd⟩ := h
  obtain ⟨j, hj⟩ := List.mem_iff_getElem?.mp hd
  by_cases hij : i = j
  · subst hij
    have hlt : i < calls.length := (List.getElem?_eq_some_iff.mp hc).1
    rw [hc, Option.some.injEq] at hj
    exact ⟨c', List.mem_set hlt c', hP (hj ▸ hPd)⟩
  · exact ⟨d, List.mem_iff_getElem?.mpr ⟨j, by rw [List.getElem?_set_ne hij, hj]⟩, hPd⟩

theorem exists_mem_set_iff (hc : calls[i]? = some c) (hP : P c ↔ P c') :
    (∃ d ∈ calls, P d) ↔ ∃ d ∈ calls.set i c', P d := by
  refine ⟨exists_mem_set hc hP.mp, ?_⟩
  rintro ⟨d, hd, hPd⟩
  rcases List.mem_or_eq_of_mem_set hd with hold | rfl
  · exact ⟨d, hold, hPd⟩
  · exact ⟨c, List.mem_iff_getElem?.mpr ⟨i, hc⟩, hP.mpr hPd⟩

theorem forall_mem_set (h : ∀ d ∈ calls, P d) (hc' : P c') : ∀ d ∈ calls.set i c', P d := by
  intro d hd
  rcases List.mem_or_eq_of_mem_set hd with hold | rfl
  · exact h d hold
  · exact hc'

theorem mem_eraseIdx_of_mem_set (hi : i < calls.length) (h : c ∈ calls.set i c') :
    c = c' ∨ c ∈ calls.eraseIdx i := by
  obtain ⟨j, hj⟩ := List.mem_iff_getElem?.mp h
  by_cases hij : i = j
  · rw [← hij, List.getElem?_set_self hi, Option.some.injEq] at hj
    exact .inl hj.symm
  · rw [List.getElem?_set_ne hij] at hj
    exact .inr (List.mem_eraseIdx_iff_getElem?.mpr ⟨j, Ne.symm hij, hj⟩)

end Lists

theorem forall_mem_started {calls : List BroadcastCall} {ns : String} {P : BroadcastCall → Prop}
    (h : ∀ d ∈ calls, P d) (hns : P (.started ns)) : ∀ d ∈ calls ++ [.started ns], P d := by
  intro d hd
  rcases List.mem_append.mp hd with hold | hnew
  · exact h d hold
  · rw [List.mem_singleton.mp hnew]
    exact hns

theorem lookup_erase_some {V : Type} {m : Map String V} {k j : String} {v : V}
    (h : (m.erase k).lookup j = some v) : j ≠ k ∧ m.lookup j = some v := by
  by_cases hjk : j = k
  · subst hjk
    rw [AList.lookup_erase] at h
    cases h
  · rw [AList.lookup_erase_ne hjk] at h
    exact ⟨hjk, h⟩

theorem lookup_insert_some {V : Type} {m : Map String V} {k j : String} {v w : V}
    (h : (m.insert k v).lookup j = some w) : (j = k ∧ w = v) ∨ (j ≠ k ∧ m.lookup j = some w) := by
  by_cases hjk : j = k
  · subst hjk
    rw [AList.lookup_insert, Option.some.injEq] at h
    exact .inl ⟨rfl, h.symm⟩
  · rw [AList.lookup_insert_ne hjk] at h
    exact .inr ⟨hjk, h⟩

/-- The creator of an idle `ShardSet` has returned. -/
theorem not_creates_of_idle {s : Namespaces} {g : Nat} (h : s.totalReceiverCount g = 0)
    {c : BroadcastCall} (hc : c ∈ s.calls) {ns : String} : c.creates ≠ some (ns, g) := by
  intro hcr
  have hzero : s.calls.countP (fun c => c.creates.any (·.2 == g)) = 0 := by
    unfold totalReceiverCount at h
    omega
  have := List.countP_eq_zero.mp hzero c hc
  simp [hcr] at this

theorem getElem?_spawns_append {calls : List BroadcastCall} {i : Nat} {c : BroadcastCall}
    {ns : String} {g : Nat} (hc : (calls ++ [.started ns])[i]? = some c) (hsp : c.spawns = some g) :
    calls[i]? = some c := by
  rcases Nat.lt_or_ge i calls.length with hlt | hge
  · rw [← hc, List.getElem?_append_left hlt]
  · rw [List.getElem?_append_right hge, List.getElem?_singleton] at hc
    split at hc
    · cases hc
      cases hsp
    · cases hc

/-- A call that is replaced by one that spawns the same, nothing, or something no
other call spawns. -/
theorem spawner_set {calls : List BroadcastCall} {i : Nat} {c c' : BroadcastCall}
    (h : ∀ (g j k : Nat) (d e : BroadcastCall), calls[j]? = some d → calls[k]? = some e →
      d.spawns = some g → e.spawns = some g → j = k)
    (hc : calls[i]? = some c)
    (hc' : c'.spawns = c.spawns ∨ ∀ g, c'.spawns = some g → ∀ d ∈ calls, d.spawns ≠ some g) :
    ∀ (g j k : Nat) (d e : BroadcastCall), (calls.set i c')[j]? = some d →
      (calls.set i c')[k]? = some e → d.spawns = some g → e.spawns = some g → j = k := by
  -- another call that spawns what the new one spawns
  have hother : ∀ (g j : Nat) (d : BroadcastCall), i ≠ j → calls[j]? = some d →
      d.spawns = some g → c'.spawns ≠ some g := by
    intro g j d hij hd hsp hsp'
    rcases hc' with hsame | hnew
    · exact hij (h g i j c d hc hd (hsame ▸ hsp') hsp)
    · exact hnew g hsp' d (List.mem_of_getElem? hd) hsp
  intro g j k d e hd he hdg heg
  have hlt : i < calls.length := (List.getElem?_eq_some_iff.mp hc).1
  by_cases hij : i = j
  · by_cases hik : i = k
    · exact hij.symm.trans hik
    · subst hij
      rw [List.getElem?_set_self hlt, Option.some.injEq] at hd
      rw [List.getElem?_set_ne hik] at he
      exact absurd (hd ▸ hdg) (hother g k e hik he heg)
  · rw [List.getElem?_set_ne hij] at hd
    by_cases hik : i = k
    · subst hik
      rw [List.getElem?_set_self hlt, Option.some.injEq] at he
      exact absurd (he ▸ heg) (hother g j d hij hd hdg)
    · rw [List.getElem?_set_ne hik] at he
      exact h g j k d e hd he hdg heg

/-! ### One operation keeps the invariant -/

theorem Turn.listed {g : Nat} {task task' : Task} (h : Turn g l task task')
    (hl : task.listed = true) : task'.listed = true := by
  cases h with
  | streamEnds h => rfl
  | finish => cases hl
  | cancel => cases hl

theorem Turn.spawned {g : Nat} {task task' : Task} (h : Turn g l task task') :
    task ≠ .unspawned ∧ task' ≠ .unspawned := by
  cases h with
  | streamEnds h => rcases h with rfl | rfl <;> simp
  | finish => simp
  | cancel => simp

theorem registered_step (hi : Inv s) (m : Move s l t) : ∀ ns g, t.broadcasts.lookup ns = some g →
    nsOf t.gens g = some ns ∧ (taskOf t.gens g).any Task.listed := by
  have h := hi.registered
  cases m with
  | attach hc hret => simpa using h
  | create hc hvacant =>
    rename_i i ns
    intro ns' g hg
    rcases lookup_insert_some hg with ⟨rfl, rfl⟩ | ⟨hne, hg⟩
    · simp [nsOf, taskOf, Task.listed]
    · have hlt := lt_of_nsOf (h ns' g hg).1
      simpa [nsOf, taskOf, getElem?_append_ne _ (Nat.ne_of_lt hlt)] using h ns' g hg
  | spawn hc =>
    rename_i i ns g buf
    intro ns' g' hg
    rw [nsOf_onTask]
    refine ⟨(h ns' g' hg).1, ?_⟩
    exact any_taskOf_onTask (f := fun _ => .running) g' (h ns' g' hg).2 fun _ _ _ => rfl
  | store hc => simpa using h
  | leave g => simpa using h
  | turn htask hturn =>
    rename_i g task task' buffers
    intro ns' g' hg
    rw [nsOf_onTask]
    refine ⟨(h ns' g' hg).1, any_taskOf_onTask (f := fun _ => task') g' (h ns' g' hg).2 ?_⟩
    intro w hw hl
    rw [htask, Option.some.injEq] at hw
    exact hturn.listed (hw ▸ hl)
  | unlist hns htask hgc =>
    rename_i g ns gc
    intro ns' g' hg
    obtain ⟨hne, hreg⟩ := lookup_erase_some hg
    have hgg : g' ≠ g := by
      rintro rfl
      exact hne (Option.some.inj ((h ns' g' hreg).1.symm.trans hns))
    rw [nsOf_onTask, taskOf_onTask_ne _ _ hgg]
    exact h ns' g' hreg
  | remove hg hidle =>
    intro ns' g' hg'
    exact h ns' g' (lookup_erase_some hg').2
  | take hgc hh =>
    rename_i ns g h' rest
    intro ns' g' hg'
    -- the watcher that is stopped is not a registered one
    have hgg : g' ≠ h' := by
      rintro rfl
      obtain ⟨-, hunreg, hown⟩ := hi.removed ns g rest hgc
      have hns : ns' = ns := Option.some.inj ((h ns' g' hg').1.symm.trans (hi.handles ns g' hh))
      rw [hns, hown g' hh] at hg'
      exact hunreg hg'
    rw [nsOf_onTask, taskOf_onTask_ne _ _ hgg]
    exact h ns' g' hg'
  | _ => exact h

theorem newest_step (hi : Inv s) (m : Move s l t) : ∀ ns g, t.broadcasts.lookup ns = some g →
    ∀ g', nsOf t.gens g' = some ns → g' ≤ g := by
  have h := hi.newest
  cases m with
  | attach hc hret => simpa using h
  | create hc hvacant =>
    rename_i i ns
    intro ns' g hg g' hg'
    rcases lookup_insert_some hg with ⟨rfl, rfl⟩ | ⟨hne, hg⟩
    · have := lt_of_nsOf hg'
      simp only [List.length_append, List.length_cons, List.length_nil] at this
      omega
    · rcases nsOf_append hg' with hold | ⟨-, hns⟩
      · exact h ns' g hg g' hold
      · exact absurd hns.symm hne
  | spawn hc => simpa using h
  | store hc => simpa using h
  | leave g => simpa using h
  | turn htask hturn => simpa using h
  | unlist hns htask hgc =>
    intro ns' g' hg g'' hg''
    rw [nsOf_onTask] at hg''
    exact h ns' g' (lookup_erase_some hg).2 g'' hg''
  | remove hg hidle =>
    intro ns' g' hg'
    exact h ns' g' (lookup_erase_some hg').2
  | take hgc hh => simpa using h
  | _ => exact h

theorem handled_step (hi : Inv s) (ho : s.Orderly l) (m : Move s l t) :
    ∀ ns g, t.broadcasts.lookup ns = some g →
      t.handles.lookup ns = some g ∨ ∃ c ∈ t.calls, c.creates = some (ns, g) := by
  have h := hi.handled
  cases m with
  | subscribe ns =>
    intro ns' g hg
    refine (h ns' g hg).imp_right ?_
    rintro ⟨c, hc, hcr⟩
    exact ⟨c, List.mem_append_left _ hc, hcr⟩
  | quiet hc hq =>
    intro ns' g hg
    exact (h ns' g hg).imp_right (exists_mem_set hc fun hcr => hq.creates.trans hcr)
  | attach hc hret =>
    intro ns' g' hg
    refine (h ns' g' hg).imp_right (exists_mem_set hc ?_)
    rcases hret with rfl | rfl <;> simp [BroadcastCall.creates]
  | create hc hvacant =>
    rename_i i ns
    intro ns' g hg
    rcases lookup_insert_some hg with ⟨rfl, rfl⟩ | ⟨hne, hg⟩
    · have hlt : i < s.calls.length := (List.getElem?_eq_some_iff.mp hc).1
      exact .inr ⟨_, List.mem_set hlt _, rfl⟩
    · exact (h ns' g hg).imp_right (exists_mem_set hc (by simp [BroadcastCall.creates]))
  | spawn hc =>
    intro ns' g' hg
    exact (h ns' g' hg).imp_right (exists_mem_set hc (by simp [BroadcastCall.creates]))
  | store hc =>
    rename_i i ns g buf
    intro ns' g' hg
    by_cases hns : ns' = ns
    · subst hns
      rcases h ns' g' hg with hold | hcr
      · -- an older handle is overwritten, and `g'` is the newest of its namespace
        have hlt := (ho (ns', g) (by simp [hc, BroadcastCall.stores])).1 g' hold
        have hle := hi.newest ns' g' hg g (hi.creates _ (List.mem_of_getElem? hc) ns' g rfl)
        omega
      · by_cases hgg : g' = g
        · subst hgg
          exact .inl (AList.lookup_insert _)
        · refine .inr (exists_mem_set hc ?_ hcr)
          intro hcr
          cases hcr
          exact absurd rfl hgg
    · rw [AList.lookup_insert_ne hns]
      refine (h ns' g' hg).imp_right (exists_mem_set hc ?_)
      intro hcr
      cases hcr
      exact absurd rfl hns
  | unlist hns htask hgc =>
    intro ns' g' hg
    exact h ns' g' (lookup_erase_some hg).2
  | remove hg hidle =>
    intro ns' g' hg'
    exact h ns' g' (lookup_erase_some hg').2
  | take hgc hh =>
    rename_i ns g h' rest
    intro ns' g' hg'
    rcases h ns' g' hg' with hold | hcr
    · left
      have hne : ns' ≠ ns := by
        rintro rfl
        obtain ⟨-, hunreg, hown⟩ := hi.removed ns' g rest hgc
        rw [hown g' hold] at hg'
        exact hunreg hg'
      rw [AList.lookup_erase_ne hne]
      exact hold
    · exact .inr hcr
  | _ => exact h

theorem handles_step (hi : Inv s) (m : Move s l t) :
    ∀ ns h, t.handles.lookup ns = some h → nsOf t.gens h = some ns := by
  have h := hi.handles
  cases m with
  | attach hc hret => simpa using h
  | create hc hvacant =>
    intro ns' g hg
    have hns := h ns' g hg
    rw [nsOf, getElem?_append_ne _ (Nat.ne_of_lt (lt_of_nsOf hns))]
    exact hns
  | spawn hc => simpa using h
  | store hc =>
    rename_i i ns g buf
    intro ns' g' hg
    rw [nsOf_onSubs]
    rcases lookup_insert_some hg with ⟨rfl, rfl⟩ | ⟨hne, hg⟩
    · exact hi.creates _ (List.mem_of_getElem? hc) ns' g' rfl
    · exact h ns' g' hg
  | leave g => simpa using h
  | turn htask hturn => simpa using h
  | unlist hns htask hgc => simpa using h
  | take hgc hh =>
    intro ns' g' hg'
    rw [nsOf_onTask]
    exact h ns' g' (lookup_erase_some hg').2
  | _ => exact h

theorem removed_step (hi : Inv s) (ho : s.Orderly l) (m : Move s l t) :
    ∀ ns g rest, t.gc = .removed ns g rest →
      g < t.gens.length ∧ t.broadcasts.lookup ns ≠ some g ∧
        ∀ h, t.handles.lookup ns = some h → h = g := by
  have h := hi.removed
  cases m with
  | attach hc hret => simpa using h
  | create hc hvacant =>
    rename_i i ns
    intro ns' g rest hgc
    obtain ⟨hlt, hunreg, hown⟩ := h ns' g rest hgc
    refine ⟨by simp only [List.length_append]; omega, ?_, hown⟩
    intro hg
    rcases lookup_insert_some hg with ⟨-, rfl⟩ | ⟨-, hg⟩
    · omega
    · exact hunreg hg
  | spawn hc => simpa using h
  | store hc =>
    rename_i i ns g buf
    intro ns' g' rest hgc
    have hne : ns' ≠ ns := by
      rintro rfl
      have hfree := (ho (ns', g) (by simp [hc, BroadcastCall.stores])).2
      have hgc' : s.gc = .removed ns' g' rest := hgc
      simp [removing, hgc'] at hfree
    simpa [AList.lookup_insert_ne hne] using h ns' g' rest hgc
  | leave g => simpa using h
  | turn htask hturn => simpa using h
  | unlist hns htask hgc =>
    intro ns' g' rest hgc'
    obtain ⟨hlt, hunreg, hown⟩ := h ns' g' rest ((hgc ns' g' rest hgc').trans hgc')
    refine ⟨by simpa using hlt, ?_, hown⟩
    intro hg
    exact hunreg (lookup_erase_some hg).2
  | sweep hgc =>
    intro ns' g' rest hgc'
    exact absurd hgc' (hgc ns' g' rest)
  | remove hg hidle =>
    rename_i ns g rest
    intro ns' g' rest' hgc
    cases hgc
    refine ⟨lt_of_nsOf (hi.registered ns g hg).1, ?_, ?_⟩
    · rw [AList.lookup_erase]
      simp
    · intro h' hh
      rcases hi.handled ns g hg with hown | ⟨c, hc, hcr⟩
      · exact Option.some.inj (hh.symm.trans hown)
      · exact absurd hcr (not_creates_of_idle hidle hc)
  | take hgc hh => exact nofun
  | _ => exact h

theorem creates_step (hi : Inv s) (m : Move s l t) :
    ∀ c ∈ t.calls, ∀ ns g, c.creates = some (ns, g) → nsOf t.gens g = some ns := by
  have h := hi.creates
  cases m with
  | subscribe ns => exact forall_mem_started h nofun
  | quiet hc hq =>
    refine forall_mem_set h ?_
    intro ns g hcr
    exact h _ (List.mem_of_getElem? hc) ns g (hq.creates ▸ hcr)
  | attach hc hret =>
    simp only [nsOf_onSubs]
    exact forall_mem_set h nofun
  | create hc hvacant =>
    refine forall_mem_set ?_ ?_
    · intro d hd ns g hcr
      have hns := h d hd ns g hcr
      rw [nsOf, getElem?_append_ne _ (Nat.ne_of_lt (lt_of_nsOf hns))]
      exact hns
    · intro ns g hcr
      cases hcr
      simp [nsOf]
  | spawn hc =>
    simp only [nsOf_onTask]
    refine forall_mem_set h ?_
    intro ns g hcr
    exact h _ (List.mem_of_getElem? hc) ns g hcr
  | store hc =>
    simp only [nsOf_onSubs]
    exact forall_mem_set h nofun
  | leave g => simpa using h
  | turn htask hturn => simpa using h
  | unlist hns htask hgc => simpa using h
  | take hgc hh => simpa using h
  | _ => exact h

theorem spawner_step (hi : Inv s) (m : Move s l t) :
    ∀ (g i j : Nat) (c d : BroadcastCall), t.calls[i]? = some c → t.calls[j]? = some d →
      c.spawns = some g → d.spawns = some g → i = j := by
  have h := hi.spawner
  cases m with
  | subscribe ns =>
    intro g i j c d hi' hj hc hd
    exact h g i j c d (getElem?_spawns_append hi' hc) (getElem?_spawns_append hj hd) hc hd
  | quiet hc hq => exact spawner_set h hc (.inl hq.spawns)
  | attach hc hret => exact spawner_set h hc (.inr nofun)
  | create hc hvacant =>
    refine spawner_set h hc (.inr ?_)
    intro g hg d hd hsp
    cases hg
    have hlt := lt_of_taskOf ((hi.unspawned _).mpr ⟨d, hd, hsp⟩)
    omega
  | spawn hc => exact spawner_set h hc (.inr nofun)
  | store hc => exact spawner_set h hc (.inr nofun)
  | _ => exact h

theorem unspawned_step (hi : Inv s) (m : Move s l t) :
    ∀ g, taskOf t.gens g = some .unspawned ↔ ∃ c ∈ t.calls, c.spawns = some g := by
  have h := hi.unspawned
  cases m with
  | subscribe ns =>
    intro g
    rw [h g]
    simp [or_and_right, exists_or, BroadcastCall.spawns]
  | quiet hc hq =>
    intro g
    rw [h g]
    exact exists_mem_set_iff hc (by rw [hq.spawns])
  | attach hc hret =>
    intro g
    rw [taskOf_onSubs, h g]
    refine exists_mem_set_iff hc ?_
    rcases hret with rfl | rfl <;> simp [BroadcastCall.spawns]
  | create hc hvacant =>
    rename_i i ns
    intro g
    by_cases hg : g = s.gens.length
    · have hlt : i < s.calls.length := (List.getElem?_eq_some_iff.mp hc).1
      subst hg
      exact ⟨fun _ => ⟨_, List.mem_set hlt _, rfl⟩, fun _ => by simp [taskOf]⟩
    · rw [taskOf_append_ne _ hg, h g]
      refine exists_mem_set_iff hc ?_
      simp [BroadcastCall.spawns, Ne.symm hg]
  | spawn hc =>
    rename_i i ns g buf
    intro g'
    by_cases hgg : g' = g
    · subst hgg
      rw [taskOf_onTask_self]
      refine iff_of_false (by cases taskOf s.gens g' <;> simp) ?_
      -- the call was the only one to spawn `g'`
      rintro ⟨d, hd, hsp⟩
      obtain ⟨j, hj⟩ := List.mem_iff_getElem?.mp hd
      by_cases hij : i = j
      · have hlt : i < s.calls.length := (List.getElem?_eq_some_iff.mp hc).1
        rw [← hij, List.getElem?_set_self hlt, Option.some.injEq] at hj
        subst hj
        cases hsp
      · rw [List.getElem?_set_ne hij] at hj
        exact hij (hi.spawner g' i j _ d hc hj rfl hsp)
    · rw [taskOf_onTask_ne _ _ hgg, h g']
      refine exists_mem_set_iff hc ?_
      simp [BroadcastCall.spawns, Ne.symm hgg]
  | store hc =>
    intro g
    rw [taskOf_onSubs, h g]
    exact exists_mem_set_iff hc (by simp [BroadcastCall.spawns])
  | leave g => simpa using h
  | turn htask hturn =>
    rename_i g task task' buffers
    intro g'
    rw [← h g']
    show taskOf (onTask s.gens g fun _ => task') g' = _ ↔ _
    refine taskOf_unspawned_onTask g' ?_
    intro w hw
    rw [htask, Option.some.injEq] at hw
    subst hw
    exact iff_of_false hturn.spawned.2 hturn.spawned.1
  | unlist hns htask hgc =>
    rename_i g ns gc
    intro g'
    rw [← h g']
    show taskOf (onTask s.gens g fun _ => .unlisted) g' = _ ↔ _
    refine taskOf_unspawned_onTask g' ?_
    intro w hw
    rw [htask, Option.some.injEq] at hw
    subst hw
    simp
  | take hgc hh =>
    intro g'
    rw [← h g']
    refine taskOf_unspawned_onTask g' ?_
    intro w _
    cases w <;> simp [Task.abort]
  | _ => exact h

theorem Inv.step (hi : Inv s) (ho : s.Orderly l) (h : s.step l = some t) : Inv t := by
  have m := step_move h
  exact
    { registered := registered_step hi m
      newest := newest_step hi m
      handled := handled_step hi ho m
      handles := handles_step hi m
      removed := removed_step hi ho m
      creates := creates_step hi m
      unspawned := unspawned_step hi m
      spawner := spawner_step hi m }

theorem Inv.run {ls : List NamespacesLabel} (h : Lib.run Namespaces.step .new ls = some s)
    (ho : Along Namespaces.step (fun _ => Orderly) .new ls) : Inv s := by
  refine run_induction_along (fun _ => Orderly) (fun _ => Inv) inv_new ?_ ls s h ho
  intro _ s l t _ hi ho ht
  exact hi.step ho ht

/-! ### Subscribers -/

/-- A `ShardSet` whose watcher is gone is not registered any more. -/
theorem Inv.not_registered (hi : Inv s) {g : Nat} (hdead : s.watched g = false)
    (hsp : ∀ c ∈ s.calls, c.spawns ≠ some g) (ns : String) : s.broadcasts.lookup ns ≠ some g := by
  intro hg
  have hlisted := (hi.registered ns g hg).2
  cases htask : taskOf s.gens g with
  | none => simp [htask] at hlisted
  | some task =>
    rw [htask] at hlisted
    have hdead' : task.alive = false := by simpa [watched, htask] using hdead
    have hun : task = .unspawned := by
      cases task with
      | unspawned => rfl
      | running => cases hdead'
      | aborting => cases hlisted
      | ended => cases hdead'
      | unlisted => cases hlisted
      | finished => cases hlisted
      | aborted => cases hlisted
    obtain ⟨c, hc, hcg⟩ := (hi.unspawned g).mp (by rw [htask, hun])
    exact hsp c hc hcg

theorem Inv.fedSoon (hi : Inv s) : s.FedSoon := by
  intro g _
  by_cases hsp : ∃ c ∈ s.calls, c.spawns = some g
  · exact .inr (.inl hsp)
  · push Not at hsp
    cases hw : s.watched g with
    | true => exact .inl rfl
    | false => exact .inr (.inr ⟨hi.not_registered hw hsp, hsp⟩)

/-- `Fed` where `Inv` holds: a subscriber without a watcher had one, and no call
holds a clone. -/
def Ended (s : Namespaces) : Prop :=
  ∀ g, 0 < subsOf s.gens g → s.watched g = false →
    taskOf s.gens g ≠ some .unspawned ∧ ∀ c ∈ s.calls, c.clone ≠ some g

theorem Ended.fed (h : s.Ended) (hi : Inv s) : s.Fed := by
  intro g hlive
  cases hw : s.watched g with
  | true => exact .inl rfl
  | false =>
    obtain ⟨hun, hclone⟩ := h g hlive hw
    have hsp : ∀ c ∈ s.calls, c.spawns ≠ some g := by
      intro c hc hcg
      exact hun ((hi.unspawned g).mpr ⟨c, hc, hcg⟩)
    exact .inr ⟨hi.not_registered hw hsp, fun c hc => ⟨hclone c hc, hsp c hc⟩⟩

/-- A call returns a receiver of `g`. -/
theorem Ended.returned (h : s.Ended) {i g buf : Nat} {c : BroadcastCall} {ns : String}
    (hc : s.calls[i]? = some c) (hget : c.gets = some g) (hs : s.Settled (.call i))
    (hgens : t.gens = onSubs s.gens g (· + 1))
    (hcalls : t.calls = s.calls.set i (.returned ns g buf)) : t.Ended := by
  obtain ⟨hun, hlast⟩ := hs g (by simp [hc, hget])
  intro g' hlive hdead
  rw [watched, hgens, taskOf_onSubs] at hdead
  rw [hgens, taskOf_onSubs, hcalls]
  by_cases hgg : g' = g
  · subst hgg
    refine ⟨hun, ?_⟩
    intro d hd
    rcases mem_eraseIdx_of_mem_set (List.getElem?_eq_some_iff.mp hc).1 hd with rfl | hd
    · exact nofun
    · exact hlast hdead d hd
  · rw [hgens, subsOf_onSubs_ne _ _ hgg] at hlive
    exact ⟨(h g' hlive hdead).1, forall_mem_set (h g' hlive hdead).2 nofun⟩

/-- A task moves on: it lives on, or no call holds a clone of what it fed. -/
theorem Ended.turned (h : s.Ended) {g : Nat} {f : Task → Task}
    (hgens : t.gens = onTask s.gens g f) (hcalls : t.calls = s.calls)
    (hf : ∀ task, taskOf s.gens g = some task → 0 < subsOf s.gens g → (f task).alive = false →
      f task ≠ .unspawned ∧ ∀ c ∈ s.calls, c.clone ≠ some g) : t.Ended := by
  intro g' hlive hdead
  rw [hgens, subsOf_onTask] at hlive
  rw [hcalls, hgens]
  by_cases hgg : g' = g
  · subst hgg
    rw [watched, hgens, taskOf_onTask_self] at hdead
    rw [taskOf_onTask_self]
    cases htask : taskOf s.gens g' with
    | none =>
      obtain hnone : s.gens[g']? = none := Option.map_eq_none_iff.mp htask
      simp [subsOf, hnone] at hlive
    | some task =>
      rw [htask] at hdead
      obtain ⟨hun, hclone⟩ := hf task htask hlive hdead
      exact ⟨fun heq => hun (Option.some.inj heq), hclone⟩
  · rw [watched, hgens, taskOf_onTask_ne _ _ hgg] at hdead
    rw [taskOf_onTask_ne _ _ hgg]
    exact h g' hlive hdead

theorem Ended.move (h : s.Ended) (hi : Inv s) (hs : s.Settled l) (m : Move s l t) : t.Ended := by
  cases m with
  | subscribe ns =>
    intro g hlive hdead
    exact ⟨(h g hlive hdead).1, forall_mem_started (h g hlive hdead).2 fun hclone => by cases hclone⟩
  | quiet hc hq =>
    intro g hlive hdead
    obtain ⟨hun, hclone⟩ := h g hlive hdead
    refine ⟨hun, forall_mem_set hclone ?_⟩
    intro hdg
    rcases hq.clone g hdg with hold | ⟨ns, hreg⟩
    · exact hclone _ (List.mem_of_getElem? hc) hold
    · -- a clone is taken of what is registered, and that has a watcher
      refine hi.not_registered hdead ?_ ns hreg
      intro c hc hcg
      exact hun ((hi.unspawned g).mpr ⟨c, hc, hcg⟩)
  | attach hc hret =>
    refine h.returned hc ?_ hs rfl rfl
    rcases hret with rfl | rfl <;> rfl
  | create hc hvacant =>
    rename_i i ns
    intro g hlive hdead
    have hg : g ≠ s.gens.length := by
      rintro rfl
      simp [subsOf] at hlive
    have hlive' : 0 < subsOf s.gens g := by
      rwa [subsOf_append_ne _ hg] at hlive
    rw [watched, taskOf_append_ne _ hg] at hdead
    rw [taskOf_append_ne _ hg]
    exact ⟨(h g hlive' hdead).1, forall_mem_set (h g hlive' hdead).2 fun hclone => by cases hclone⟩
  | spawn hc =>
    rename_i i ns g buf
    have hend : Ended { s with gens := onTask s.gens g fun _ => .running } :=
      h.turned (f := fun _ => .running) rfl rfl fun _ _ _ halive => by cases halive
    intro g' hlive hdead
    exact ⟨(hend g' hlive hdead).1, forall_mem_set (hend g' hlive hdead).2 fun hclone => by cases hclone⟩
  | store hc => exact h.returned hc rfl hs rfl rfl
  | leave g =>
    intro g' hlive hdead
    rw [watched, taskOf_onSubs] at hdead
    rw [taskOf_onSubs]
    exact h g' (Nat.lt_of_lt_of_le hlive (subsOf_leave_le _ _ _)) hdead
  | turn htask hturn =>
    rename_i g task task' buffers
    refine h.turned (f := fun _ => task') rfl rfl ?_
    intro w _ hlive hdead
    refine ⟨hturn.spawned.2, ?_⟩
    cases hturn with
    | streamEnds h => cases hdead
    | finish => exact hs hlive
    | cancel => exact hs hlive
  | unlist hns htask hgc => exact h.turned (f := fun _ => .unlisted) rfl rfl fun _ _ _ halive => by cases halive
  | sweep hgc => exact h
  | remove hg hidle => exact h
  | take hgc hh =>
    refine h.turned (f := Task.abort) rfl rfl ?_
    intro w hw hlive hdead
    have hsame : w.abort = w := by
      cases w with
      | running => cases hdead
      | _ => rfl
    rw [hsame] at hdead ⊢
    obtain ⟨hun, hclone⟩ := h _ hlive (by rw [watched, hw]; exact hdead)
    exact ⟨fun heq => hun (by rw [hw, heq]), hclone⟩

end Namespaces

open Namespaces

/-- **No subscriber is left behind when handles are stored in order.** -/
theorem subscribers_served {ls : List NamespacesLabel} {s : Namespaces}
    (h : run Namespaces.step .new ls = some s)
    (ho : Along Namespaces.step (fun _ => Orderly) .new ls) :
    s.FedSoon ∧ s.AbortsOwn ∧ (Along Namespaces.step (fun _ => Settled) .new ls → s.Fed) := by
  have hi := Inv.run h ho
  refine ⟨hi.fedSoon, fun ns g rest h' hgc hh => (hi.removed ns g rest hgc).2.2 h' hh, ?_⟩
  intro hs
  have hend : s.Ended := by
    refine run_induction_along (fun _ s l => s.Orderly l ∧ s.Settled l)
      (fun _ s => Inv s ∧ s.Ended) ⟨inv_new, ?_⟩ ?_ ls s h ?_ |>.2
    · intro g hlive
      simp [Namespaces.new, subsOf] at hlive
    · rintro _ s l t _ ⟨hi, hend⟩ ⟨ho, hs⟩ ht
      exact ⟨hi.step ho ht, hend.move hi hs (step_move ht)⟩
    · intro pre a post m he hm
      exact ⟨ho pre a post m he hm, hs pre a post m he hm⟩
  exact hend.fed hi

/-- One subscriber comes and goes, its namespace is collected, and another one
comes. -/
theorem subscribers_served_twice : ∃ s : Namespaces, run Namespaces.step .new
      [.subscribe "prod", .call 0, .call 0, .call 0, .call 0, .call 0, .leave 0, .gcStart 0,
        .gcVisit "prod" 0, .gcCollect, .gcNext, .gcStart 40000, .gcVisit "prod" 40000, .gcCollect,
        .gcNext, .gcNext, .gcNext, .gcNext, .cancel 0, .subscribe "prod", .call 1, .call 1, .call 1,
        .call 1, .call 1] = some s ∧
    s.gens = [⟨"prod", .aborted, 0⟩, ⟨"prod", .running, 1⟩] ∧ s.FedSoon ∧ s.AbortsOwn ∧ s.Fed := by
  obtain ⟨s, hs, hgens⟩ := (Option.any_eq_true _ _).mp
    (show (run Namespaces.step .new
      [.subscribe "prod", .call 0, .call 0, .call 0, .call 0, .call 0, .leave 0, .gcStart 0,
        .gcVisit "prod" 0, .gcCollect, .gcNext, .gcStart 40000, .gcVisit "prod" 40000, .gcCollect,
        .gcNext, .gcNext, .gcNext, .gcNext, .cancel 0, .subscribe "prod", .call 1, .call 1, .call 1,
        .call 1, .call 1]).any (fun s => decide
          (s.gens = [⟨"prod", .aborted, 0⟩, ⟨"prod", .running, 1⟩])) = true by decide +kernel)
  obtain ⟨hsoon, hown, hfed⟩ := subscribers_served hs (by decide +kernel)
  exact ⟨s, hs, of_decide_eq_true hgens, hsoon, hown, hfed (by decide +kernel)⟩

/-- **A sweep can abort a new subscriber's watcher.**  The idle `ShardSet` of
`prod` is removed; before the sweep takes the handle, a call creates the next one
and stores its own.  The sweep takes that handle, and the new `ShardSet` stays
registered without a watcher. -/
theorem sweep_orphans_subscriber :
    (¬ ∀ (ls : List NamespacesLabel) (s : Namespaces),
      run Namespaces.step .new ls = some s → s.Fed) ∧
    (¬ ∀ (ls : List NamespacesLabel) (s : Namespaces),
      run Namespaces.step .new ls = some s → s.FedSoon) ∧
    ¬ ∀ (ls : List NamespacesLabel) (s : Namespaces),
      run Namespaces.step .new ls = some s → s.AbortsOwn := by
  obtain ⟨s, hs, hread⟩ := (Option.any_eq_true _ _).mp
    (show (run Namespaces.step .new
      [.subscribe "prod", .call 0, .call 0, .call 0, .call 0, .call 0, .leave 0, .gcStart 0,
        .gcVisit "prod" 0, .gcCollect, .gcNext, .gcStart 40000, .gcVisit "prod" 40000, .gcCollect,
        .gcNext, .subscribe "prod", .call 1, .call 1, .call 1, .call 1, .call 1, .gcNext, .gcNext,
        .gcNext, .gcNext, .cancel 1]).any (fun s => decide (0 < subsOf s.gens 1) &&
          (decide (s.watched 1 = false) && (decide (s.broadcasts.lookup "prod" = some 1) &&
            decide (∀ c ∈ s.calls, c.spawns ≠ some 1)))) = true by decide +kernel)
  obtain ⟨m, hm, hgc⟩ := (Option.any_eq_true _ _).mp
    (show (run Namespaces.step .new
      [.subscribe "prod", .call 0, .call 0, .call 0, .call 0, .call 0, .leave 0, .gcStart 0,
        .gcVisit "prod" 0, .gcCollect, .gcNext, .gcStart 40000, .gcVisit "prod" 40000, .gcCollect,
        .gcNext, .subscribe "prod", .call 1, .call 1, .call 1, .call 1, .call 1]).any (fun s =>
          decide (s.gc = .removed "prod" 0 []) &&
            decide (s.handles.lookup "prod" = some 1)) = true by decide +kernel)
  simp only [Bool.and_eq_true, decide_eq_true_eq] at hread hgc
  obtain ⟨hlive, hdead, hreg, hsp⟩ := hread
  have hnot : ¬ s.watched 1 = true := by
    rw [hdead]
    exact nofun
  refine ⟨fun hall => ?_, fun hall => ?_, fun hall => ?_⟩
  · rcases hall _ s hs 1 hlive with hw | hdrop
    · exact hnot hw
    · exact hdrop.1 "prod" hreg
  · rcases hall _ s hs 1 hlive with hw | ⟨c, hc, hcg⟩ | ⟨hunreg, -⟩
    · exact hnot hw
    · exact hsp c hc hcg
    · exact hunreg "prod" hreg
  · have := hall _ m hm "prod" 0 [] 1 hgc.1 hgc.2
    omega

end Konfig
