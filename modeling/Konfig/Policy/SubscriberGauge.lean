import Konfig.Policy.Subscribers

/-!
# The subscriber gauge

`konfig_tenant_subscribers` is written after the entry lock is dropped, from the
value an admission captured under it or a release read again later.  So two
operations of one identity can publish in the opposite order of their map
updates, and then the gauge keeps the older count (`gauge_stale`).

* `Tenants.InOrder`: the last outstanding gauge write of an identity belongs to
  the operation that updated its entry last.
* `Tenants.Published`: the gauge is right or about to be written.
* `gauge_reflects_count`: runs in order leave the right gauge behind.
-/

namespace Konfig

open Lib

/-- The gauge shows the count of `i`, and has no series at zero. -/
def Tenants.Shows (s : Tenants) (i : String) : Prop :=
  s.gauge.lookup i = if s.counts.current i = 0 then none else some (s.counts.current i)

instance (s : Tenants) (i : String) : Decidable (s.Shows i) :=
  inferInstanceAs (Decidable (_ = _))

/-- The admissions and releases of `i` that are past their map update and not
yet past their gauge write. -/
def Tenants.pending (s : Tenants) (i : String) : Nat := tally SlotStage.inProgress i s.slots

/-- The stage is about to write the gauge. -/
def SlotStage.writesGauge : SlotStage → Bool
  | .admitted _ | .clearing | .republishing _ => true
  | _ => false

/-- When the gauge write of an operation is the only one outstanding for `i`, no
other operation of `i` has updated the map after it; and an admission of `i` has
room for its increment. -/
def Tenants.InOrder (i : String) (s : Tenants) : TenantLabel → Prop
  | .admission j _ _ => j = i → s.alive i + 1 < 2 ^ 32
  | .advance k => ∀ x ∈ s.slots[k]?, x.identity = i → x.stage.writesGauge → s.pending i = 1 →
      x.overtaken = false
  | _ => True

instance decidableInOrder (i : String) (s : Tenants) : ∀ a, Decidable (Tenants.InOrder i s a)
  | .admission j _ _ => inferInstanceAs (Decidable (j = i → s.alive i + 1 < 2 ^ 32))
  | .advance k => inferInstanceAs (Decidable (∀ x ∈ s.slots[k]?, x.identity = i →
      x.stage.writesGauge → s.pending i = 1 → x.overtaken = false))
  | .respond _ | .fail _ | .drop _ => isTrue trivial

theorem Tenants.InOrder.room {i : String} {s : Tenants} {a : TenantLabel} (h : Tenants.InOrder i s a) :
    Tenants.Room i s a := by
  cases a with
  | admission j mode limit => exact h
  | _ => trivial

/-- What an operation that was not overtaken knows about the count. -/
def SlotStage.Knows (n : UInt32) : SlotStage → Prop
  | .admitted m | .republishing m => m = n ∧ n ≠ 0
  | .reaping | .clearing => n = 0
  | .rereading => n ≠ 0
  | .handling | .streaming | .released => True

/-- **The gauge is right or about to be written**, and an operation that was not
overtaken knows the count. -/
structure Tenants.Published (s : Tenants) (i : String) : Prop where
  balanced : (s.account i).Balanced
  shows : 0 < s.pending i ∨ s.Shows i
  knows : ∀ x ∈ s.slots, x.identity = i → x.overtaken = false → x.stage.Knows (s.counts.current i)

/-! ### What keeps the gauge right -/

section Published

variable {s t : Tenants} {i j : String} {k : Nat} {st : SlotStage} {o : Bool}

theorem pending_set (h : s.slots[k]? = some ⟨j, st, o⟩) {st' : SlotStage}
    (ht : t.slots = s.slots.set k ⟨j, st', o⟩) :
    t.pending i + (if j = i ∧ st.inProgress then 1 else 0) =
      s.pending i + if j = i ∧ st'.inProgress then 1 else 0 := by
  rw [Tenants.pending, ht]
  exact tally_set h

/-- A step that moves one slot on and leaves the count alone. -/
theorem Tenants.Published.set (hs : s.Published i) (hb : (t.account i).Balanced)
    (h : s.slots[k]? = some ⟨j, st, o⟩) {st' : SlotStage} (ht : t.slots = s.slots.set k ⟨j, st', o⟩)
    (hc : t.counts.current i = s.counts.current i)
    (hknows : j = i → o = false → st.Knows (s.counts.current i) → st'.Knows (s.counts.current i))
    (hshows : 0 < t.pending i ∨ t.Shows i) : t.Published i := by
  refine ⟨hb, hshows, fun x hx hi ho => ?_⟩
  rw [hc]
  rw [ht] at hx
  rcases List.mem_or_eq_of_mem_set hx with hx | rfl
  · exact hs.knows x hx hi ho
  · exact hknows hi ho (hs.knows _ (List.mem_of_getElem? h) hi ho)

/-- A step that moves one slot from a stage in progress to another. -/
theorem Tenants.Published.set_pending (hs : s.Published i) (hb : (t.account i).Balanced)
    (h : s.slots[k]? = some ⟨j, st, o⟩) {st' : SlotStage} (ht : t.slots = s.slots.set k ⟨j, st', o⟩)
    (hc : t.counts.current i = s.counts.current i) (hg : t.gauge = s.gauge)
    (hp : st'.inProgress = st.inProgress)
    (hknows : j = i → o = false → st.Knows (s.counts.current i) → st'.Knows (s.counts.current i)) :
    t.Published i := by
  refine hs.set hb h ht hc hknows ?_
  have hset := pending_set (i := i) h ht
  rw [hp] at hset
  rw [Nat.add_right_cancel hset, Tenants.Shows, hg, hc]
  exact hs.shows

/-- A gauge write: another operation is outstanding, or the writer was not
overtaken and what it writes is the count. -/
theorem Tenants.Published.write (hs : s.Published i) (hb : (t.account i).Balanced)
    (h : s.slots[k]? = some ⟨j, st, o⟩) (hin : st.inProgress = true) (st' : SlotStage)
    (hst' : st'.inProgress = false) (hk' : ∀ n, st'.Knows n) (ht : t.slots = s.slots.set k ⟨j, st', o⟩)
    (hc : t.counts = s.counts) (hother : j ≠ i → t.gauge.lookup i = s.gauge.lookup i)
    (hwrite : j = i → st.Knows (s.counts.current i) → t.Shows i)
    (horder : j = i → s.pending i = 1 → o = false) : t.Published i := by
  refine hs.set hb h ht (by rw [hc]) (fun _ _ _ => hk' _) ?_
  have hset := pending_set (i := i) h ht
  simp only [hin, hst', and_true, Bool.false_eq_true, and_false, if_false, Nat.add_zero] at hset
  by_cases hj : j = i
  · rw [if_pos hj] at hset
    by_cases h1 : s.pending i = 1
    · right
      exact hwrite hj (hs.knows _ (List.mem_of_getElem? h) hj (horder hj h1))
    · left
      omega
  · rw [if_neg hj, Nat.add_zero] at hset
    rw [hset, Tenants.Shows, hother hj, hc]
    exact hs.shows

theorem mem_overtake {slots : List Slot} {x : Slot} (h : x ∈ overtake j slots) :
    (x.identity = j ∧ x.overtaken = true) ∨ (x.identity ≠ j ∧ x ∈ slots) := by
  obtain ⟨y, hy, rfl⟩ := List.mem_map.mp h
  by_cases hj : y.identity = j
  · left
    simp [hj]
  · right
    simp [hj, hy]

/-- A map update of another identity. -/
theorem Tenants.Published.of_ne (hs : s.Published i) (hb : (t.account i).Balanced)
    (hlook : t.counts.lookup i = s.counts.lookup i) (hg : t.gauge = s.gauge)
    (hp : t.pending i = s.pending i) (hmem : ∀ x ∈ t.slots, x.identity = i → x ∈ s.slots) :
    t.Published i := by
  have hc : t.counts.current i = s.counts.current i := by
    rw [SubscriberCounts.current, SubscriberCounts.current, hlook]
  refine ⟨hb, ?_, fun x hx hi ho => ?_⟩
  · rw [hp, Tenants.Shows, hg, hc]
    exact hs.shows
  · rw [hc]
    exact hs.knows x (hmem x hx hi) hi ho

/-- A map update of the identity itself: the operation that made it is
outstanding and all others are overtaken. -/
theorem Tenants.Published.of_update (hb : (t.account i).Balanced) {x₀ : Slot} (hx₀ : x₀ ∈ t.slots)
    (hi₀ : x₀.identity = i) (hp₀ : x₀.stage.inProgress = true)
    (hk₀ : x₀.stage.Knows (t.counts.current i))
    (hmem : ∀ x ∈ t.slots, x = x₀ ∨ x ∈ overtake i s.slots) : t.Published i := by
  refine ⟨hb, Or.inl (tally_pos.mpr ⟨x₀, hx₀, hi₀, hp₀⟩), fun x hx hi ho => ?_⟩
  rcases hmem x hx with rfl | hx
  · exact hk₀
  · rcases mem_overtake hx with ⟨_, h⟩ | ⟨h, _⟩
    · rw [h] at ho
      cases ho
    · exact absurd hi h

/-- The decrement of a release. -/
theorem Tenants.Published.beginRelease (hs : s.Published i)
    (hb : ((s.beginRelease k j).account i).Balanced) (h : s.slots[k]? = some ⟨j, st, o⟩)
    (hl : st.isAlive) : (s.beginRelease k j).Published i := by
  have hk : k < (overtake j s.slots).length := by
    rw [overtake, List.length_map]
    exact (List.getElem?_eq_some_iff.mp h).1
  by_cases hj : j = i
  · subst hj
    obtain ⟨e, he, hpos⟩ : ∃ e, s.counts.lookup j = some e ∧ 0 < e.toNat := by
      have hpos : 0 < (s.account j).alive := tally_pos.mpr ⟨_, List.mem_of_getElem? h, rfl, hl⟩
      have hcount : ((s.counts.lookup j).getD 0).toNat = (s.account j).alive := hs.balanced.count
      cases he : s.counts.lookup j with
      | none =>
        rw [he, Option.getD_none, UInt32.toNat_zero] at hcount
        omega
      | some e =>
        rw [he, Option.getD_some] at hcount
        exact ⟨e, rfl, by omega⟩
    have hupd : ∀ (c : SubscriberCounts) (st' : SlotStage), s.beginRelease k j = s.giveUp k j c st' →
        st'.inProgress = true → st'.Knows (c.current j) → (s.beginRelease k j).Published j := by
      intro c st' heq hin hkn
      rw [heq] at hb ⊢
      exact Tenants.Published.of_update (s := s) hb (List.mem_set hk _) rfl hin hkn
        fun x hx => (List.mem_or_eq_of_mem_set hx).symm
    rcases s.counts.decrement_cases j with ⟨hn, _⟩ | ⟨e', he', _, hd⟩ | ⟨e', he', hlt, hd⟩
    · rw [hn] at he
      cases he
    · refine hupd (s.counts.insert j 0) .reaping (by simp [Tenants.beginRelease, Tenants.giveUp, hd]) rfl ?_
      exact SubscriberCounts.current_of_lookup (AList.lookup_insert _)
    · refine hupd (s.counts.insert j (UInt32.ofNat (e'.toNat - 1))) .rereading
        (by simp [Tenants.beginRelease, Tenants.giveUp, hd]) rfl ?_
      show SubscriberCounts.current _ j ≠ 0
      rw [SubscriberCounts.current_of_lookup (AList.lookup_insert _)]
      intro h0
      have h0' := congrArg UInt32.toNat h0
      rw [UInt32.toNat_ofNat', UInt32.toNat_zero] at h0'
      have := e'.toNat_lt
      omega
  · refine hs.of_ne hb (SubscriberCounts.lookup_decrement_of_ne (Ne.symm hj)) rfl ?_ ?_
    · have hrel := tally_release (p := SlotStage.inProgress) (j := i) h
        (if (s.counts.decrement j).1 then .reaping else .rereading)
      simp only [hj, false_and, if_false, Nat.add_zero] at hrel
      exact hrel
    · intro x hx hi
      rcases List.mem_or_eq_of_mem_set hx with hx | rfl
      · rcases mem_overtake hx with ⟨h', _⟩ | ⟨_, h'⟩
        · exact absurd (h'.symm.trans hi) hj
        · exact h'
      · exact absurd hi hj

/-- A granted admission. -/
theorem Tenants.Published.admitted (hs : s.Published i) {counts : SubscriberCounts}
    (hj : counts.lookup j = some (s.counts.current j + 1))
    (hne : ∀ j', j' ≠ j → counts.lookup j' = s.counts.lookup j') (hroom : j = i → s.alive i + 1 < 2 ^ 32)
    (hb : (({ s with
      counts
      slots := overtake j s.slots ++ [⟨j, .admitted (s.counts.current j + 1), false⟩] } :
        Tenants).account i).Balanced) :
    ({ s with
      counts
      slots := overtake j s.slots ++ [⟨j, .admitted (s.counts.current j + 1), false⟩] } :
        Tenants).Published i := by
  by_cases hi : j = i
  · subst hi
    refine Tenants.Published.of_update (s := s) hb (List.mem_append_right _ (List.mem_singleton.mpr rfl)) rfl rfl
      ?_ ?_
    · have hcur : counts.current j = s.counts.current j + 1 := SubscriberCounts.current_of_lookup hj
      refine ⟨hcur.symm, fun h0 => ?_⟩
      have hcount : (counts.current j).toNat = _ := hb.count
      have hcount' : (s.counts.current j).toNat = s.alive j := hs.balanced.count
      have hroom' := hroom rfl
      change counts.current j = 0 at h0
      rw [hcur] at h0
      have h0' := congrArg UInt32.toNat h0
      rw [UInt32.toNat_add, UInt32.toNat_one, UInt32.toNat_zero] at h0'
      omega
    · intro x hx
      rcases List.mem_append.mp hx with hx | hx
      · exact Or.inr hx
      · exact Or.inl (List.mem_singleton.mp hx)
  · refine hs.of_ne hb (hne i (Ne.symm hi)) rfl ?_ ?_
    · simp [Tenants.pending, tally_snoc, tally_overtake, hi]
    · intro x hx hxi
      rcases List.mem_append.mp hx with hx | hx
      · rcases mem_overtake hx with ⟨h', _⟩ | ⟨_, h'⟩
        · exact absurd (h'.symm.trans hxi) hi
        · exact h'
      · rw [List.mem_singleton.mp hx] at hxi
        exact absurd hxi hi

theorem Tenants.Published.step {a : TenantLabel} (hs : s.Published i) (h : s.step a = some t)
    (ho : Tenants.InOrder i s a) : t.Published i := by
  have hb := Tenants.balanced_step hs.balanced h ho.room
  cases Tenants.move_of_step h with
  | denied j mode limit hd => exact hs
  | admitted j mode limit counts hj hne hl => exact hs.admitted hj hne ho hb
  | respond k j o hk => exact hs.set_pending hb hk rfl rfl rfl rfl fun _ _ _ => trivial
  | fail k j o hk => exact hs.beginRelease hb hk rfl
  | drop k j o hk => exact hs.beginRelease hb hk rfl
  | publish k j n o hk =>
    refine hs.write hb hk rfl .handling rfl (fun _ => trivial) rfl rfl (fun hj => ?_) (fun hj hkn => ?_)
      fun hj h1 => ho _ hk hj rfl h1
    · exact AList.lookup_insert_ne (Ne.symm hj)
    · subst hj
      rw [Tenants.Shows, if_neg hkn.2, ← hkn.1]
      exact AList.lookup_insert _
  | reap k j o hk =>
    exact hs.set_pending hb hk rfl SubscriberCounts.current_removeIfZero rfl rfl fun _ _ hkn => hkn
  | clear k j o hk =>
    refine hs.write hb hk rfl .released rfl (fun _ => trivial) rfl rfl (fun hj => ?_) (fun hj hkn => ?_)
      fun hj h1 => ho _ hk hj rfl h1
    · exact AList.lookup_erase_ne (Ne.symm hj)
    · subst hj
      have h0 : s.counts.current j = 0 := hkn
      rw [Tenants.Shows, if_pos h0]
      exact AList.lookup_erase _ _
  | reread k j o hk =>
    refine hs.set_pending hb hk rfl rfl rfl rfl fun hj _ hkn => ?_
    subst hj
    exact ⟨rfl, hkn⟩
  | republish k j n o hk =>
    refine hs.write hb hk rfl .released rfl (fun _ => trivial) rfl rfl (fun hj => ?_) (fun hj hkn => ?_)
      fun hj h1 => ho _ hk hj rfl h1
    · exact AList.lookup_insert_ne (Ne.symm hj)
    · subst hj
      rw [Tenants.Shows, if_neg hkn.2, ← hkn.1]
      exact AList.lookup_insert _

end Published

/-- **The gauge reflects the live count** of an identity without an operation in
progress, in every run in which its gauge writes come in the order of its map
updates. -/
theorem gauge_reflects_count {as : List TenantLabel} {s : Tenants} {i : String}
    (h : run Tenants.step .new as = some s)
    (horder : Along Tenants.step (fun _ => Tenants.InOrder i) .new as) (hquiet : s.pending i = 0) :
    s.Shows i := by
  have hpub : s.Published i := by
    refine run_induction_along (fun _ => Tenants.InOrder i) (fun _ s => s.Published i) ?_ ?_ as s h horder
    · exact ⟨Tenants.balanced_new i, Or.inr rfl, fun x hx => absurd hx (List.not_mem_nil)⟩
    · intro _ s a t _ hs ho hstep
      exact hs.step hstep ho
  rcases hpub.shows with hp | hsh
  · omega
  · exact hsh

theorem gauge_reflects_churn :
    ∃ s, run Tenants.step .new (churn ++ [.advance 0, .advance 2, .advance 0]) = some s ∧
      s.pending "t" = 0 ∧ s.Shows "t" := by
  obtain ⟨s, hs, hread⟩ := (Option.any_eq_true _ _).mp
    (show (run Tenants.step .new (churn ++ [.advance 0, .advance 2, .advance 0])).any
      (fun s => decide (s.pending "t" = 0)) = true by decide +kernel)
  have hquiet := of_decide_eq_true hread
  exact ⟨s, hs, hquiet, gauge_reflects_count hs (by decide +kernel) hquiet⟩

/-- Two admissions publish in the opposite order of their increments: two
streams live, the gauge stays at one. -/
theorem gauge_stale :
    ¬ ∀ (as : List TenantLabel) (s : Tenants) (i : String), run Tenants.step .new as = some s →
      s.pending i = 0 → s.Shows i := by
  intro hall
  obtain ⟨s, hs, hread⟩ := (Option.any_eq_true _ _).mp
    (show (run Tenants.step .new [.admission "t" .enforce 2, .admission "t" .enforce 2, .advance 1,
        .advance 0]).any (fun s => decide (s.pending "t" = 0 ∧ ¬ s.Shows "t")) = true by
      decide +kernel)
  obtain ⟨hquiet, hstale⟩ := of_decide_eq_true hread
  exact hstale (hall _ s "t" hs hquiet)

end Konfig
