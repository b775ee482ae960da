import Mathlib.Order.Bounds.Basic
import Konfig.Policy.Quota

/-!
# Several budgets of one identity

`publish` combines the `TenantQuota` objects of an identity in the order in which the hash
map of the mirror happens to be visited.  `publish_quotaFor` reads the outcome as the set
of usages that it admits, where no order is left; here it is read back into limits.

* `tightest_of_within`: a limit that admits what all declared limits admit is the least of
  them, where `0` counts as none.
* `publish_merges`: the table of a mirror, and what one more object changes.
-/

namespace Konfig

open Lib

/-! ### The axes -/

/-- The four limits of a budget. -/
inductive Axis
  | maxSubscribers
  | maxAppliesPerSecond
  | maxAppliesBurst
  | cacheMemoryBudgetBytes
  deriving DecidableEq, Repr

def TenantQuota.limit (q : TenantQuota) : Axis → ℕ
  | .maxSubscribers => q.maxSubscribers.toNat
  | .maxAppliesPerSecond => q.maxAppliesPerSecond.toNat
  | .maxAppliesBurst => q.maxAppliesBurst.toNat
  | .cacheMemoryBudgetBytes => q.cacheMemoryBudgetBytes.toNat

/-- A usage on one axis only. -/
def Axis.usage : Axis → ℕ → Usage
  | .maxSubscribers, n => ⟨n, 0, 0, 0⟩
  | .maxAppliesPerSecond, n => ⟨0, n, 0, 0⟩
  | .maxAppliesBurst, n => ⟨0, 0, n, 0⟩
  | .cacheMemoryBudgetBytes, n => ⟨0, 0, 0, n⟩

theorem TenantQuota.admits_usage (q : TenantQuota) (axis : Axis) (n : ℕ) :
    q.Admits (axis.usage n) ↔ Within n (q.limit axis) := by
  cases axis with
  | maxSubscribers => exact ⟨fun h => h.1, fun h => ⟨h, within_zero _, within_zero _, within_zero _⟩⟩
  | maxAppliesPerSecond => exact ⟨fun h => h.2, fun h => ⟨within_zero _, h, within_zero _, within_zero _⟩⟩
  | maxAppliesBurst => exact ⟨fun h => h.3, fun h => ⟨within_zero _, within_zero _, h, within_zero _⟩⟩
  | cacheMemoryBudgetBytes =>
    exact ⟨fun h => h.4, fun h => ⟨within_zero _, within_zero _, within_zero _, h⟩⟩

/-! ### The tightest of some limits -/

/-- The least of the declared limits that are limits at all. -/
structure Tightest (declared : Set ℕ) (limit : ℕ) : Prop where
  zero_iff : limit = 0 ↔ ∀ n ∈ declared, n = 0
  least : limit ≠ 0 → IsLeast {n ∈ declared | n ≠ 0} limit

theorem tightest_of_within {declared : Set ℕ} {limit : ℕ}
    (h : ∀ m, Within m limit ↔ ∀ n ∈ declared, Within m n) : Tightest declared limit := by
  -- what is declared is no limit at all, or at least `limit`
  have hge : limit ≠ 0 → ∀ n ∈ declared, n = 0 ∨ limit ≤ n := fun _ => (h limit).mp (Or.inr le_rfl)
  refine ⟨⟨fun hzero n hn => ?_, fun hall => ?_⟩, fun hlimit => ⟨?_, ?_⟩⟩
  · rcases (h (n + 1)).mp (Or.inl hzero) n hn with h0 | hle
    · exact h0
    · omega
  · rcases (h (limit + 1)).mpr (fun n hn => Or.inl (hall n hn)) with h0 | hle
    · exact h0
    · omega
  · by_contra hnot
    -- then all would admit one more
    have hmore : Within (limit + 1) limit := (h (limit + 1)).mpr fun n hn => by
      rcases hge hlimit n hn with h0 | hle
      · exact Or.inl h0
      · refine Or.inr (lt_of_le_of_ne hle ?_)
        rintro rfl
        exact hnot ⟨hn, hlimit⟩
    rcases hmore with h0 | hle
    · exact hlimit h0
    · omega
  · rintro n ⟨hn, hn0⟩
    exact (hge hlimit n hn).resolve_left hn0

/-- No looser: no limit stays no limit or becomes one, a limit may go down. -/
def NoLooser (before after : ℕ) : Prop := before = 0 ∨ after ≠ 0 ∧ after ≤ before

theorem noLooser_of_within {before after : ℕ} (h : ∀ m, Within m after → Within m before) :
    NoLooser before after := by
  have hafter := h after
  have hmore := h (before + 1)
  unfold Within at hafter hmore
  unfold NoLooser
  omega

/-! ### The table of a mirror -/

/-- The limits that the objects of an identity declare. -/
def declared (objects : Map String QuotaEntry) (identity : String) (axis : Axis) : Set ℕ :=
  {n | ∃ name e, objects.lookup name = some e ∧ e.identity = identity ∧ e.quota.limit axis = n}

/-- The table that is published when the mirror is visited in `order`. -/
def publishedIn (objects : Map String QuotaEntry) (order : List String) : QuotaTable :=
  QuotaTable.publish (objects.visit order)

theorem published_admits {objects : Map String QuotaEntry} {order : List String}
    (horder : order.Perm objects.keys) {identity : String} {q : TenantQuota}
    (hq : (publishedIn objects order).quotaFor identity = some q) (u : Usage) :
    q.Admits u ↔ ∀ name e, objects.lookup name = some e → e.identity = identity → e.quota.Admits u := by
  have hadm := (QuotaTable.publish_quotaFor (objects.visit order) identity).2 u
  rw [show (QuotaTable.publish (objects.visit order)).quotaFor identity = some q from hq] at hadm
  have hsome : admitsOpt (some q) u ↔ q.Admits u := by simp [admitsOpt]
  rw [← hsome, hadm]
  constructor
  · intro h name e he hid
    exact h e ((Map.mem_visit horder).mpr ⟨name, he⟩) hid
  · intro h e he hid
    obtain ⟨name, hlook⟩ := (Map.mem_visit horder).mp he
    exact h name e hlook hid

theorem isSome_published {objects : Map String QuotaEntry} {order : List String}
    (horder : order.Perm objects.keys) (identity : String) :
    ((publishedIn objects order).quotaFor identity).isSome ↔
      ∃ name e, objects.lookup name = some e ∧ e.identity = identity := by
  rw [publishedIn, (QuotaTable.publish_quotaFor _ identity).1]
  constructor
  · rintro ⟨e, he, hid⟩
    obtain ⟨name, hlook⟩ := (Map.mem_visit horder).mp he
    exact ⟨name, e, hlook, hid⟩
  · rintro ⟨name, e, hlook, hid⟩
    exact ⟨e, (Map.mem_visit horder).mpr ⟨name, hlook⟩, hid⟩

theorem published_limit {objects : Map String QuotaEntry} {order : List String}
    (horder : order.Perm objects.keys) {identity : String} {q : TenantQuota}
    (hq : (publishedIn objects order).quotaFor identity = some q) (axis : Axis) :
    Tightest (declared objects identity axis) (q.limit axis) := by
  refine tightest_of_within fun m => ?_
  rw [← TenantQuota.admits_usage, published_admits horder hq]
  constructor
  · rintro h n ⟨name, e, hlook, hid, rfl⟩
    exact (e.quota.admits_usage axis m).mp (h name e hlook hid)
  · intro h name e hlook hid
    exact (e.quota.admits_usage axis m).mpr (h _ ⟨name, e, hlook, hid, rfl⟩)

/-- Mirrors with the same entries of an identity give it the same budget. -/
theorem published_congr {objects objects' : Map String QuotaEntry} {order order' : List String}
    (horder : order.Perm objects.keys) (horder' : order'.Perm objects'.keys) {identity : String}
    (h : ∀ e : QuotaEntry, e.identity = identity →
      ((∃ name, objects.lookup name = some e) ↔ ∃ name, objects'.lookup name = some e)) :
    (publishedIn objects order).quotaFor identity = (publishedIn objects' order').quotaFor identity := by
  refine quotaView.congr identity _ _ fun e hid => ?_
  rw [Map.mem_visit horder, Map.mem_visit horder']
  exact h e hid

/-- The entries after one more object. -/
theorem exists_lookup_insert {objects : Map String QuotaEntry} {name : String} (e : QuotaEntry)
    (hnew : objects.lookup name = none) (e' : QuotaEntry) :
    (∃ k, (objects.insert name e).lookup k = some e') ↔
      e = e' ∨ ∃ k, objects.lookup k = some e' := by
  constructor
  · rintro ⟨k, hk⟩
    by_cases heq : k = name
    · rw [heq, AList.lookup_insert, Option.some.injEq] at hk
      exact Or.inl hk
    · rw [AList.lookup_insert_ne heq] at hk
      exact Or.inr ⟨k, hk⟩
  · rintro (rfl | ⟨k, hk⟩)
    · exact ⟨name, AList.lookup_insert _⟩
    · have heq : k ≠ name := by
        rintro rfl
        rw [hnew] at hk
        cases hk
      exact ⟨k, by rw [AList.lookup_insert_ne heq, hk]⟩

/-- How the objects of a mirror are merged, whatever the order. -/
structure Merges (objects : Map String QuotaEntry) : Prop where
  same : ∀ order order' : List String, order.Perm objects.keys → order'.Perm objects.keys →
    ∀ identity, (publishedIn objects order).quotaFor identity =
      (publishedIn objects order').quotaFor identity
  named : ∀ order : List String, order.Perm objects.keys → ∀ identity,
    ((publishedIn objects order).quotaFor identity).isSome ↔
      ∃ name e, objects.lookup name = some e ∧ e.identity = identity
  limits : ∀ order : List String, order.Perm objects.keys → ∀ identity,
    ∀ q ∈ (publishedIn objects order).quotaFor identity, ∀ axis,
      Tightest (declared objects identity axis) (q.limit axis)
  added : ∀ name e, objects.lookup name = none → ∀ order order' : List String,
    order.Perm objects.keys → order'.Perm (objects.insert name e).keys →
    ∀ q ∈ (publishedIn objects order).quotaFor e.identity,
    ∃ q' ∈ (publishedIn (objects.insert name e) order').quotaFor e.identity,
      ∀ axis, NoLooser (q.limit axis) (q'.limit axis)
  frame : ∀ name e, objects.lookup name = none → ∀ order order' : List String,
    order.Perm objects.keys → order'.Perm (objects.insert name e).keys →
    ∀ identity ≠ e.identity, (publishedIn (objects.insert name e) order').quotaFor identity =
      (publishedIn objects order).quotaFor identity

/-- **In every mirror.** -/
theorem publish_merges (objects : Map String QuotaEntry) : Merges objects where
  same order order' h h' identity := published_congr h h' fun _ _ => Iff.rfl
  named order h identity := isSome_published h identity
  limits order h identity q hq axis := published_limit h hq axis
  added name e hnew order order' h h' q hq := by
    have hsome : ((publishedIn (objects.insert name e) order').quotaFor e.identity).isSome :=
      (isSome_published h' e.identity).mpr ⟨name, e, AList.lookup_insert _, rfl⟩
    obtain ⟨q', hq'⟩ := Option.isSome_iff_exists.mp hsome
    refine ⟨q', hq', fun axis => noLooser_of_within fun m hm => ?_⟩
    rw [← TenantQuota.admits_usage, published_admits h' hq'] at hm
    rw [← TenantQuota.admits_usage, published_admits h hq]
    intro k e' hk hid
    obtain ⟨k', hk'⟩ := (exists_lookup_insert e hnew e').mpr (Or.inr ⟨k, hk⟩)
    exact hm k' e' hk' hid
  frame name e hnew order order' h h' identity hne := by
    refine published_congr h' h fun e' hid => ?_
    rw [exists_lookup_insert e hnew]
    refine or_iff_right ?_
    rintro rfl
    exact hne hid.symm

end Konfig
