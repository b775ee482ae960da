import Konfig.Policy.Acl
import Konfig.Policy.Quota

/-!
# Policy tables and the cluster

The ACL and budget watchers publish while a relist is still coming in, start
every connection with an empty mirror, never clear it at `Init`, and do not
publish at `InitDone`.  This file says what the published tables then mean.

* `policy_of_relist`: right after a completed relist the tables answer as the
  listed objects alone do, if the relist covers the mirror.  Without that the
  empty relist of a new connection revokes nothing (`relist_keeps_revoked`).
* `policy_kept`: the answers for an identity stay what its objects say as long
  as every object event finds all of them delivered on the current connection.
  The first listed object of a reconnect need not (`reconnect_drops_grants`).
-/

namespace Konfig

open Lib

/-! ### After a relist -/

/-- **After a completed relist that covers the mirror, the tables answer as the
listed objects alone do**, whatever the connections before it delivered. -/
theorem policy_of_relist (before : List (WatchLabel DynamicObject String))
    (objs : List (DynamicObject × List String)) :
    (∀ w w' : AclWatch, run aclKind.step AclWatch.new before = some w →
      run aclKind.step w (Kind.relist objs) = some w' → aclView.Covers w (objs.map Prod.fst) →
      ∀ identity verb ns name, w'.table.grants identity verb ns name =
        (aclKind.ofObjects (objs.map Prod.fst)).grants identity verb ns name) ∧
    (∀ w w' : QuotaWatch, run quotaKind.step QuotaWatch.new before = some w →
      run quotaKind.step w (Kind.relist objs) = some w' → quotaView.Covers w (objs.map Prod.fst) →
      ∀ identity, w'.table.quotaFor identity =
        (quotaKind.ofObjects (objs.map Prod.fst)).quotaFor identity) := by
  refine ⟨?_, ?_⟩
  · intro w w' _ hrun hcov identity verb ns name
    have h := aclView.ask_relist hrun hcov identity
    exact congrFun (congrFun (congrFun h verb) ns) name
  · intro w w' _ hrun hcov identity
    exact quotaView.ask_relist hrun hcov identity

/-- A `ConfigACL` object with one rule. -/
def aclObject (name identity verb pattern : String) : DynamicObject where
  metadata := { name := some name }
  data := .object [("spec", .object [("identity", .string identity),
    ("rules", .array [.object [("verbs", .array [.string verb]),
      ("patterns", .array [.string pattern])]])])]

/-- A `TenantQuota` object with a subscriber limit. -/
def quotaObject (name identity : String) (maxSubscribers : UInt32) : DynamicObject where
  metadata := { name := some name }
  data := .object [("spec", .object [("identity", .string identity),
    ("maxSubscribers", .ofU32 maxSubscribers)])]

/-- One listed object, then a new connection. -/
def listThenReconnect (obj : DynamicObject) : List (WatchLabel DynamicObject String) :=
  .connect :: Kind.relist [(obj, [obj.metadata.name.getD ""])] ++ [.connect]

/-- A reconnect whose relist has another object in place of the first. -/
theorem policy_of_relist_reconnect :
    (∃ w w' : AclWatch, run aclKind.step AclWatch.new
        (listThenReconnect (aclObject "a" "alice" "read" "default/*")) = some w ∧
      run aclKind.step w (Kind.relist [(aclObject "b" "bob" "read" "prod/*", ["b"])]) = some w' ∧
      w'.table.grants "alice" .read "default" "web" = false) ∧
    (∃ w w' : QuotaWatch, run quotaKind.step QuotaWatch.new
        (listThenReconnect (quotaObject "a" "alice" 3)) = some w ∧
      run quotaKind.step w (Kind.relist [(quotaObject "b" "bob" 5, ["b"])]) = some w' ∧
      w'.table.quotaFor "alice" = none) := by
  refine ⟨?_, ?_⟩
  · obtain ⟨w', hrun⟩ := Option.isSome_iff_exists.mp (show (run aclKind.step AclWatch.new
      (listThenReconnect (aclObject "a" "alice" "read" "default/*") ++
        Kind.relist [(aclObject "b" "bob" "read" "prod/*", ["b"])])).isSome = true by decide)
    obtain ⟨w, hw, hw'⟩ := run_append_some hrun
    have hkeys : (run aclKind.step AclWatch.new (listThenReconnect
      (aclObject "a" "alice" "read" "default/*"))).map (·.objects.keys) = some [] := by decide
    rw [hw, Option.map_some, Option.some.injEq] at hkeys
    refine ⟨w, w', hw, hw', ?_⟩
    rw [(policy_of_relist _ _).1 w w' hw hw' ⟨by simp [hkeys], by simp⟩]
    decide
  · obtain ⟨w', hrun⟩ := Option.isSome_iff_exists.mp (show (run quotaKind.step QuotaWatch.new
      (listThenReconnect (quotaObject "a" "alice" 3) ++
        Kind.relist [(quotaObject "b" "bob" 5, ["b"])])).isSome = true by decide)
    obtain ⟨w, hw, hw'⟩ := run_append_some hrun
    have hkeys : (run quotaKind.step QuotaWatch.new (listThenReconnect
      (quotaObject "a" "alice" 3))).map (·.objects.keys) = some [] := by decide
    rw [hw, Option.map_some, Option.some.injEq] at hkeys
    refine ⟨w, w', hw, hw', ?_⟩
    rw [(policy_of_relist _ _).2 w w' hw hw' ⟨by simp [hkeys], by simp⟩]
    decide

/-- **The empty relist of a new connection revokes nothing**: `alice`'s only
object was deleted while the watch was disconnected. -/
theorem relist_keeps_revoked :
    ¬ ∀ (before : List (WatchLabel DynamicObject String)) (objs : List (DynamicObject × List String))
        (w w' : AclWatch), run aclKind.step AclWatch.new before = some w →
      run aclKind.step w (Kind.relist objs) = some w' →
      ∀ identity verb ns name, w'.table.grants identity verb ns name =
        (aclKind.ofObjects (objs.map Prod.fst)).grants identity verb ns name := by
  intro h
  obtain ⟨w', hrun, hgrant⟩ := Option.map_eq_some_iff.mp (show (run aclKind.step AclWatch.new
      (listThenReconnect (aclObject "a" "alice" "read" "default/*") ++ Kind.relist [])).map
    (fun w => w.table.grants "alice" .read "default" "web") = some true by decide)
  obtain ⟨w, hw, hw'⟩ := run_append_some hrun
  have hbad := h _ [] w w' hw hw' "alice" .read "default" "web"
  rw [hgrant] at hbad
  revert hbad
  decide

/-! ### While a relist comes in -/

section Settled

variable {Obj E T I A : Type} {κ : Kind Obj String E T} (V : κ.View I A)

/-- A connection whose relist has completed with some object, followed by any labels: the
objects of the identity `i` are `own`, they are listed, and nothing changes them. -/
structure SyncedRun (i : I) (own : List Obj) (new : Watch String E T)
    (before : List (WatchLabel Obj String)) (objs : List (Obj × List String))
    (labels : List (WatchLabel Obj String)) (w₀ w : Watch String E T) : Prop where
  synced : run κ.step new (before ++ .connect :: Kind.relist objs) = some w₀
  continued : run κ.step w₀ labels = some w
  distinct : ∀ o₁ ∈ own, ∀ o₂ ∈ own, κ.key o₁ = κ.key o₂ → o₁ = o₂
  nonempty : objs ≠ []
  listed : ∀ o ∈ own, o ∈ objs.map Prod.fst
  unchanged : ∀ l ∈ Kind.relist objs ++ labels, V.Unchanged i own l

variable {V} {i : I} {own : List Obj} {new w₀ w : Watch String E T}
  {before labels : List (WatchLabel Obj String)} {objs : List (Obj × List String)}

theorem SyncedRun.relist (h : SyncedRun V i own new before objs labels w₀ w) :
    ∃ w₁ : Watch String E T, w₁.objects = ∅ ∧ run κ.step w₁ (Kind.relist objs) = some w₀ := by
  obtain ⟨w₁, _, hrun⟩ := run_append_some h.synced
  exact ⟨{ w₁ with objects := ∅ }, rfl, hrun⟩

theorem SyncedRun.isSynced (h : SyncedRun V i own new before objs labels w₀ w) :
    w.synced = true := by
  obtain ⟨w₁, _, hrun⟩ := h.relist
  exact κ.synced_run h.continued (κ.run_relist hrun).2.1

theorem SyncedRun.answers (h : SyncedRun V i own new before objs labels w₀ w)
    (hdel : Along κ.step (fun _ w l => κ.Delivered own w.objects l) w₀ labels) :
    V.ask w.table i = V.expected i own := by
  obtain ⟨w₁, hfresh, hrun⟩ := h.relist
  have h₀ : V.Settled i own w₀ := V.settled_relist h.distinct hfresh h.nonempty h.listed
    (fun l hl => h.unchanged l (List.mem_append_left _ hl)) hrun
  exact (V.settled_run h.distinct h₀ (fun l hl => h.unchanged l (List.mem_append_right _ hl))
    h.continued hdel).answers

end Settled

/-- **An identity keeps its grants and its budget** in every state that can
follow a completed relist, over any reconnects and relists, as long as every
object event finds all objects of the identity delivered on the current
connection, counting the event itself. -/
theorem policy_kept (identity : String) (own : List DynamicObject)
    (before : List (WatchLabel DynamicObject String)) (objs : List (DynamicObject × List String))
    (labels : List (WatchLabel DynamicObject String)) :
    (∀ w₀ w : AclWatch,
      SyncedRun aclView identity own AclWatch.new before objs labels w₀ w →
      Along aclKind.step (fun _ w l => aclKind.Delivered own w.objects l) w₀ labels →
      (∀ verb ns name, w.table.grants identity verb ns name =
        (AclTable.publish (own.filterMap parseAclObject)).grants identity verb ns name) ∧
      ∀ verb ns name, check .enforce w.table w.synced ⟨identity, false⟩ verb ns name = .ok () ↔
        (AclTable.publish (own.filterMap parseAclObject)).grants identity verb ns name = true) ∧
    (∀ w₀ w : QuotaWatch,
      SyncedRun quotaView identity own QuotaWatch.new before objs labels w₀ w →
      Along quotaKind.step (fun _ w l => quotaKind.Delivered own w.objects l) w₀ labels →
      w.table.quotaFor identity =
        (QuotaTable.publish (own.filterMap parseQuotaObject)).quotaFor identity) := by
  refine ⟨?_, ?_⟩
  · intro w₀ w hrun hdel
    have hask := hrun.answers hdel
    have hgrants : ∀ verb ns name, w.table.grants identity verb ns name =
        (AclTable.publish (own.filterMap parseAclObject)).grants identity verb ns name :=
      fun verb ns name => congrFun (congrFun (congrFun hask verb) ns) name
    refine ⟨hgrants, fun verb ns name => ?_⟩
    rw [check_enforce_ok, ← hgrants]
    simp [hrun.isSynced]
  · intro w₀ w hrun hdel
    exact hrun.answers hdel

/-- A reconnect that has listed only the object named `name` so far. -/
def reconnectListing {Obj : Type} (obj : Obj) (name : String) : List (WatchLabel Obj String) :=
  [.connect, .event .init [], .event (.initApply obj) [name]]

section Pair

variable {Obj E T I A : Type} {κ : Kind Obj String E T} (V : κ.View I A)

/-- Two listed objects of different identities, then a reconnect that lists one
of the two first. -/
theorem syncedRun_pair (a b : Obj) (i j : I) {c : Obj} {new w : Watch String E T} {n : String}
    {objs : List (Obj × List String)} (hobjs : ∀ p ∈ objs, p.1 = a ∨ p.1 = b)
    (ha : a ∈ objs.map Prod.fst) (hkey : κ.key b ≠ κ.key a)
    (hident : (κ.parse b).map V.ident = some j) (hij : j ≠ i) (hc : c = a ∨ c = b)
    (hrun : run κ.step new
      (([] ++ .connect :: Kind.relist objs) ++ reconnectListing c n) = some w) :
    ∃ w₀, SyncedRun V i [a] new [] objs (reconnectListing c n) w₀ w := by
  obtain ⟨w₀, hw₀, hw⟩ := run_append_some hrun
  have happly : ∀ o order, o = a ∨ o = b → V.Unchanged i [a] (.event (.initApply o) order) := by
    rintro o order (rfl | rfl)
    · exact ⟨by simp, by simp⟩
    · refine ⟨by simp [hkey], fun _ e he => ?_⟩
      rw [he, Option.map_some, Option.some.injEq] at hident
      rwa [hident]
  refine ⟨w₀, hw₀, hw, by simp, fun he => by simp [he] at ha, by simpa using ha, ?_⟩
  intro l hl
  simp only [Kind.relist, reconnectListing, List.cons_append, List.mem_cons, List.mem_append,
    List.mem_map, List.not_mem_nil, or_false] at hl
  rcases hl with rfl | (⟨p, hp, rfl⟩ | rfl) | rfl | rfl | rfl
  · trivial
  · exact happly p.1 p.2 (hobjs p hp)
  · trivial
  · trivial
  · trivial
  · exact happly c [n] hc

/-- If the reconnect lists the identity's only object first, every object event
finds it delivered. -/
theorem delivered_reconnectListing {a : Obj} {w₀ : Watch String E T} {n : String} :
    Along κ.step (fun _ w l => κ.Delivered [a] w.objects l) w₀ (reconnectListing a n) := by
  intro pre l post s he _
  have hl : l ∈ reconnectListing a n := by rw [he]; simp
  simp only [reconnectListing, List.mem_cons, List.not_mem_nil, or_false] at hl
  rcases hl with rfl | rfl | rfl
  · trivial
  · trivial
  · simp [Kind.Delivered]

end Pair

/-- The object listed first after the reconnect is `alice`'s only one: her grants
and her budget are kept. -/
theorem policy_kept_reconnect :
    (∃ w : AclWatch, run aclKind.step AclWatch.new (([] ++ .connect ::
        Kind.relist [(aclObject "a" "alice" "read" "default/*", ["a"]),
          (aclObject "b" "bob" "read" "prod/*", ["b", "a"])]) ++
        reconnectListing (aclObject "a" "alice" "read" "default/*") "a") = some w ∧
      w.table.grants "alice" .read "default" "web" = true) ∧
    (∃ w : QuotaWatch, run quotaKind.step QuotaWatch.new (([] ++ .connect ::
        Kind.relist [(quotaObject "a" "alice" 3, ["a"]), (quotaObject "b" "bob" 5, ["b", "a"])]) ++
        reconnectListing (quotaObject "a" "alice" 3) "a") = some w ∧
      (w.table.quotaFor "alice").map (·.maxSubscribers) = some 3) := by
  refine ⟨?_, ?_⟩
  · obtain ⟨w, hrun⟩ := Option.isSome_iff_exists.mp (show (run aclKind.step AclWatch.new (([] ++
      .connect :: Kind.relist [(aclObject "a" "alice" "read" "default/*", ["a"]),
        (aclObject "b" "bob" "read" "prod/*", ["b", "a"])]) ++
      reconnectListing (aclObject "a" "alice" "read" "default/*") "a")).isSome = true by decide)
    obtain ⟨w₀, hr⟩ := syncedRun_pair aclView (aclObject "a" "alice" "read" "default/*")
      (aclObject "b" "bob" "read" "prod/*") "alice" "bob" (by simp) (by simp) (by decide)
      (by decide) (by decide) (Or.inl rfl) hrun
    refine ⟨w, hrun, ?_⟩
    rw [((policy_kept _ _ _ _ _).1 w₀ w hr delivered_reconnectListing).1]
    decide
  · obtain ⟨w, hrun⟩ := Option.isSome_iff_exists.mp (show (run quotaKind.step QuotaWatch.new (([] ++
      .connect :: Kind.relist [(quotaObject "a" "alice" 3, ["a"]),
        (quotaObject "b" "bob" 5, ["b", "a"])]) ++
      reconnectListing (quotaObject "a" "alice" 3) "a")).isSome = true by decide)
    obtain ⟨w₀, hr⟩ := syncedRun_pair quotaView (quotaObject "a" "alice" 3)
      (quotaObject "b" "bob" 5) "alice" "bob" (by simp) (by simp) (by decide) (by decide)
      (by decide) (Or.inl rfl) hrun
    refine ⟨w, hrun, ?_⟩
    rw [(policy_kept _ _ _ _ _).2 w₀ w hr delivered_reconnectListing]
    decide

/-- **The first object listed after a reconnect takes every other grant out of
the table**: `bob`'s object is in the cluster throughout, and `alice`'s is
listed first. -/
theorem reconnect_drops_grants :
    ¬ ∀ identity own before objs labels (w₀ w : AclWatch),
      SyncedRun aclView identity own AclWatch.new before objs labels w₀ w →
      ∀ verb ns name, w.table.grants identity verb ns name =
        (AclTable.publish (own.filterMap parseAclObject)).grants identity verb ns name := by
  intro h
  obtain ⟨w, hrun, hgrant⟩ := Option.map_eq_some_iff.mp (show (run aclKind.step AclWatch.new (([] ++
      .connect :: Kind.relist [(aclObject "a" "alice" "read" "default/*", ["a"]),
        (aclObject "b" "bob" "read" "prod/*", ["b", "a"])]) ++
      reconnectListing (aclObject "a" "alice" "read" "default/*") "a")).map
    (fun w => w.table.grants "bob" .read "prod" "db") = some false by decide)
  obtain ⟨w₀, hr⟩ := syncedRun_pair aclView (aclObject "b" "bob" "read" "prod/*")
    (aclObject "a" "alice" "read" "default/*") "bob" "alice" (by simp) (by simp) (by decide)
    (by decide) (by decide) (Or.inr rfl) hrun
  have hbad := h _ _ _ _ _ w₀ w hr .read "prod" "db"
  rw [hgrant] at hbad
  revert hbad
  decide

end Konfig
