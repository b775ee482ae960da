import Konfig.Lib.WatchConnection
import Konfig.Policy.Sync

/-!
# Authorization noninterference

What one identity may do is decided by the `ConfigACL` objects that carry it.

* `PatternCovers`, `RuleSpec.Lists`, `GrantsTo`: which requests an object grants
  to an identity, read off its raw spec.
* `grantsTo_iff`: parsing and lowering keep exactly these grants.
* `acl_noninterference`: two connections that agree on the objects of an identity
  answer alike for it, and the answer is given by its live objects.
-/

namespace Konfig

open Lib

/-! ### What an object grants -/

/-- A pattern `<ns>/<name>` covers a target: each segment is the target's or `*`. -/
def PatternCovers (pattern ns name : String) : Prop :=
  ∃ patNs patName, pattern.toList = patNs.toList ++ '/' :: patName.toList ∧ '/' ∉ patNs.toList ∧
    (patNs = ns ∨ patNs = "*") ∧ (patName = name ∨ patName = "*")

theorem segmentMatches_iff {pat value : String} :
    segmentMatches pat value = true ↔ pat = value ∨ pat = "*" := by
  unfold segmentMatches
  rw [Bool.or_eq_true, beq_iff_eq, beq_iff_eq, or_comm]

theorem patternMatches_iff {pattern ns name : String} :
    patternMatches pattern ns name = true ↔ PatternCovers pattern ns name := by
  unfold patternMatches PatternCovers
  constructor
  · intro h
    split at h
    · cases h
    · rename_i patNs patName hsplit
      obtain ⟨htext, hfirst⟩ := splitOnce_eq_some.mp hsplit
      rw [Bool.and_eq_true, segmentMatches_iff, segmentMatches_iff] at h
      exact ⟨patNs, patName, htext, hfirst, h.1, h.2⟩
  · rintro ⟨patNs, patName, htext, hfirst, hns, hname⟩
    rw [splitOnce_eq_some.mpr ⟨htext, hfirst⟩]
    change (segmentMatches patNs ns && segmentMatches patName name) = true
    rw [Bool.and_eq_true, segmentMatches_iff, segmentMatches_iff]
    exact ⟨hns, hname⟩

/-- A pattern that covers something has a slash. -/
theorem PatternCovers.slash {pattern ns name : String} (h : PatternCovers pattern ns name) :
    '/' ∈ pattern.toList := by
  obtain ⟨patNs, patName, htext, _⟩ := h
  rw [htext]
  simp

/-- A rule as it is written lists the verb and a pattern that covers the target. -/
def RuleSpec.Lists (spec : RuleSpec) (verb : Verb) (ns name : String) : Prop :=
  (∃ text ∈ spec.verbs, Verb.parse text = some verb) ∧
    ∃ pattern ∈ spec.patterns, PatternCovers pattern ns name

theorem Rule.grants_iff {r : Rule} {verb : Verb} {ns name : String} :
    r.grants verb ns name = true ↔
      verb ∈ r.verbs ∧ ∃ pattern ∈ r.patterns, PatternCovers pattern ns name := by
  unfold Rule.grants
  by_cases hverb : verb ∈ r.verbs
  · rw [if_neg (not_not_intro hverb), List.any_eq_true]
    simp only [patternMatches_iff, hverb, true_and]
  · rw [if_pos hverb]
    simp [hverb]

/-- **Lowering keeps what a rule grants.**  What it drops grants nothing. -/
theorem RuleSpec.lower_grants {spec : RuleSpec} {verb : Verb} {ns name : String} :
    (∃ r, spec.lower = some r ∧ r.grants verb ns name = true) ↔ spec.Lists verb ns name := by
  have hverbs : verb ∈ spec.verbs.filterMap Verb.parse ↔
      ∃ text ∈ spec.verbs, Verb.parse text = some verb := List.mem_filterMap
  have hpatterns : (∃ pattern ∈ spec.patterns.filter fun p => '/' ∈ p.toList,
      PatternCovers pattern ns name) ↔ ∃ pattern ∈ spec.patterns, PatternCovers pattern ns name := by
    constructor
    · rintro ⟨pattern, hmem, hcov⟩
      exact ⟨pattern, (List.mem_filter.mp hmem).1, hcov⟩
    · rintro ⟨pattern, hmem, hcov⟩
      exact ⟨pattern, List.mem_filter.mpr ⟨hmem, by simpa using hcov.slash⟩, hcov⟩
  unfold RuleSpec.lower RuleSpec.Lists
  rw [← hverbs, ← hpatterns]
  constructor
  · rintro ⟨r, hr, hgrants⟩
    simp only at hr
    split at hr
    · cases hr
    · cases hr
      exact Rule.grants_iff.mp hgrants
  · rintro ⟨hverb, hcov⟩
    have hsome : ((spec.verbs.filterMap Verb.parse).isEmpty ||
        (spec.patterns.filter fun p => '/' ∈ p.toList).isEmpty) = false := by
      obtain ⟨pattern, hmem, _⟩ := hcov
      rw [Bool.or_eq_false_iff, List.isEmpty_eq_false_iff, List.isEmpty_eq_false_iff]
      exact ⟨List.ne_nil_of_mem hverb, List.ne_nil_of_mem hmem⟩
    refine ⟨⟨spec.verbs.filterMap Verb.parse, spec.patterns.filter fun p => '/' ∈ p.toList⟩, ?_, ?_⟩
    · simp only [hsome, Bool.false_eq_true, if_false]
    · exact Rule.grants_iff.mpr ⟨hverb, hcov⟩

/-- The spec of an object grants a request to an identity: it deserializes, its
trimmed identity is this one and not blank, and a rule lists the request. -/
def GrantsTo (obj : DynamicObject) (i : String) (verb : Verb) (ns name : String) : Prop :=
  ∃ value spec, obj.data.get "spec" = some value ∧ AclSpec.fromValue value = some spec ∧
    trim spec.identity = i ∧ i ≠ "" ∧ ∃ rule ∈ spec.rules, rule.Lists verb ns name

/-- **Parsing keeps what an object grants.** -/
theorem grantsTo_iff {obj : DynamicObject} {i : String} {verb : Verb} {ns name : String} :
    (∃ e, parseAclObject obj = some e ∧ e.grants i verb ns name = true) ↔
      GrantsTo obj i verb ns name := by
  have hrules : ∀ rules : List RuleSpec,
      (∃ r ∈ rules.filterMap RuleSpec.lower, r.grants verb ns name = true) ↔
        ∃ rule ∈ rules, rule.Lists verb ns name := by
    intro rules
    simp only [← RuleSpec.lower_grants, List.mem_filterMap]
    constructor
    · rintro ⟨r, ⟨rule, hmem, hlower⟩, hgrants⟩
      exact ⟨rule, hmem, r, hlower, hgrants⟩
    · rintro ⟨rule, hmem, r, hlower, hgrants⟩
      exact ⟨r, ⟨rule, hmem, hlower⟩, hgrants⟩
  unfold parseAclObject GrantsTo
  simp only [Option.bind_eq_bind, Option.bind_eq_some_iff]
  constructor
  · rintro ⟨e, ⟨value, hvalue, spec, hspec, he⟩, hgrants⟩
    split at he
    · cases he
    · rename_i hblank
      cases he
      obtain ⟨hi, hany⟩ := Bool.and_eq_true_iff.mp hgrants
      have hi : trim spec.identity = i := of_decide_eq_true hi
      refine ⟨value, spec, hvalue, hspec, hi, ?_, (hrules _).mp (List.any_eq_true.mp hany)⟩
      rwa [← hi]
  · rintro ⟨value, spec, hvalue, hspec, rfl, hblank, hlists⟩
    refine ⟨_, ⟨value, hvalue, spec, hspec, if_neg hblank⟩, ?_⟩
    exact Bool.and_eq_true_iff.mpr
      ⟨decide_eq_true rfl, List.any_eq_true.mpr ((hrules _).mpr hlists)⟩

/-! ### What the table grants -/

theorem AclWatch.published_new : aclKind.Published AclWatch.new := ⟨[], List.Perm.refl _, rfl⟩

/-- **The table grants what a live object grants.** -/
theorem grants_iff_live {events : List (WatchEvent DynamicObject × List String)} {w : AclWatch}
    (hrun : run aclKind.step AclWatch.new (Kind.connection events) = some w) {i : String} {verb : Verb}
    {ns name : String} : w.table.grants i verb ns name = true ↔
      ∃ obj, aclKind.Live (events.map Prod.fst) obj ∧ GrantsTo obj i verb ns name := by
  obtain ⟨order, hperm, htable⟩ := aclKind.published_run AclWatch.published_new events hrun
  have hpublish : w.table = AclTable.publish (w.objects.visit order) := htable
  rw [hpublish, AclTable.publish_grants, List.any_eq_true]
  simp only [Map.mem_visit hperm, aclKind.lookup_iff_live rfl events hrun, ← grantsTo_iff]
  constructor
  · rintro ⟨e, ⟨_, obj, hlive, _, hparse⟩, hgrants⟩
    exact ⟨obj, hlive, e, hparse, hgrants⟩
  · rintro ⟨obj, hlive, e, hparse, hgrants⟩
    exact ⟨e, ⟨aclKind.key obj, obj, hlive, rfl, hparse⟩, hgrants⟩

/-- The guard sees the table only through the grants of the caller. -/
theorem check_congr {mode : Mode} {table table' : AclTable} {synced : Bool} {identity : ClientIdentity}
    {verb : Verb} {ns name : String}
    (h : table.grants identity.id verb ns name = table'.grants identity.id verb ns name) :
    check mode table synced identity verb ns name = check mode table' synced identity verb ns name := by
  unfold check
  rw [h]

/-! ### Noninterference -/

/-- **Authorization noninterference.**  Two connections whose mirrors agree on
the objects of an identity give it the same answers, whatever other objects they
hold and in whatever orders their mirrors were visited.  In enforce mode a synced
guard admits it exactly for what one of its live objects grants; an anonymous
caller is never admitted, and nobody is before the first relist completes. -/
theorem acl_noninterference :
    (∀ (i : String) (events events' : List (WatchEvent DynamicObject × List String)) (w w' : AclWatch),
      run aclKind.step AclWatch.new (Kind.connection events) = some w →
      run aclKind.step AclWatch.new (Kind.connection events') = some w' →
      (∀ key e, e.identity = i → (w.objects.lookup key = some e ↔ w'.objects.lookup key = some e)) →
      ∀ mode synced verb ns name, check mode w.table synced ⟨i, false⟩ verb ns name =
        check mode w'.table synced ⟨i, false⟩ verb ns name) ∧
    ∀ (events : List (WatchEvent DynamicObject × List String)) (w : AclWatch),
      run aclKind.step AclWatch.new (Kind.connection events) = some w →
      (∀ i verb ns name, check .enforce w.table true ⟨i, false⟩ verb ns name = .ok () ↔
        ∃ obj, aclKind.Live (events.map Prod.fst) obj ∧ GrantsTo obj i verb ns name) ∧
      (∀ synced id verb ns name, check .enforce w.table synced ⟨id, true⟩ verb ns name ≠ .ok ()) ∧
      (.initDone ∉ events.map Prod.fst →
        ∀ caller verb ns name, check .enforce w.table w.synced caller verb ns name ≠ .ok ()) := by
  refine ⟨?_, ?_⟩
  · intro i events events' w w' hrun hrun' hagree mode synced verb ns name
    have hask := aclView.ask_congr_published (aclKind.published_run AclWatch.published_new events hrun)
      (aclKind.published_run AclWatch.published_new events' hrun') hagree
    exact check_congr (congrFun (congrFun (congrFun hask verb) ns) name)
  · intro events w hrun
    refine ⟨?_, ?_, ?_⟩
    · intro i verb ns name
      rw [check_enforce_ok, ← grants_iff_live hrun]
      simp
    · intro synced id verb ns name hok
      rw [check_enforce_ok] at hok
      exact Bool.noConfusion hok.2.1
    · intro hinit caller verb ns name hok
      rw [check_enforce_ok, aclKind.synced_iff_initDone rfl events hrun] at hok
      exact hinit hok.1

/-- The events of a relist. -/
def relistEvents (objs : List (DynamicObject × List String)) :
    List (WatchEvent DynamicObject × List String) :=
  (.init, []) :: (objs.map fun p => (.initApply p.1, p.2)) ++ [(.initDone, [])]

/-- Alice's object alone. -/
def aliceListed : List (DynamicObject × List String) :=
  [(aclObject "a" " alice " "READ" "default/*", ["a"])]

/-- Alice's object and one of Bob's. -/
def bothListed : List (DynamicObject × List String) :=
  aliceListed ++ [(aclObject "b" "bob" "write" "*/*", ["a", "b"])]

/-- A connection that also lists an object of `bob` leaves what `alice` may do as it is. -/
theorem acl_noninterference_bob : ∃ w w' : AclWatch,
    run aclKind.step AclWatch.new (Kind.connection (relistEvents bothListed)) = some w ∧
    run aclKind.step AclWatch.new (Kind.connection (relistEvents aliceListed)) = some w' ∧
    (∀ mode synced verb ns name, check mode w.table synced ⟨"alice", false⟩ verb ns name =
      check mode w'.table synced ⟨"alice", false⟩ verb ns name) ∧
    check .enforce w.table true ⟨"alice", false⟩ .read "default" "web" = .ok () ∧
    ∀ caller verb ns name,
      check .enforce AclWatch.new.table AclWatch.new.synced caller verb ns name ≠ .ok () := by
  obtain ⟨w, hw⟩ := Option.isSome_iff_exists.mp (show (run aclKind.step AclWatch.new
    (Kind.connection (relistEvents bothListed))).isSome = true by decide)
  obtain ⟨w', hw'⟩ := Option.isSome_iff_exists.mp (show (run aclKind.step AclWatch.new
    (Kind.connection (relistEvents aliceListed))).isSome = true by decide)
  let entry : AclEntry := ⟨"alice", [⟨[.read], ["default/*"]⟩]⟩
  let other : AclEntry := ⟨"bob", [⟨[.write], ["*/*"]⟩]⟩
  have hobjects : w.objects = AList.insert "b" other (AList.insert "a" entry ∅) := by
    have hmap := congrArg (Option.map Watch.objects) hw
    exact Option.some.inj (hmap.symm.trans rfl)
  have hobjects' : w'.objects = AList.insert "a" entry ∅ := by
    have hmap := congrArg (Option.map Watch.objects) hw'
    exact Option.some.inj (hmap.symm.trans rfl)
  refine ⟨w, w', hw, hw', acl_noninterference.1 "alice" _ _ w w' hw hw' ?_, ?_,
    (acl_noninterference.2 [] AclWatch.new rfl).2.2 (by simp)⟩
  · intro key e he
    rw [hobjects, hobjects']
    by_cases hkey : key = "b"
    · rw [hkey, AList.lookup_insert, AList.lookup_insert_ne (by decide), AList.lookup_empty]
      refine ⟨fun hother => ?_, fun hnone => ?_⟩
      · cases hother
        exact absurd he (by decide)
      · cases hnone
    · rw [AList.lookup_insert_ne hkey]
  · have hlive := ((acl_noninterference.2 _ w hw).1 "alice" .read "default" "web").mpr
    refine hlive ⟨aclObject "a" " alice " "READ" "default/*", ?_, ?_⟩
    · exact ⟨[.init], _, _, rfl, rfl, by simp [Kind.about, aclKind, aclObject]⟩
    · exact grantsTo_iff.mp ⟨entry, rfl, by decide⟩

end Konfig
