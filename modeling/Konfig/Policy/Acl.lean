import Konfig.Kube
import Konfig.Lib.WatchMirror

/-!
# Authorization

`acl.rs` and `grpc/authz.rs`: rules and their patterns, the table from client
identities to rules, the watcher that publishes it from the `ConfigACL` objects,
and the guard that every RPC passes.

The watcher is a `Lib.Kind`: its mirror is keyed by `metadata.name`, an object
parses to an `AclEntry`, and `publish` concatenates the rules of each identity.

* `publish_grants`: the table grants what some rule of some entry grants.
* `aclView`: the grants of an identity depend only on which of its entries the
  table was built from.
* `check_enforce_ok`: what passes the guard in enforce mode.
* `check_of_wildcard`: what passes for the name `*` passes for every name.
-/

namespace Konfig

open Lib

/-! ### Verbs, modes and patterns -/

/-- The operation an RPC performs. -/
inductive Verb
  | read
  | write
  deriving DecidableEq, Repr

/-- `Verb::as_str`. -/
def Verb.asStr : Verb → String
  | .read => "read"
  | .write => "write"

/-- `Verb::parse`. -/
def Verb.parse (s : String) : Option Verb :=
  match toAsciiLowercase (trim s) with
  | "read" => some .read
  | "write" => some .write
  | _ => none

/-- The enforcement mode of the guard. -/
inductive Mode
  | disabled
  | permissive
  | enforce
  deriving DecidableEq, Repr

/-- `Mode::parse`. -/
def Mode.parse (s : String) : Mode :=
  match toAsciiLowercase (trim s) with
  | "permissive" => .permissive
  | "enforce" => .enforce
  | _ => .disabled

/-- `segment_matches`: `*` stands for a whole segment. -/
def segmentMatches (pat value : String) : Bool := pat == "*" || pat == value

/-- `pattern_matches`. -/
def patternMatches (pattern ns name : String) : Bool :=
  match splitOnce pattern '/' with
  | none => false
  | some (patNs, patName) => segmentMatches patNs ns && segmentMatches patName name

/-! ### Rules -/

/-- A set of verbs granted over a set of patterns. -/
structure Rule where
  verbs : List Verb
  patterns : List String
  deriving DecidableEq, Repr

/-- `Rule::grants`. -/
def Rule.grants (r : Rule) (verb : Verb) (ns name : String) : Bool :=
  if verb ∉ r.verbs then false else r.patterns.any fun p => patternMatches p ns name

/-- The wire shape of a rule. -/
structure RuleSpec where
  verbs : List String
  patterns : List String

/-- `serde_json::from_value::<RuleSpec>`. -/
def RuleSpec.fromValue (v : Value) : Option RuleSpec := do
  guard (v.isStruct 2)
  let verbs ← v.fieldOr 0 "verbs" [] (Value.decodeList Value.decodeString)
  let patterns ← v.fieldOr 1 "patterns" [] (Value.decodeList Value.decodeString)
  return { verbs, patterns }

/-- `RuleSpec::lower`: unknown verbs and patterns without a slash are dropped,
and so is a rule left without either. -/
def RuleSpec.lower (spec : RuleSpec) : Option Rule :=
  let verbs := spec.verbs.filterMap Verb.parse
  let patterns := spec.patterns.filter fun p => '/' ∈ p.toList
  if verbs.isEmpty || patterns.isEmpty then none else some { verbs, patterns }

/-- The wire shape of a `ConfigACL` spec. -/
structure AclSpec where
  identity : String
  rules : List RuleSpec

/-- `serde_json::from_value::<AclSpec>`. -/
def AclSpec.fromValue (v : Value) : Option AclSpec := do
  guard (v.isStruct 2)
  let identity ← (v.field 0 "identity").bind Value.decodeString
  let rules ← v.fieldOr 1 "rules" [] (Value.decodeList RuleSpec.fromValue)
  return { identity, rules }

/-- One parsed `ConfigACL` object. -/
structure AclEntry where
  identity : String
  rules : List Rule
  deriving DecidableEq, Repr

/-- `parse_acl_object`. -/
def parseAclObject (obj : DynamicObject) : Option AclEntry := do
  let specValue ← obj.data.get "spec"
  let spec ← AclSpec.fromValue specValue
  let identity := trim spec.identity
  if identity = "" then none
  else some { identity, rules := spec.rules.filterMap RuleSpec.lower }

/-! ### The table -/

/-- Identity to rules. -/
abbrev AclTable := Map String (List Rule)

/-- `AclTable::grants`. -/
def AclTable.grants (table : AclTable) (identity : String) (verb : Verb) (ns name : String) : Bool :=
  match table.lookup identity with
  | some rules => rules.any fun r => r.grants verb ns name
  | none => false

/-- `next.entry(identity).or_default().extend(rules)`. -/
def AclTable.extend (next : AclTable) (e : AclEntry) : AclTable :=
  next.insert e.identity ((next.lookup e.identity).getD [] ++ e.rules)

/-- `publish`: the table built from the mirror's entries in the order visited. -/
def AclTable.publish (entries : List AclEntry) : AclTable := entries.foldl AclTable.extend ∅

/-- One entry grants a request to an identity. -/
def AclEntry.grants (e : AclEntry) (identity : String) (verb : Verb) (ns name : String) : Bool :=
  e.identity = identity && e.rules.any fun r => r.grants verb ns name

theorem AclTable.grants_extend (t : AclTable) (e : AclEntry) (i : String) (v : Verb) (ns n : String) :
    (t.extend e).grants i v ns n = (t.grants i v ns n || e.grants i v ns n) := by
  unfold AclTable.grants AclTable.extend AclEntry.grants
  by_cases h : e.identity = i
  · subst h
    rw [AList.lookup_insert]
    cases t.lookup e.identity <;> simp
  · rw [AList.lookup_insert_ne (Ne.symm h)]
    simp [h]

theorem AclTable.grants_foldl : ∀ (es : List AclEntry) (t : AclTable) (i : String) (v : Verb)
    (ns n : String), (es.foldl AclTable.extend t).grants i v ns n =
      (t.grants i v ns n || es.any fun e => e.grants i v ns n) := by
  intro es
  induction es with
  | nil => intro t i v ns n; simp
  | cons e es ih =>
    intro t i v ns n
    rw [List.foldl_cons, ih, AclTable.grants_extend, List.any_cons, Bool.or_assoc]

/-- **The table grants what some entry grants.** -/
theorem AclTable.publish_grants (es : List AclEntry) (i : String) (v : Verb) (ns n : String) :
    (AclTable.publish es).grants i v ns n = es.any fun e => e.grants i v ns n := by
  rw [AclTable.publish, AclTable.grants_foldl]
  rfl

/-! ### The watcher -/

/-- How `acl.rs` mirrors and publishes `ConfigACL` objects. -/
def aclKind : Kind DynamicObject String AclEntry AclTable where
  key obj := obj.metadata.name.getD ""
  parse := parseAclObject
  publish := AclTable.publish

/-- `handle_acl_event`. -/
def handleAclEvent : WatchEvent DynamicObject → Map String AclEntry → Bool →
    Map String AclEntry × Bool × Bool := aclKind.handle

/-- The state of the ACL watcher: mirror, `AclTable`, `AclSynced`. -/
abbrev AclWatch := Watch String AclEntry AclTable

/-- The watcher before its first connection. -/
def AclWatch.new : AclWatch := { objects := ∅, table := ∅, synced := false }

/-- The grants of an identity. -/
def aclView : aclKind.View String (Verb → String → String → Bool) where
  ident e := e.identity
  ask t i := t.grants i
  congr i es es' h := by
    funext v ns n
    change (AclTable.publish es).grants i v ns n = (AclTable.publish es').grants i v ns n
    rw [AclTable.publish_grants, AclTable.publish_grants, Bool.eq_iff_iff, List.any_eq_true,
      List.any_eq_true]
    have hmem : ∀ e, e.grants i v ns n = true → (e ∈ es ↔ e ∈ es') := by
      intro e he
      unfold AclEntry.grants at he
      exact h e (of_decide_eq_true (Bool.and_eq_true_iff.mp he).1)
    constructor
    · rintro ⟨e, he, hg⟩
      exact ⟨e, (hmem e hg).mp he, hg⟩
    · rintro ⟨e, he, hg⟩
      exact ⟨e, (hmem e hg).mpr he, hg⟩

/-! ### The guard -/

/-- The caller of an RPC. -/
structure ClientIdentity where
  id : String
  anonymous : Bool
  deriving DecidableEq, Repr

/-- `authz::check`. -/
def check (mode : Mode) (table : AclTable) (synced : Bool) (identity : ClientIdentity) (verb : Verb)
    (ns name : String) : Except Status Unit :=
  if mode = .disabled then .ok ()
  else if mode = .enforce ∧ synced = false then
    .error ⟨.unavailable, "authorization cache not yet synced — retry shortly"⟩
  else
    let granted := !identity.anonymous && table.grants identity.id verb ns name
    if granted then .ok ()
    else
      let denial := "identity '" ++ identity.id ++ "' not authorized for " ++ verb.asStr ++ " " ++ ns ++
        "/" ++ name
      match mode with
      | .permissive => .ok ()
      | .enforce => .error ⟨.permissionDenied, denial⟩
      | .disabled => .ok ()

/-- In enforce mode exactly the granted requests of a named caller pass, and
none before the table is synced. -/
theorem check_enforce_ok {table : AclTable} {synced : Bool} {identity : ClientIdentity} {verb : Verb}
    {ns name : String} : check .enforce table synced identity verb ns name = .ok () ↔
      synced = true ∧ identity.anonymous = false ∧ table.grants identity.id verb ns name = true := by
  unfold check
  cases synced <;> cases ha : identity.anonymous <;>
    cases hg : table.grants identity.id verb ns name <;> simp

/-- The guard fails with `UNAVAILABLE` only before the table is synced. -/
theorem check_error {mode : Mode} {table : AclTable} {synced : Bool} {identity : ClientIdentity}
    {verb : Verb} {ns name : String} {status : Status}
    (h : check mode table synced identity verb ns name = .error status) :
    if mode = .enforce ∧ synced = false then status.code = .unavailable
    else status.code = .permissionDenied := by
  unfold check at h
  split at h
  · cases h
  · split at h
    · rename_i hsync
      rw [if_pos hsync]
      cases h
      rfl
    · rename_i hsync
      rw [if_neg hsync]
      simp only at h
      split at h
      · cases h
      · cases mode <;> cases h
        rfl

/-! ### The whole namespace -/

/-- Only the wildcard matches the name `*`, and it matches every name. -/
theorem segmentMatches_of_wildcard {pat : String} (h : segmentMatches pat "*" = true) (value : String) :
    segmentMatches pat value = true := by
  unfold segmentMatches at h ⊢
  simp only [Bool.or_self, beq_iff_eq] at h
  rw [h]
  rfl

theorem patternMatches_of_wildcard {pattern ns : String} (h : patternMatches pattern ns "*" = true)
    (name : String) : patternMatches pattern ns name = true := by
  unfold patternMatches at h ⊢
  split at h
  · cases h
  · rw [Bool.and_eq_true] at h ⊢
    exact ⟨h.1, segmentMatches_of_wildcard h.2 name⟩

theorem Rule.grants_of_wildcard {r : Rule} {verb : Verb} {ns : String} (h : r.grants verb ns "*" = true)
    (name : String) : r.grants verb ns name = true := by
  unfold Rule.grants at h ⊢
  split at h
  · cases h
  · rename_i hverb
    rw [if_neg hverb]
    obtain ⟨p, hp, hmatch⟩ := List.any_eq_true.mp h
    exact List.any_eq_true.mpr ⟨p, hp, patternMatches_of_wildcard hmatch name⟩

theorem AclTable.grants_of_wildcard {table : AclTable} {identity : String} {verb : Verb} {ns : String}
    (h : table.grants identity verb ns "*" = true) (name : String) :
    table.grants identity verb ns name = true := by
  unfold AclTable.grants at h ⊢
  split at h
  · obtain ⟨r, hr, hgrant⟩ := List.any_eq_true.mp h
    exact List.any_eq_true.mpr ⟨r, hr, Rule.grants_of_wildcard hgrant name⟩
  · cases h

/-- **A caller who passes for `*` passes for every name of the namespace.** -/
theorem check_of_wildcard {table : AclTable} {synced : Bool} {identity : ClientIdentity} {verb : Verb}
    {ns : String} (h : check .enforce table synced identity verb ns "*" = .ok ()) (name : String) :
    check .enforce table synced identity verb ns name = .ok () := by
  rw [check_enforce_ok] at h ⊢
  exact ⟨h.1, h.2.1, AclTable.grants_of_wildcard h.2.2 name⟩

end Konfig
