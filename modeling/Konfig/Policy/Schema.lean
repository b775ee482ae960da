import Konfig.Kube
import Konfig.Lib.WatchMirror

/-!
# The schema registry

`schema.rs`: JSON Schemas registered for `(namespace, configName)` by
`ConfigSchema` objects, the table `Apply` validates against, and its watcher.
Compiling and running a schema is the `jsonschema` crate's work; `JsonSchema` is
its interface.

The watch covers all namespaces, but the mirror is keyed by `metadata.name`
alone.  `Registry` runs the watcher beside the objects that are live in the
cluster, which are identified by namespace and name.

* `Registry.enforces_run`: the table enforces every live schema on its own pair as
  long as no event finds a live object of the same name in another namespace,
  every other live object was delivered on the current connection, and a relist
  lists again what is mirrored.
* `Registry.namesake_unregisters`: otherwise one tenant's object takes another's schema
  out of the table.
-/

namespace Konfig

open Lib

/-- The `jsonschema` crate: compile a draft-07 schema, list what a document
violates. -/
class JsonSchema where
  Validator : Type
  draft7New : Value → Except String Validator
  iterErrors : Validator → Value → List String

section Schemas

variable [JsonSchema]

structure CompiledSchema where
  validator : JsonSchema.Validator

def CompiledSchema.compile (schema : Value) : Except String CompiledSchema :=
  match JsonSchema.draft7New schema with
  | .ok validator => .ok { validator }
  | .error e => .error e

def CompiledSchema.validate (s : CompiledSchema) (content : Value) : Except (List String) Unit :=
  let errors := JsonSchema.iterErrors s.validator content
  if errors.isEmpty then .ok () else .error errors

/-- The wire shape of a `ConfigSchema` spec. -/
structure SchemaSpec where
  configName : String
  schema : Value

def SchemaSpec.fromValue (v : Value) : Option SchemaSpec := do
  guard (v.isStruct 2)
  let configName ← (v.field 0 "configName").bind Value.decodeString
  let schema ← v.field 1 "schema"
  return { configName, schema }

/-- One parsed `ConfigSchema`: the pair it governs and its schema. -/
structure SchemaEntry where
  key : String × String
  schema : CompiledSchema

/-- `parse_schema_object`.  The namespace is only tested after trimming, the
config name is stored trimmed. -/
def parseSchemaObject (obj : DynamicObject) : Option SchemaEntry := do
  let ns := obj.metadata.ns.getD ""
  guard (trim ns ≠ "")
  let specValue ← obj.data.get "spec"
  let spec ← SchemaSpec.fromValue specValue
  let configName := trim spec.configName
  guard (configName ≠ "")
  let compiled ← (CompiledSchema.compile spec.schema).toOption
  return { key := (ns, configName), schema := compiled }

/-! ### The table -/

abbrev SchemaTable := Map (String × String) CompiledSchema

/-- `SchemaTable::validate`: what no schema governs is accepted. -/
def SchemaTable.validate (table : SchemaTable) (ns configName : String) (content : Value) :
    Except (List String) Unit :=
  match table.lookup (ns, configName) with
  | some schema => schema.validate content
  | none => .ok ()

/-- `publish`: of two entries for one pair the last one visited wins. -/
def SchemaTable.publish (entries : List SchemaEntry) : SchemaTable :=
  entries.foldl (fun next e => next.insert e.key e.schema) ∅

theorem SchemaTable.lookup_publish : ∀ (es : List SchemaEntry) {e : SchemaEntry}, e ∈ es →
    (∀ e' ∈ es, e'.key = e.key → e' = e) →
    (SchemaTable.publish es).lookup e.key = some e.schema := by
  intro es
  induction es using List.reverseRecOn with
  | nil => intro e he; simp at he
  | append_singleton es x ih =>
    intro e he huniq
    rw [SchemaTable.publish, List.foldl_append, List.foldl_cons, List.foldl_nil]
    by_cases hx : x.key = e.key
    · rw [huniq x (by simp) hx, AList.lookup_insert]
    · rw [AList.lookup_insert_ne (Ne.symm hx)]
      have hmem : e ∈ es := by
        rcases List.mem_append.mp he with h | h
        · exact h
        · exact absurd (by rw [List.mem_singleton.mp h]) hx
      exact ih hmem fun e' he' => huniq e' (List.mem_append_left _ he')

/-- How `schema.rs` mirrors and publishes `ConfigSchema` objects. -/
def schemaKind : Kind DynamicObject String SchemaEntry SchemaTable where
  key obj := obj.metadata.name.getD ""
  parse := parseSchemaObject
  publish := SchemaTable.publish

def handleSchemaEvent : WatchEvent DynamicObject → Map String SchemaEntry → Bool →
    Map String SchemaEntry × Bool × Bool := schemaKind.handle

abbrev SchemaWatch := Watch String SchemaEntry SchemaTable

/-! ### The watcher beside the cluster's objects -/

/-- The identity of a namespaced object. -/
def objectKey (obj : DynamicObject) : Key := ⟨obj.metadata.ns.getD "", obj.metadata.name.getD ""⟩

/-- The watcher, the live objects its events tell of, and the keys it was told
of since the last `Init`. -/
structure Registry where
  watch : SchemaWatch
  live : Key → Option DynamicObject
  seen : List Key

def Registry.new : Registry :=
  { watch := { objects := ∅, table := ∅, synced := false }, live := fun _ => none, seen := [] }

/-- The live objects and the keys seen after a label: what a relist does not
list is gone at its end. -/
def Registry.track (s : Registry) : WatchLabel DynamicObject String →
    (Key → Option DynamicObject) × List Key
  | .connect => (s.live, [])
  | .event (.apply o) _ | .event (.initApply o) _ =>
    (Function.update s.live (objectKey o) (some o), objectKey o :: s.seen)
  | .event (.delete o) _ => (Function.update s.live (objectKey o) none, s.seen)
  | .event .init _ => (s.live, [])
  | .event .initDone _ => (fun k => if k ∈ s.seen then s.live k else none, [])

def Registry.step (s : Registry) (l : WatchLabel DynamicObject String) : Option Registry := do
  let watch ← schemaKind.step s.watch l
  return { watch, live := (s.track l).1, seen := (s.track l).2 }

/-- Every live object that parses and is alone in governing its pair has its
schema enforced on that pair. -/
def Registry.Enforces (s : Registry) : Prop :=
  ∀ k o e, s.live k = some o → parseSchemaObject o = some e →
    (∀ k' o' e', k' ≠ k → s.live k' = some o' → parseSchemaObject o' = some e' → e'.key ≠ e.key) →
    ∀ content, s.watch.table.validate e.key.1 e.key.2 content = e.schema.validate content

/-- An event about the object `k` finds no live object of that name elsewhere,
and every other live object delivered on this connection. -/
structure Registry.Clear (s : Registry) (k : Key) : Prop where
  alone : ∀ k' o, s.live k' = some o → k'.name = k.name → k' = k
  delivered : ∀ k' o e, k' ≠ k → s.live k' = some o → parseSchemaObject o = some e →
    k'.name ∈ s.watch.objects

/-- The condition on one step. -/
def Registry.StepOk (s : Registry) : WatchLabel DynamicObject String → Prop
  | .event (.apply o) _ | .event (.initApply o) _ | .event (.delete o) _ => s.Clear (objectKey o)
  | .event .initDone _ => ∀ k o, s.live k = some o → k.name ∈ s.watch.objects → k ∈ s.seen
  | _ => True

/-! ### The invariant -/

/-- The mirror and the live objects agree, as far as the connection has heard. -/
structure Registry.Mirrors (s : Registry) : Prop where
  names : ∀ k k' o o', s.live k = some o → s.live k' = some o' → k.name = k'.name → k = k'
  sound : ∀ n e, s.watch.objects.lookup n = some e →
    ∃ k o, s.live k = some o ∧ k.name = n ∧ parseSchemaObject o = some e

/-- Every live object that parses is mirrored. -/
def Registry.Complete (s : Registry) : Prop :=
  ∀ k o e, s.live k = some o → parseSchemaObject o = some e → k.name ∈ s.watch.objects

structure Registry.Inv (s : Registry) : Prop where
  mirrors : s.Mirrors
  complete : s.seen ≠ [] → s.Complete
  enforces : s.Enforces

theorem Registry.Mirrors.lookup {s : Registry} (h : s.Mirrors) {k : Key} {o : DynamicObject}
    {e : SchemaEntry} (hk : s.live k = some o) (hp : parseSchemaObject o = some e)
    (hm : k.name ∈ s.watch.objects) : s.watch.objects.lookup k.name = some e := by
  rw [← AList.lookup_isSome] at hm
  obtain ⟨e', he'⟩ := Option.isSome_iff_exists.mp hm
  obtain ⟨k', o', hk', hn, hp'⟩ := h.sound _ _ he'
  obtain rfl := h.names k' k o' o hk' hk hn
  rw [hk, Option.some.injEq] at hk'
  rw [he', ← hp', ← hk', hp]

/-- A table published from a mirror that holds every live schema enforces them. -/
theorem Registry.enforces_of_published {s : Registry} (hm : s.Mirrors) (hc : s.Complete)
    {order : List String} (hord : order.Perm s.watch.objects.keys)
    (htable : s.watch.table = SchemaTable.publish (s.watch.objects.visit order)) : s.Enforces := by
  intro k o e hk hp hother content
  have hmem : e ∈ s.watch.objects.visit order :=
    (Map.mem_visit hord).mpr ⟨k.name, hm.lookup hk hp (hc k o e hk hp)⟩
  have huniq : ∀ e' ∈ s.watch.objects.visit order, e'.key = e.key → e' = e := by
    intro e' he' hkey
    obtain ⟨n, hn⟩ := (Map.mem_visit hord).mp he'
    obtain ⟨k', o', hk', _, hp'⟩ := hm.sound n e' hn
    by_cases hkk : k' = k
    · subst hkk
      rw [hk, Option.some.injEq] at hk'
      rw [← hk', hp, Option.some.injEq] at hp'
      exact hp'.symm
    · exact absurd hkey (hother k' o' e' hkk hk' hp')
  rw [SchemaTable.validate, htable, SchemaTable.lookup_publish _ hmem huniq]

theorem Registry.step_eq {s t : Registry} {l : WatchLabel DynamicObject String}
    (h : s.step l = some t) :
    schemaKind.step s.watch l = some t.watch ∧ t.live = (s.track l).1 ∧ t.seen = (s.track l).2 := by
  unfold Registry.step at h
  cases hs : schemaKind.step s.watch l with
  | none => rw [hs] at h; cases h
  | some w => rw [hs] at h; cases h; exact ⟨rfl, rfl, rfl⟩

/-- An event about one object, once the mirror is known to follow it. -/
theorem Registry.inv_object {s t : Registry} {k : Key} {new : Option DynamicObject}
    {order : List String} (hi : s.Inv) (hclear : s.Clear k)
    (hlive : t.live = Function.update s.live k new)
    (hself : t.watch.objects.lookup k.name = new.bind parseSchemaObject)
    (hne : ∀ n, n ≠ k.name → t.watch.objects.lookup n = s.watch.objects.lookup n)
    (hord : order.Perm t.watch.objects.keys)
    (htable : t.watch.table = SchemaTable.publish (t.watch.objects.visit order)) : t.Inv := by
  have hold : ∀ k', k' ≠ k → t.live k' = s.live k' := by
    intro k' hk'
    rw [hlive, Function.update_of_ne hk']
  -- no other live object has the name, which is the mirror's key
  have hname : ∀ k' o, k' ≠ k → s.live k' = some o → k'.name ≠ k.name :=
    fun k' o hk' ho hn => hk' (hclear.alone k' o ho hn)
  have hmirrors : t.Mirrors := by
    constructor
    · intro k₁ k₂ o₁ o₂ h₁ h₂ hn
      by_cases e₁ : k₁ = k
      · by_cases e₂ : k₂ = k
        · rw [e₁, e₂]
        · rw [hold k₂ e₂] at h₂
          exact absurd (by rw [← hn, e₁]) (hname k₂ o₂ e₂ h₂)
      · rw [hold k₁ e₁] at h₁
        by_cases e₂ : k₂ = k
        · exact absurd (by rw [hn, e₂]) (hname k₁ o₁ e₁ h₁)
        · rw [hold k₂ e₂] at h₂
          exact hi.mirrors.names k₁ k₂ o₁ o₂ h₁ h₂ hn
    · intro n e he
      by_cases hn : n = k.name
      · subst hn
        rw [hself] at he
        obtain ⟨o, rfl, hp⟩ := Option.bind_eq_some_iff.mp he
        exact ⟨k, o, by rw [hlive, Function.update_self], rfl, hp⟩
      · rw [hne n hn] at he
        obtain ⟨k', o, hk', hkn, hp⟩ := hi.mirrors.sound n e he
        have hkk : k' ≠ k := fun h => hn (by rw [← hkn, h])
        exact ⟨k', o, by rw [hold k' hkk, hk'], hkn, hp⟩
  have hcomplete : t.Complete := by
    intro k' o e hk' hp
    rw [← AList.lookup_isSome]
    by_cases hkk : k' = k
    · subst hkk
      rw [hlive, Function.update_self] at hk'
      rw [hself, hk', Option.bind_some, hp]
      rfl
    · rw [hold k' hkk] at hk'
      rw [hne k'.name (hname k' o hkk hk'), AList.lookup_isSome]
      exact hclear.delivered k' o e hkk hk' hp
  exact ⟨hmirrors, fun _ => hcomplete, Registry.enforces_of_published hmirrors hcomplete hord htable⟩

theorem Registry.inv_applied {s t : Registry} {o : DynamicObject} {order : List String}
    (hi : s.Inv) (hclear : s.Clear (objectKey o))
    (hw : schemaKind.step s.watch (.event (.initApply o) order) = some t.watch)
    (hlive : t.live = Function.update s.live (objectKey o) (some o)) : t.Inv := by
  obtain ⟨hord, hwatch⟩ := schemaKind.step_object hw
  have hobj : t.watch.objects = schemaKind.upsert s.watch.objects o := by rw [hwatch]
  have htable : t.watch.table = SchemaTable.publish (t.watch.objects.visit order) := by rw [hwatch]; rfl
  refine Registry.inv_object hi hclear hlive ?_ (fun n hn => ?_) hord htable
  · rw [hobj]
    exact schemaKind.lookup_upsert_self s.watch.objects o
  · rw [hobj]
    exact schemaKind.lookup_upsert_ne s.watch.objects hn

theorem Registry.inv_deleted {s t : Registry} {o : DynamicObject} {order : List String}
    (hi : s.Inv) (hclear : s.Clear (objectKey o))
    (hw : schemaKind.step s.watch (.event (.delete o) order) = some t.watch)
    (hlive : t.live = Function.update s.live (objectKey o) none) : t.Inv := by
  obtain ⟨hord, hwatch⟩ := schemaKind.step_delete hw
  have hobj : t.watch.objects = s.watch.objects.erase (objectKey o).name := by rw [hwatch]; rfl
  have htable : t.watch.table = SchemaTable.publish (t.watch.objects.visit order) := by rw [hwatch]; rfl
  refine Registry.inv_object hi hclear hlive ?_ (fun n hn => ?_) hord htable
  · rw [hobj, AList.lookup_erase]
    rfl
  · rw [hobj, AList.lookup_erase_ne hn]

/-- The end of a relist keeps exactly the keys seen; if any was, all live
schemas are mirrored, so none of them is dropped. -/
theorem Registry.inv_initDone {s t : Registry} (hi : s.Inv)
    (hlist : ∀ k o, s.live k = some o → k.name ∈ s.watch.objects → k ∈ s.seen)
    (hobj : t.watch.objects = s.watch.objects) (htable : t.watch.table = s.watch.table)
    (hlive : t.live = fun k => if k ∈ s.seen then s.live k else none) (hseen : t.seen = []) :
    t.Inv := by
  have hsub : ∀ k o, t.live k = some o → k ∈ s.seen ∧ s.live k = some o := by
    intro k o hk
    rw [hlive] at hk
    by_cases hs : k ∈ s.seen
    · exact ⟨hs, by simpa [hs] using hk⟩
    · simp [hs] at hk
  have hkeep : ∀ k o, s.live k = some o → k ∈ s.seen → t.live k = some o := by
    intro k o hk hs
    rw [hlive]
    simpa [hs] using hk
  refine ⟨⟨?_, ?_⟩, fun h => absurd hseen h, ?_⟩
  · intro k k' o o' hk hk' hn
    exact hi.mirrors.names k k' o o' (hsub k o hk).2 (hsub k' o' hk').2 hn
  · intro n e he
    rw [hobj] at he
    obtain ⟨k, o, hk, hn, hp⟩ := hi.mirrors.sound n e he
    have hm : k.name ∈ s.watch.objects := by
      rw [← AList.lookup_isSome, hn, he]
      rfl
    exact ⟨k, o, hkeep k o hk (hlist k o hk hm), hn, hp⟩
  · intro k o e hk hp hother content
    obtain ⟨hs, hk⟩ := hsub k o hk
    rw [htable]
    refine hi.enforces k o e hk hp (fun k' o' e' hkk hk' hp' => ?_) content
    have hm := hi.complete (List.ne_nil_of_mem hs) k' o' e' hk' hp'
    exact hother k' o' e' hkk (hkeep k' o' hk' (hlist k' o' hk' hm)) hp'

theorem Registry.inv_step {s t : Registry} {l : WatchLabel DynamicObject String} (hi : s.Inv)
    (hok : s.StepOk l) (h : s.step l = some t) : t.Inv := by
  obtain ⟨hw, hlive, hseen⟩ := Registry.step_eq h
  cases l with
  | connect =>
    have hwatch : t.watch = { s.watch with objects := ∅ } := (Option.some.inj hw).symm
    refine ⟨⟨?_, fun n e he => ?_⟩, fun hs => absurd hseen hs, ?_⟩
    · rw [hlive]
      exact hi.mirrors.names
    · rw [hwatch, AList.lookup_empty] at he
      cases he
    · unfold Registry.Enforces
      rw [hlive, hwatch]
      exact hi.enforces
  | event ev order =>
    cases ev with
    | apply o => exact Registry.inv_applied hi hok hw hlive
    | initApply o => exact Registry.inv_applied hi hok hw hlive
    | delete o => exact Registry.inv_deleted hi hok hw hlive
    | init =>
      have hwatch : t.watch = s.watch := (Option.some.inj hw).symm
      refine ⟨⟨?_, ?_⟩, fun hs => absurd hseen hs, ?_⟩
      · rw [hlive]
        exact hi.mirrors.names
      · rw [hlive, hwatch]
        exact hi.mirrors.sound
      · unfold Registry.Enforces
        rw [hlive, hwatch]
        exact hi.enforces
    | initDone =>
      have hwatch : t.watch = { s.watch with synced := true } := (Option.some.inj hw).symm
      exact Registry.inv_initDone hi hok (by rw [hwatch]) (by rw [hwatch]) hlive hseen

theorem Registry.inv_new : Registry.new.Inv := by
  refine ⟨⟨?_, ?_⟩, fun hs => absurd rfl hs, ?_⟩
  · intro k k' o o' hk
    cases hk
  · intro n e he
    rw [show Registry.new.watch.objects = ∅ from rfl, AList.lookup_empty] at he
    cases he
  · intro k o e hk
    cases hk

/-- **Every live schema is enforced on its own pair** after each event of a run
whose steps meet `StepOk`. -/
theorem Registry.enforces_run {labels : List (WatchLabel DynamicObject String)} {s : Registry}
    (hrun : run Registry.step Registry.new labels = some s)
    (hok : Along Registry.step (fun _ => Registry.StepOk) Registry.new labels) : s.Enforces :=
  (run_induction_along (fun _ => Registry.StepOk) (fun _ => Registry.Inv) Registry.inv_new
    (fun _ _ _ _ _ hi hC hstep => Registry.inv_step hi hC hstep) labels s hrun hok).enforces

end Schemas

/-! ### Two tenants -/

section Tenants

/-- The boolean schemas of draft-07: `true` accepts and `false` rejects every
document. -/
local instance boolSchemas : JsonSchema where
  Validator := Bool
  draft7New
    | .bool b => .ok b
    | _ => .error "not a boolean schema"
  iterErrors
    | true, _ => []
    | false, content => ["False schema does not allow " ++ content.render]

def schemaObject (ns name configName : String) (schema : Value) : DynamicObject where
  metadata := { name := some name, ns := some ns }
  data := .object [("spec", .object [("configName", .string configName), ("schema", schema)])]

/-- What is live after the first of two applied objects. -/
theorem Registry.live_apply {s t : Registry} {o : DynamicObject} {order : List String}
    (h : s.step (.event (.apply o) order) = some t) (k : Key) :
    t.live k = if k = objectKey o then some o else s.live k := by
  obtain ⟨_, hlive, _⟩ := Registry.step_eq h
  rw [hlive]
  show Function.update s.live (objectKey o) (some o) k = _
  by_cases hk : k = objectKey o
  · rw [hk, Function.update_self, if_pos rfl]
  · rw [Function.update_of_ne hk, if_neg hk]

/-- Objects with different names in two namespaces are both enforced. -/
theorem Registry.enforces_two_tenants :
    ∃ s, run Registry.step Registry.new
        [.event (.apply (schemaObject "team-a" "web" "frontend" (.bool false))) ["web"],
          .event (.apply (schemaObject "team-b" "api" "backend" (.bool true))) ["api", "web"]] =
        some s ∧ s.Enforces := by
  obtain ⟨s, hrun⟩ := Option.isSome_iff_exists.mp (show (run Registry.step Registry.new
    [.event (.apply (schemaObject "team-a" "web" "frontend" (.bool false))) ["web"],
      .event (.apply (schemaObject "team-b" "api" "backend" (.bool true))) ["api", "web"]]).isSome =
    true by decide)
  refine ⟨s, hrun, Registry.enforces_run hrun ?_⟩
  refine along_cons ⟨fun k' o hk => ?_, fun k' o e _ hk => ?_⟩ fun t ht => ?_
  · cases hk
  · cases hk
  have honly : ∀ k' o, t.live k' = some o → k' = ⟨"team-a", "web"⟩ := by
    intro k' o hk
    rw [Registry.live_apply ht] at hk
    split at hk
    · assumption
    · cases hk
  obtain ⟨_, hwatch⟩ := schemaKind.step_object (Registry.step_eq ht).1
  refine along_cons ⟨fun k' o hk hn => ?_, fun k' o e _ hk _ => ?_⟩ fun t' _ => along_nil _ t'
  · rw [honly k' o hk] at hn
    exact absurd hn (by decide)
  · rw [honly k' o hk, hwatch]
    decide

/-- **One tenant's object takes another tenant's schema out of the table** when
the two have the same name: content that `team-a`'s schema rejects is accepted. -/
theorem Registry.namesake_unregisters :
    ¬ ∀ labels s, run Registry.step Registry.new labels = some s → s.Enforces := by
  intro h
  obtain ⟨s, hrun, hs⟩ := Option.map_eq_some_iff.mp (show (run Registry.step Registry.new
    [.event (.apply (schemaObject "team-a" "web" "frontend" (.bool false))) ["web"],
      .event (.apply (schemaObject "team-b" "web" "backend" (.bool true))) ["web"]]).map
    (fun s => (s.watch.table.validate "team-a" "frontend" .null).isOk) = some true by decide)
  obtain ⟨t, ht, hu⟩ := run_snoc.mp (show run Registry.step Registry.new ([_] ++ [_]) = some s from hrun)
  rw [run_singleton] at ht
  have hlive : s.live ⟨"team-a", "web"⟩ =
      some (schemaObject "team-a" "web" "frontend" (.bool false)) := by
    rw [Registry.live_apply hu, if_neg (by decide), Registry.live_apply ht, if_pos (by decide)]
  have hbad := h _ s hrun _ _ ⟨("team-a", "frontend"), ⟨false⟩⟩ hlive rfl ?_ .null
  · rw [hbad] at hs
    revert hs
    decide
  · intro k' o' e' hne hk' hp'
    rw [Registry.live_apply hu] at hk'
    split at hk'
    · cases hk'
      cases hp'
      decide
    · rw [Registry.live_apply ht] at hk'
      split at hk'
      · exact absurd ‹_› hne
      · cases hk'

end Tenants

end Konfig
