import Konfig.Types

/-!
# What a subscriber asked for

The predicate of `grpc/subscribe/filter.rs` that the replay, snapshot and live
paths share: the names and the label selector of a `Subscribe` request, both of
which an event has to pass.
-/

namespace Konfig

/-- `kube::core::Expression`, one requirement on labels. -/
inductive Expression
  | isIn (key : String) (values : List String)
  | notIn (key : String) (values : List String)
  | equal (key value : String)
  | notEqual (key value : String)
  | exists (key : String)
  | doesNotExist (key : String)
  deriving DecidableEq, Repr

def Expression.matches (labels : StringMap) : Expression → Bool
  | .isIn key values => (labels.lookup key).any fun v => decide (v ∈ values)
  | .notIn key values => (labels.lookup key).all fun v => decide (v ∉ values)
  | .equal key value => labels.lookup key == some value
  | .notEqual key value => labels.lookup key != some value
  | .exists key => (labels.lookup key).isSome
  | .doesNotExist key => (labels.lookup key).isNone

/-- `kube::core::Selector`: all its requirements. -/
abbrev Selector := List Expression

def Selector.matches (selector : Selector) (labels : StringMap) : Bool :=
  selector.all fun e => e.matches labels

/-- `names = none` puts no constraint on the name. -/
structure SubscribeFilter where
  names : Option (List String)
  selector : Selector

def SubscribeFilter.allow (f : SubscribeFilter) (configName : String) (labels : StringMap) : Bool :=
  (match f.names with
    | none => true
    | some set => decide (configName ∈ set)) && f.selector.matches labels

/-- `SubscribeFilter::new` for some names and no label selector. -/
def SubscribeFilter.ofNames (names : List String) : SubscribeFilter :=
  { names := if names.isEmpty then none else some names, selector := [] }

theorem SubscribeFilter.ofNames_allow {names : List String} {name : String} (h : name ∈ names)
    (labels : StringMap) : (SubscribeFilter.ofNames names).allow name labels = true := by
  have hne : names.isEmpty = false := List.isEmpty_eq_false_iff.mpr (List.ne_nil_of_mem h)
  simp [SubscribeFilter.ofNames, SubscribeFilter.allow, hne, h, Selector.matches]

/-- The filter of a request that asks for nothing in particular. -/
def SubscribeFilter.all : SubscribeFilter := { names := none, selector := [] }

theorem SubscribeFilter.allow_all (name : String) (labels : StringMap) :
    SubscribeFilter.all.allow name labels = true := rfl

def configEventName (event : ConfigEvent) : Option String := event.config.map (·.name)

def filterAllowsEvent (f : SubscribeFilter) (event : ConfigEvent) (labels : StringMap) : Bool :=
  match configEventName event with
  | some name => f.allow name labels
  | none => false

end Konfig
