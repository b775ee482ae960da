import Konfig.Subscribe.Replay

/-!
# The consumer's stream driver

`konfig-consumer`: `snapshot_from_proto` and, of the `StreamDriver`, what one
event does to the stores and to the resume cursor (`apply`), and what a lost
connection does (`mark_all_stale`).  The raw event stream of the SDK keeps the
same cursor (`advance`) and has no stores.
-/

namespace Konfig

open Lib

/-- `konfig_consumer::ConfigSnapshot`. -/
structure ConsumerSnapshot where
  content : Value
  schemaVersion : UInt32
  resourceVersion : String
  loadedAt : Instant
  staleSince : Option Instant

/-- `ConfigSnapshot::default`. -/
def ConsumerSnapshot.default (now : Instant) : ConsumerSnapshot :=
  { content := .null, schemaVersion := 0, resourceVersion := "", loadedAt := now, staleSince := none }

section

variable [SerdeJson]

def snapshotFromProto (now : Instant) (cfg : Config) : Except String ConsumerSnapshot := do
  let content ← if cfg.contentJson = "" then pure defaultContent
    else
      match SerdeJson.fromStr cfg.contentJson with
      | .ok v => pure v
      | .error e => throw ("invalid content_json: " ++ e)
  return { content, schemaVersion := cfg.schemaVersion, resourceVersion := cfg.resourceVersion,
           loadedAt := now, staleSince := none }

/-- A driver with one store for each of its names. -/
structure Driver where
  names : List String
  stores : Map String ConsumerSnapshot
  resumeRv : String

/-- `watch` for some names: every store starts with the default. -/
def Driver.new (names : List String) (now : Instant) : Driver where
  names := names
  stores := names.foldl (fun stores name => stores.insert name (.default now)) ∅
  resumeRv := ""

/-- The cursor after an event. -/
def advance (resumeRv : String) (event : ConfigEvent) : String :=
  match event.config with
  | none => resumeRv
  | some cfg => if cfg.resourceVersion = "" then resumeRv else cfg.resourceVersion

def Driver.apply (now : Instant) (d : Driver) (event : ConfigEvent) : Driver :=
  match event.config with
  | none => d
  | some cfg =>
    let d := { d with resumeRv := advance d.resumeRv event }
    match d.stores.lookup cfg.name with
    | none => d
    | some _ =>
      match event.eventType with
      | .deleted => d
      | .added | .modified | .snapshot =>
        match snapshotFromProto now cfg with
        | .ok snap => { d with stores := d.stores.insert cfg.name snap }
        | .error _ => d

def ConsumerSnapshot.markStale (now : Instant) (snap : ConsumerSnapshot) : ConsumerSnapshot :=
  if snap.staleSince.isSome then snap else { snap with staleSince := some now }

def markStore (now : Instant) (stores : Map String ConsumerSnapshot) (name : String) :
    Map String ConsumerSnapshot :=
  match stores.lookup name with
  | some snap => stores.insert name (snap.markStale now)
  | none => stores

def Driver.markAllStale (now : Instant) (d : Driver) : Driver :=
  { d with stores := d.names.foldl (markStore now) d.stores }

end

end Konfig
