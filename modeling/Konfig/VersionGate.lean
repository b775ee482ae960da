import Konfig.Exchanges

/-!
# The version gate on 64-bit versions

The CRD admits any integer from `0` on as `spec.schema_version`.  `Apply` reads it as a
`u64` and keeps the low 32 bits (`as u32`), where the comment on
`parse_schema_version_from_object` has `0` for what exceeds `u32::MAX` and the one on the
gate says that only a strictly larger version is accepted.

`gate_compares_iff`: the gate compares the integers exactly for a stored version of 32
bits, and for an incoming one that is no larger than what the cut leaves.
-/

namespace Konfig

open Lib Proc

/-- The low 32 bits of the stored version. -/
theorem parseSchemaVersion_stored {obj : DynamicObject} {stored : UInt64}
    (h : versionField obj.data = some (.number (.posInt stored))) :
    (parseSchemaVersionFromObject obj).toNat = stored.toNat % 2 ^ 32 := by
  unfold versionField at h
  rw [parseSchemaVersionFromObject, h]
  exact UInt64.toNat_toUInt32 stored

/-- What `apply_spec` does after its read: the patch, or nothing more. -/
theorem applySpec_read (key : Key) (spec : ConfigSpec) (tp : Option String) :
    ∃ k, (applySpec key spec tp).run = .call (.get key) k ∧ ∀ obj : DynamicObject,
      (∃ st, k (.ok obj) = .ret (.error st) ∧ spec.schemaVersion ≤ parseSchemaVersionFromObject obj) ∨
      ∃ k', k (.ok obj) = .call (.patch key (patchBody key spec tp)) k' ∧
        parseSchemaVersionFromObject obj < spec.schemaVersion := by
  refine ⟨_, rfl, fun obj => ?_⟩
  show (∃ st, (do
      liftM (schemaVersionDecision spec.schemaVersion (parseSchemaVersionFromObject obj))
      let resourceVersion ← patchWithRetry key (patchBody key spec tp)
      return { resourceVersion } : KubeM ApplyResponse).run = .ret (.error st) ∧ _) ∨
    ∃ k', (do
      liftM (schemaVersionDecision spec.schemaVersion (parseSchemaVersionFromObject obj))
      let resourceVersion ← patchWithRetry key (patchBody key spec tp)
      return { resourceVersion } : KubeM ApplyResponse).run = .call _ k' ∧ _
  cases hdec : schemaVersionDecision spec.schemaVersion (parseSchemaVersionFromObject obj) with
  | error st =>
    refine Or.inl ⟨st, rfl, ?_⟩
    rw [← UInt32.not_lt, ← schemaVersionDecision_ok, hdec]
    exact nofun
  | ok u =>
    obtain ⟨k', hk'⟩ := patchWithRetry_run key (patchBody key spec tp)
    refine Or.inr ?_
    show ∃ k', (patchWithRetry key (patchBody key spec tp)).run.bind _ = .call _ k' ∧ _
    rw [hk']
    exact ⟨_, rfl, schemaVersionDecision_ok.mp hdec⟩

/-- The call reads `obj` and goes on to its patch. -/
def PassesGate (key : Key) (spec : ConfigSpec) (tp : Option String) (obj : DynamicObject) : Prop :=
  ∃ k, (applySpec key spec tp).run.Steps [⟨.get key, .ok obj⟩]
    (.call (.patch key (patchBody key spec tp)) k)

theorem passesGate_iff {key : Key} {spec : ConfigSpec} {tp : Option String} {obj : DynamicObject} :
    PassesGate key spec tp obj ↔ parseSchemaVersionFromObject obj < spec.schemaVersion := by
  obtain ⟨k, hk, hafter⟩ := applySpec_read key spec tp
  rw [PassesGate, hk]
  rcases hafter obj with ⟨st, hret, hle⟩ | ⟨k', hcall, hlt⟩
  · refine iff_of_false ?_ (UInt32.not_lt.mpr hle)
    rintro ⟨k', hsteps⟩
    cases hsteps with
    | cons hsteps =>
      rw [hret] at hsteps
      cases hsteps
  · refine iff_of_true ⟨k', .cons ?_⟩ hlt
    rw [hcall]
    exact .nil _

/-- **When the gate compares the integers.** -/
theorem gate_compares_iff {key : Key} {spec : ConfigSpec} {tp : Option String} {obj : DynamicObject}
    {stored : UInt64} (h : versionField obj.data = some (.number (.posInt stored))) :
    (PassesGate key spec tp obj ↔ stored.toNat < spec.schemaVersion.toNat) ↔
      stored.toNat < 2 ^ 32 ∨ spec.schemaVersion.toNat ≤ stored.toNat % 2 ^ 32 := by
  have hlt : spec.schemaVersion.toNat < 2 ^ 32 := spec.schemaVersion.toNat_lt
  rw [passesGate_iff, UInt32.lt_iff_toNat_lt, parseSchemaVersion_stored h]
  omega

/-- A config with a version of 33 bits. -/
def wideConfig : DynamicObject where
  metadata := {}
  data := .object [("spec", .object [("schema_version", .number (.posInt 4294967300))])]

theorem gate_compares_wideConfig :
    (PassesGate ⟨"trading", "limits"⟩ { schemaVersion := 4, content := defaultContent } none wideConfig ↔
      4294967300 < 4) := by
  have hstored : versionField wideConfig.data = some (.number (.posInt 4294967300)) := rfl
  exact (gate_compares_iff hstored).mpr (Or.inr (by decide))

/-- Version `5` is written over `2 ^ 32 + 4`. -/
theorem gate_passes_below :
    PassesGate ⟨"trading", "limits"⟩ { schemaVersion := 5, content := defaultContent } none wideConfig ∧
      ¬ 4294967300 < (5 : UInt32).toNat :=
  ⟨passesGate_iff.mpr (by decide), by decide⟩

end Konfig
