import Konfig.Secrets.Types
import Konfig.Lib.Proc

/-!
# ApplySecret

`grpc/secret_apply.rs`, as a process over the typed `Secret` API, and what a
client reads of a secret after it was applied and watched.

A value passes three encoders: the handler's own, the serialiser of `ByteString`
and the watcher's.  The API server undoes the second one.  `served_value` follows
a value through all of them.
-/

namespace Konfig

open Lib

/-! ### The Secret API -/

inductive SecretOp
  | get (key : Key)
  | patch (key : Key) (secret : Secret)

abbrev SecretOp.Resp : SecretOp → Type
  | .get _ => Except KubeError Secret
  | .patch _ _ => Except KubeError Secret

/-- A secret call in progress. -/
abbrev SecretM := ExceptT Status (Proc SecretOp SecretOp.Resp)

def SecretM.op (o : SecretOp) : SecretM o.Resp := ExceptT.lift (Proc.op o)

/-- `serde_yaml::from_str::<BTreeMap<String, String>>`, with the `Display` text of
its error. -/
class SecretYaml where
  fromStr : String → Except String StringMap

/-! ### The handler -/

def fetchCurrentSecretVersion (key : Key) : SecretM UInt32 := do
  match ← SecretM.op (.get key) with
  | .ok secret => pure (parseSecretSchemaVersion secret)
  | .error e =>
    if apiStatusCode e = some 404 then pure 0
    else throw ⟨.unavailable, "kube API error: " ++ e.display⟩

def SECRET_RETRY_DELAYS_MS : List Nat := [100, 200]

inductive SecretPatchRetryDecision
  | retryAfter (delayMs : Nat)
  | abortRetriesExhausted
  | unavailable
  deriving DecidableEq, Repr

def classifySecretPatchError (err : KubeError) (attempt : Nat) : SecretPatchRetryDecision :=
  if apiStatusCode err ≠ some 409 then .unavailable
  else
    match SECRET_RETRY_DELAYS_MS[attempt]? with
    | some delayMs => .retryAfter delayMs
    | none => .abortRetriesExhausted

theorem lt_of_classifySecret_retry {err : KubeError} {attempt d : Nat}
    (h : classifySecretPatchError err attempt = .retryAfter d) :
    attempt < SECRET_RETRY_DELAYS_MS.length := by
  unfold classifySecretPatchError at h
  split at h
  · cases h
  · split at h
    · rename_i hd
      exact (List.getElem?_eq_some_iff.mp hd).1
    · cases h

/-- `run_secret_patch_retry_loop` from one attempt on. -/
def runSecretPatchRetryLoop (doPatch : SecretM (Except KubeError String)) (attempt : Nat) :
    SecretM String := do
  match ← doPatch with
  | .ok rv => pure rv
  | .error e =>
    match h : classifySecretPatchError e attempt with
    | .retryAfter _ => runSecretPatchRetryLoop doPatch (attempt + 1)
    | .abortRetriesExhausted => throw ⟨.aborted, "ApplySecret: 409 Conflict — exceeded max retries"⟩
    | .unavailable => throw ⟨.unavailable, "kube patch error: " ++ e.display⟩
termination_by SECRET_RETRY_DELAYS_MS.length - attempt
decreasing_by
  have := lt_of_classifySecret_retry h
  omega

/-- `build_patch`. -/
def buildSecretPatch (key : Key) (schemaVersion : UInt32) (data : List (String × ByteString)) : Secret where
  metadata :=
    { name := some key.name
      ns := some key.ns
      labels := some [(MANAGED_LABEL, "true")]
      annotations := some [(SCHEMA_VERSION_ANNOTATION, toString schemaVersion.toNat)] }
  data := if data.isEmpty then none else some data

def patchSecretWithRetry (key : Key) (schemaVersion : UInt32) (data : List (String × ByteString)) :
    SecretM String :=
  runSecretPatchRetryLoop (do
    let r ← SecretM.op (.patch key (buildSecretPatch key schemaVersion data))
    pure (r.map fun secret => secret.metadata.resourceVersion.getD "")) 0

/-- The version of a plaintext map. -/
def incomingVersion (plaintext : StringMap) : UInt32 :=
  ((plaintext.lookup "schema_version").bind parseU32).getD 0

/-- The values a plaintext map is stored with: all but the version, encoded. -/
def encodedData (plaintext : StringMap) : List (String × ByteString) :=
  (plaintext.filter fun e => e.1 != "schema_version").map fun e =>
    (e.1, utf8 (Base64.encode (utf8 e.2)))

structure ApplySecretRequest where
  key : Key
  yamlContent : String

structure ApplySecretResponse where
  resourceVersion : String

/-- `apply_secret_inner`. -/
def applySecretInner [SecretYaml] (key : Key) (yamlContent : String) : SecretM ApplySecretResponse := do
  let plaintext ← liftM (match SecretYaml.fromStr yamlContent with
    | .ok plaintext => .ok plaintext
    | .error e => .error ⟨.invalidArgument, "invalid YAML: " ++ e⟩ : Except Status StringMap)
  let incoming := incomingVersion plaintext
  let current ← fetchCurrentSecretVersion key
  if incoming ≤ current then
    throw ⟨.failedPrecondition, "schema_version must be > " ++ toString current.toNat ++ "; got " ++
      toString incoming.toNat⟩
  else
    let resourceVersion ← patchSecretWithRetry key incoming (encodedData plaintext)
    return { resourceVersion }

/-- `handle_apply_secret`. -/
def handleApplySecret [SecretYaml] (req : ApplySecretRequest) : SecretM ApplySecretResponse :=
  applySecretInner req.key req.yamlContent

/-! ### What the handler writes -/

/-- The operations of an `ApplySecret` call: reads of its target, and patches of it
with the encoded values of the accepted map. -/
def SecretOp.OfApply [SecretYaml] (req : ApplySecretRequest) : SecretOp → Prop
  | .get key => key = req.key
  | .patch key secret => key = req.key ∧ ∃ plaintext,
      SecretYaml.fromStr req.yamlContent = .ok plaintext ∧
      secret = buildSecretPatch req.key (incomingVersion plaintext) (encodedData plaintext)

section Safe

variable [SecretYaml] {req : ApplySecretRequest}

/-- No ghost state: what an operation is, is enough. -/
abbrev OfApplyOk {α : Type} (req : ApplySecretRequest) (x : SecretM α) (Q : α → Prop) : Prop :=
  Proc.wpOk (fun (_ : Unit) _ _ => ()) (fun _ => SecretOp.OfApply req) x (fun _ a => Q a) ()

theorem fetchSecret_safe : OfApplyOk req (fetchCurrentSecretVersion req.key) fun _ => True := by
  refine Proc.wpOk_bind _ _ (Proc.wpOk_op _ _ rfl fun r => ?_)
  cases r with
  | ok secret => exact Proc.wpOk_pure _ _ trivial
  | error e =>
    simp only
    split
    · exact Proc.wpOk_pure _ _ trivial
    · exact Proc.wpOk_throw _ _

theorem secretPatchLoop_safe {secret : Secret} (h : SecretOp.OfApply req (.patch req.key secret)) :
    ∀ (left attempt : Nat), SECRET_RETRY_DELAYS_MS.length - attempt = left →
      OfApplyOk req (runSecretPatchRetryLoop (do
        let r ← SecretM.op (.patch req.key secret)
        pure (r.map fun secret => secret.metadata.resourceVersion.getD "")) attempt) fun _ => True := by
  intro left
  induction left using Nat.strongRecOn with
  | ind left ih =>
    intro attempt hleft
    rw [runSecretPatchRetryLoop]
    refine Proc.wpOk_bind _ _ (Proc.wpOk_bind _ _ (Proc.wpOk_op _ _ h fun r => ?_))
    refine Proc.wpOk_pure _ _ ?_
    cases r with
    | ok secret => exact Proc.wpOk_pure _ _ trivial
    | error e =>
      simp only [Except.map]
      split
      · rename_i d hd
        have := lt_of_classifySecret_retry hd
        exact ih (left - 1) (by omega) (attempt + 1) (by omega)
      · exact Proc.wpOk_throw _ _
      · exact Proc.wpOk_throw _ _

/-- **ApplySecret reads and patches its target only**, and every patch carries the
encoded values of the map it accepted. -/
theorem handleApplySecret_safe (req : ApplySecretRequest) :
    OfApplyOk req (handleApplySecret req) fun _ => True := by
  unfold handleApplySecret applySecretInner
  refine Proc.wpOk_bind _ _ (Proc.wpOk_liftExcept _ _ fun plaintext hp => ?_)
  have hyaml : SecretYaml.fromStr req.yamlContent = .ok plaintext := by
    cases h : SecretYaml.fromStr req.yamlContent with
    | ok m =>
      rw [h] at hp
      exact congrArg _ (Except.ok.inj hp)
    | error e =>
      rw [h] at hp
      cases hp
  refine Proc.wpOk_seq _ _ fetchSecret_safe fun g current _ => ?_
  simp only
  split
  · exact Proc.wpOk_throw _ _
  · have hpatch : SecretOp.OfApply req (.patch req.key
        (buildSecretPatch req.key (incomingVersion plaintext) (encodedData plaintext))) :=
      ⟨rfl, plaintext, hyaml, rfl⟩
    exact Proc.wpOk_seq _ _ (secretPatchLoop_safe hpatch _ 0 rfl) fun _ _ _ => Proc.wpOk_pure _ _ trivial

/-- Every patch of a run. -/
theorem patch_of_run {tr : List ((o : SecretOp) × o.Resp)}
    {q : Proc SecretOp SecretOp.Resp (Except Status ApplySecretResponse)}
    (hrun : (handleApplySecret req).run.Steps tr q) {key : Key} {patch : Secret}
    {r : Except KubeError Secret} (h : ⟨.patch key patch, r⟩ ∈ tr) {plaintext : StringMap}
    (hyaml : SecretYaml.fromStr req.yamlContent = .ok plaintext) :
    patch = buildSecretPatch req.key (incomingVersion plaintext) (encodedData plaintext) := by
  obtain ⟨_, plaintext', hyaml', hpatch⟩ := Proc.pre_of_steps hrun () (handleApplySecret_safe req) _ h
  rw [hyaml, Except.ok.injEq] at hyaml'
  rw [hpatch, hyaml']

end Safe

/-! ### Reading it back -/

/-- The API server stores the decoded bytes of every value of a patch, and `observed`
is what a watch then delivers. -/
def ApiStores (patch observed : Secret) : Prop :=
  ∀ key value, (key, value) ∈ patch.data.getD [] → ∃ bytes,
    ByteString.ofWire value.toWire = some bytes ∧ (observed.data.getD []).lookup key = some bytes

/-- The snapshots of an observed secret that konfig serves from: the cached one,
fresh or marked stale, and that of a raw watch. -/
inductive SnapshotOf (observed : Secret) (ns : String) : SecretSnapshot → Prop
  | cached {now : Instant} {snap : SecretSnapshot} (h : parseSecret now observed ns = some snap) :
      SnapshotOf observed ns snap
  | stale {now : Instant} {snap : SecretSnapshot} (h : parseSecret now observed ns = some snap)
      (since : Instant) : SnapshotOf observed ns (snap.setStale since)
  | watched {now : Instant} {snap : SecretSnapshot} (h : parseSecretObject now observed ns = some snap) :
      SnapshotOf observed ns snap

theorem SnapshotOf.value [SerdeJson] {observed : Secret} {ns : String} {snap : SecretSnapshot}
    (h : SnapshotOf observed ns snap) (hr : ReadsBack snap) (now : Instant) (key : String) :
    (secretSnapshotToProto now snap).value key =
      ((observed.data.getD []).lookup key).map Base64.encode := by
  cases h with
  | cached hp => exact value_of_parse hp hr now key
  | stale hp since => exact value_of_parse hp hr now key
  | watched hp => exact value_of_parse (parseSecret_of_object hp) hr now key

/-- **A value is served encoded twice.** -/
theorem served_value [SerdeJson] {key : Key} {version : UInt32} {plaintext : StringMap}
    {observed : Secret} {ns : String} {snap : SecretSnapshot}
    (hstore : ApiStores (buildSecretPatch key version (encodedData plaintext)) observed)
    (hsnap : SnapshotOf observed ns snap) (hr : ReadsBack snap) (now : Instant) {k v : String}
    (hkv : (k, v) ∈ plaintext) (hk : k ≠ "schema_version") :
    (secretSnapshotToProto now snap).value k =
      some (Base64.encode (utf8 (Base64.encode (utf8 v)))) := by
  have hmem : (k, utf8 (Base64.encode (utf8 v))) ∈ encodedData plaintext := by
    refine List.mem_map.mpr ⟨(k, v), List.mem_filter.mpr ⟨hkv, ?_⟩, rfl⟩
    simpa using hk
  have hdata : (buildSecretPatch key version (encodedData plaintext)).data.getD [] =
      encodedData plaintext := by
    unfold buildSecretPatch
    cases encodedData plaintext with
    | nil => rfl
    | cons e es => rfl
  obtain ⟨bytes, hwire, hlook⟩ := hstore k _ (by rw [hdata]; exact hmem)
  rw [ByteString.ofWire, ByteString.toWire, Base64.decode_encode, Option.some.injEq] at hwire
  rw [hsnap.value hr, hlook, ← hwire]
  rfl

/-- A client that decodes what is served gets the plaintext back, for every key
but the version. -/
def RoundTrips [SerdeJson] (plaintext : StringMap) (resp : SecretResponse) : Prop :=
  ∀ k v, (k, v) ∈ plaintext → k ≠ "schema_version" →
    (resp.value k).bind Base64.decode = some (utf8 v)

theorem utf8_eq_nil_iff (v : String) : utf8 v = [] ↔ v = "" := by
  constructor
  · intro h
    have h' := fromUtf8_utf8 v
    rw [h, ← utf8_empty, fromUtf8_utf8, Option.some.injEq] at h'
    exact h'.symm
  · intro h
    rw [h, utf8_empty]

/-- **What an ApplySecret wrote is read back exactly when every value is empty.** -/
theorem secret_round_trip_iff [SecretYaml] [SerdeJson] {req : ApplySecretRequest}
    {plaintext : StringMap} (hyaml : SecretYaml.fromStr req.yamlContent = .ok plaintext)
    {tr : List ((o : SecretOp) × o.Resp)} {resp : ApplySecretResponse}
    (hrun : (handleApplySecret req).run.Steps tr (.ret (.ok resp))) {patch patched : Secret}
    (hpatch : ⟨.patch req.key patch, .ok patched⟩ ∈ tr) {observed : Secret}
    (hstore : ApiStores patch observed) {snap : SecretSnapshot}
    (hsnap : SnapshotOf observed req.key.ns snap) (hr : ReadsBack snap) (now : Instant) :
    RoundTrips plaintext (secretSnapshotToProto now snap) ↔
      ∀ k v, (k, v) ∈ plaintext → k ≠ "schema_version" → v = "" := by
  rw [patch_of_run hrun hpatch hyaml] at hstore
  have key : ∀ k v, (k, v) ∈ plaintext → k ≠ "schema_version" →
      (((secretSnapshotToProto now snap).value k).bind Base64.decode = some (utf8 v) ↔ v = "") := by
    intro k v hkv hk
    rw [served_value hstore hsnap hr now hkv hk, Option.bind_some, Base64.decode_encode,
      Option.some.injEq, Base64.utf8_encode_eq_self_iff, utf8_eq_nil_iff]
  constructor
  · intro h k v hkv hk
    exact (key k v hkv hk).mp (h k v hkv hk)
  · intro h k v hkv hk
    exact (key k v hkv hk).mpr (h k v hkv hk)

/-! ### A first apply -/

/-- The run of a call that finds no secret and whose first patch succeeds. -/
theorem first_apply [SecretYaml] (req : ApplySecretRequest) {plaintext : StringMap}
    (hyaml : SecretYaml.fromStr req.yamlContent = .ok plaintext)
    (hv : ¬ incomingVersion plaintext ≤ 0) (patched : Secret) :
    (handleApplySecret req).run.Steps
      [⟨.get req.key, .error ⟨some 404, "not found"⟩⟩,
        ⟨.patch req.key (buildSecretPatch req.key (incomingVersion plaintext) (encodedData plaintext)),
          .ok patched⟩]
      (.ret (.ok ⟨patched.metadata.resourceVersion.getD ""⟩)) := by
  unfold handleApplySecret applySecretInner
  rw [hyaml]
  refine .cons ?_
  show Proc.Steps (ExceptT.run (if incomingVersion plaintext ≤ 0 then _ else _)) _ _
  rw [if_neg hv, patchSecretWithRetry, runSecretPatchRetryLoop]
  exact .cons (.nil _)

/-- A JSON reader that reads back one snapshot. -/
@[reducible] def readerOf (snap : SecretSnapshot) : SerdeJson where
  fromStr text :=
    if text = snap.dataJson then
      .ok (.object (snap.data.map fun e => (e.1, .string (secretText e.2))))
    else .error "expected value at line 1 column 1"
  fromValueError _ := "invalid type"

theorem readsBack_readerOf (snap : SecretSnapshot) : @ReadsBack (readerOf snap) snap := if_pos rfl

/-- The two maps of the examples below, as a YAML parser reads them. -/
@[reducible] def demoYaml : SecretYaml where
  fromStr text :=
    if text = "api_key: s3cret\nschema_version: '1'\n" then
      .ok [("api_key", "s3cret"), ("schema_version", "1")]
    else if text = "schema_version: '1'\ntoken: ''\n" then .ok [("schema_version", "1"), ("token", "")]
    else .error "did not find expected node content"

/-- The secret of a map as a first apply stores it and a watch delivers it. -/
def demoSecret (plaintext : StringMap) : Secret :=
  buildSecretPatch ⟨"trading", "keys"⟩ (incomingVersion plaintext) (encodedData plaintext)

def demoSnapshot (plaintext : StringMap) : SecretSnapshot :=
  { name := "keys", ns := "trading", schemaVersion := parseSecretSchemaVersion (demoSecret plaintext),
    data := reencode (demoSecret plaintext).data, resourceVersion := "", loadedAt := 0 }

theorem secret_round_trip_empty :
    @RoundTrips (readerOf (demoSnapshot [("schema_version", "1"), ("token", "")]))
      [("schema_version", "1"), ("token", "")]
      (secretSnapshotToProto 0 (demoSnapshot [("schema_version", "1"), ("token", "")])) := by
  let plaintext : StringMap := [("schema_version", "1"), ("token", "")]
  let _ := demoYaml
  let _ := readerOf (demoSnapshot plaintext)
  have hyaml : SecretYaml.fromStr "schema_version: '1'\ntoken: ''\n" = .ok plaintext := rfl
  have hrun := first_apply ⟨⟨"trading", "keys"⟩, "schema_version: '1'\ntoken: ''\n"⟩ hyaml
    (by decide) (demoSecret plaintext)
  have hstore : ApiStores (demoSecret plaintext) (demoSecret plaintext) := by
    intro key value hkv
    have hdata : (demoSecret plaintext).data.getD [] = [("token", [])] := by decide +kernel
    rw [hdata, List.mem_singleton, Prod.mk.injEq] at hkv
    rw [hkv.1, hkv.2]
    exact ⟨[], rfl, by decide +kernel⟩
  refine (secret_round_trip_iff hyaml hrun (List.mem_cons_of_mem _ List.mem_cons_self) hstore
    (.cached rfl) (readsBack_readerOf _) 0).mpr ?_
  intro k v hkv hk
  rcases List.mem_cons.mp hkv with h | h
  · exact absurd (congrArg Prod.fst h) hk
  · exact congrArg Prod.snd (List.mem_singleton.mp h)

/-- The value of a first apply of `api_key: s3cret`, decoded, is `czNjcmV0`. -/
theorem secret_served_encoded_twice :
    ¬ ∀ (_ : SecretYaml) (_ : SerdeJson) (req : ApplySecretRequest) (plaintext : StringMap),
      SecretYaml.fromStr req.yamlContent = .ok plaintext →
      ∀ (tr : List ((o : SecretOp) × o.Resp)) (resp : ApplySecretResponse),
      (handleApplySecret req).run.Steps tr (.ret (.ok resp)) →
      ∀ patch patched : Secret, ⟨.patch req.key patch, .ok patched⟩ ∈ tr →
      ∀ observed : Secret, ApiStores patch observed →
      ∀ snap : SecretSnapshot, SnapshotOf observed req.key.ns snap → ReadsBack snap →
      ∀ now : Instant, RoundTrips plaintext (secretSnapshotToProto now snap) := by
  intro hall
  let plaintext : StringMap := [("api_key", "s3cret"), ("schema_version", "1")]
  let _ := demoYaml
  let _ := readerOf (demoSnapshot plaintext)
  have hyaml : SecretYaml.fromStr "api_key: s3cret\nschema_version: '1'\n" = .ok plaintext := rfl
  have hrun := first_apply ⟨⟨"trading", "keys"⟩, "api_key: s3cret\nschema_version: '1'\n"⟩ hyaml
    (by decide) (demoSecret plaintext)
  have hstore : ApiStores (demoSecret plaintext) (demoSecret plaintext) := by
    intro key value hkv
    have hdata : (demoSecret plaintext).data.getD [] = [("api_key", utf8 "czNjcmV0")] := by decide +kernel
    rw [hdata, List.mem_singleton, Prod.mk.injEq] at hkv
    rw [hkv.1, hkv.2, hdata]
    exact ⟨utf8 "czNjcmV0", Base64.decode_encode _, rfl⟩
  have hback : ((secretSnapshotToProto 0 (demoSnapshot plaintext)).value "api_key").bind Base64.decode =
      some (utf8 "s3cret") :=
    hall demoYaml (readerOf (demoSnapshot plaintext)) _ _ hyaml _ _ hrun _ _
      (List.mem_cons_of_mem _ List.mem_cons_self) _ hstore (demoSnapshot plaintext) (.cached rfl)
      (readsBack_readerOf _) 0 "api_key" "s3cret" List.mem_cons_self (by decide)
  have hval := served_value hstore (.cached rfl : SnapshotOf _ _ (demoSnapshot plaintext))
    (readsBack_readerOf _) 0 List.mem_cons_self (by decide)
  rw [hval, Option.bind_some, Base64.decode_encode] at hback
  exact absurd hback (by decide +kernel)

end Konfig
