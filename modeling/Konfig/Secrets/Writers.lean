import Konfig.PatchLoops
import Konfig.ValueParse
import Mathlib.Data.Set.List

/-!
# The two writers of secrets

`ApplySecret` of the server and `apply-secret` of `konfig-cli` write the same document; the
one tries again after a conflict and the other does not.  `get-secret` of the CLI prints what
is stored.  A run is a sequence of calls of which none overlaps another, on an API server that
can fail at any request, a write also after it was carried out (`SecretStore.Behaves`).

* `SecretWriter.Exchange`: what either writer exchanges with the API server.
* `secret_writers_raise`: no call lowers a stored version, whatever it reports; one that
  succeeds raises that of its secret and stores the values it was given, encoded.
* `get_secret_output`: what is printed then.
-/

namespace Konfig

open Lib Proc

/-! ### `konfig-cli` -/

/-- A command in progress; it fails with the text that is printed. -/
abbrev SecretCmd := ExceptT String (Proc SecretOp SecretOp.Resp)

def SecretCmd.op (o : SecretOp) : SecretCmd o.Resp := ExceptT.lift (Proc.op o)

/-- The document of `cmd_apply_secret`. -/
def cmdSecretPatch (key : Key) (incomingVersion : UInt32) (encodedData : List (String × ByteString)) : Secret where
  metadata :=
    { name := some key.name
      ns := some key.ns
      labels := some [("konfig.io/managed", "true")]
      annotations := some [("konfig.io/schema-version", toString incomingVersion.toNat)] }
  data := if encodedData.isEmpty then none else some encodedData

/-- It is the document of the server. -/
theorem cmdSecretPatch_eq (key : Key) (version : UInt32) (data : List (String × ByteString)) :
    cmdSecretPatch key version data = buildSecretPatch key version data := rfl

/-- What `cmd_apply_secret` makes of the answer to its read. -/
def cmdCurrentVersion : Except KubeError Secret → Except String UInt32
  | .ok secret => .ok (parseSecretSchemaVersion secret)
  | .error e => if apiStatusCode e = some 404 then .ok 0 else .error ("kube get error: " ++ e.display)

/-- `cmd_apply_secret`, with the line it prints. -/
def cmdApplySecret [SecretYaml] (key : Key) (yamlContent : String) : SecretCmd String := do
  let plaintext ← liftM (match SecretYaml.fromStr yamlContent with
    | .ok plaintext => .ok plaintext
    | .error e => .error ("invalid YAML: " ++ e) : Except String StringMap)
  let incoming := incomingVersion plaintext
  let found ← SecretCmd.op (.get key)
  let current ← liftM (cmdCurrentVersion found)
  if incoming ≤ current then
    throw ("schema_version must be > current (" ++ toString current.toNat ++ "); got " ++ toString incoming.toNat)
  else
    match ← SecretCmd.op (.patch key (cmdSecretPatch key incoming (encodedData plaintext))) with
    | .ok secret => return "Applied " ++ key.ns ++ "/" ++ key.name ++ " (resource_version: " ++
        secret.metadata.resourceVersion.getD "" ++ ")"
    | .error e => throw ("kube patch error: " ++ e.display)

/-- The line of a value. -/
def secretLine (reveal : Bool) (entry : String × ByteString) : String :=
  if reveal then entry.1 ++ ": " ++ (fromUtf8 entry.2).getD "<binary>" else entry.1 ++ ": <REDACTED>"

/-- What `cmd_get_secret` prints of a secret. -/
def secretLines (key : Key) (reveal : Bool) (secret : Secret) : List String :=
  ["namespace: " ++ key.ns, "name: " ++ key.name,
    "schema_version: " ++ toString (parseSecretSchemaVersion secret).toNat] ++
  match secret.data with
  | some data => data.map (secretLine reveal)
  | none => ["# No data keys."]

/-- `cmd_get_secret`, with the lines it prints. -/
def cmdGetSecret (key : Key) (reveal : Bool) : SecretCmd (List String) := do
  match ← SecretCmd.op (.get key) with
  | .ok secret => return secretLines key reveal secret
  | .error e => throw ("kube get error: " ++ e.display)

/-! ### What a writer exchanges -/

/-- Requests to the API server with the answers. -/
abbrev SecretTrace := List ((o : SecretOp) × o.Resp)

/-- What a writer makes of the answer to its read. -/
def secretRead : Except KubeError Secret → Option UInt32
  | .ok secret => some (parseSecretSchemaVersion secret)
  | .error e => if apiStatusCode e = some 404 then some 0 else none

/-- A writer of secrets. -/
inductive SecretWriter
  | server (req : ApplySecretRequest)
  | cli (key : Key) (yamlContent : String)

def SecretWriter.key : SecretWriter → Key
  | .server req => req.key
  | .cli key _ => key

def SecretWriter.yamlContent : SecretWriter → String
  | .server req => req.yamlContent
  | .cli _ yamlContent => yamlContent

section

variable [SecretYaml]

/-- A writer with its exchanges, and whether it reports success. -/
inductive SecretWriter.Ends : SecretWriter → SecretTrace → Bool → Prop
  | server {req : ApplySecretRequest} {tr : SecretTrace} {r : Except Status ApplySecretResponse} :
      Proc.Ends (handleApplySecret req) tr r → Ends (.server req) tr r.isOk
  | cli {key : Key} {yamlContent : String} {tr : SecretTrace} {r : Except String String} :
      Proc.Ends (cmdApplySecret key yamlContent) tr r → Ends (.cli key yamlContent) tr r.isOk

omit [SecretYaml] in
/-- Its patches: refused ones, and a last one. -/
def secretPatches (key : Key) (patch : Secret) (errs : List KubeError) (last : Except KubeError Secret) :
    SecretTrace := errs.map (fun e => ⟨.patch key patch, .error e⟩) ++ [⟨.patch key patch, last⟩]

omit [SecretYaml] in
theorem fetchSecret_ends {key : Key} {tr : SecretTrace} {r : Except Status UInt32}
    (h : Proc.Ends (fetchCurrentSecretVersion key) tr r) :
    ∃ a, tr = [⟨.get key, a⟩] ∧ r.toOption = secretRead a := by
  unfold fetchCurrentSecretVersion SecretM.op at h
  rw [ends_op_bind] at h
  obtain ⟨a, tr', rfl, h⟩ := h
  refine ⟨a, ?_⟩
  cases a with
  | ok secret =>
    obtain ⟨rfl, rfl⟩ := ends_pure.mp h
    exact ⟨rfl, rfl⟩
  | error e =>
    by_cases h404 : apiStatusCode e = some 404
    · simp only [h404, if_true] at h
      obtain ⟨rfl, rfl⟩ := ends_pure.mp h
      exact ⟨rfl, by simp [secretRead, h404, Except.toOption]⟩
    · simp only [h404, if_false] at h
      obtain ⟨rfl, rfl⟩ := ends_throw.mp h
      exact ⟨rfl, by simp [secretRead, h404, Except.toOption]⟩

omit [SecretYaml] in
/-- The loop of the server. -/
theorem patchSecret_ends {key : Key} {version : UInt32} {data : List (String × ByteString)} {tr : SecretTrace}
    {r : Except Status String} (h : Proc.Ends (patchSecretWithRetry key version data) tr r) :
    ∃ errs last, tr = secretPatches key (buildSecretPatch key version data) errs last ∧ r.isOk = last.isOk := by
  obtain ⟨pre, a, rfl, hpre, hlast⟩ :=
    (secretLoop_retries key (buildSecretPatch key version data)).steps _ 0 rfl h
  -- an answer after which it tries again is a refusal
  have herrs : pre ∈ Set.range (List.map (Except.error : KubeError → Except KubeError Secret)) := by
    rw [Set.range_list_map]
    intro a' ha'
    have hagain := hpre a' ha'
    cases a' with
    | ok secret => cases hagain
    | error e => exact ⟨e, rfl⟩
  obtain ⟨errs, rfl⟩ := herrs
  refine ⟨errs, a, by simp [secretPatches], ?_⟩
  rcases hlast with ⟨v, hreply, hshows⟩ | ⟨hreply, st, hshows, -⟩ | ⟨hreply, st, hshows, -⟩
  · cases a with
    | ok secret =>
      rw [show r = .ok v from hshows]
      rfl
    | error e =>
      simp only [secretReply, Except.map, patchReply] at hreply
      split at hreply <;> cases hreply
  · cases a with
    | ok secret => cases hreply
    | error e =>
      rw [hshows]
      rfl
  · cases a with
    | ok secret => cases hreply
    | error e =>
      rw [hshows]
      rfl

/-- What a call exchanges: it stops before its read, or after it, or it goes on to patches of a
version above the one it read. -/
inductive SecretWriter.Exchange (w : SecretWriter) : SecretTrace → Bool → Prop
  | unread : Exchange w [] false
  | stopped (a : Except KubeError Secret) : Exchange w [⟨.get w.key, a⟩] false
  | patched {plaintext : StringMap} {a : Except KubeError Secret} {current : UInt32} (errs : List KubeError)
      (last : Except KubeError Secret) :
      SecretYaml.fromStr w.yamlContent = .ok plaintext → secretRead a = some current →
      current < incomingVersion plaintext →
      Exchange w (⟨.get w.key, a⟩ :: secretPatches w.key
        (buildSecretPatch w.key (incomingVersion plaintext) (encodedData plaintext)) errs last) last.isOk

theorem parsed_of_match {ε : Type} {yaml : String} {f : String → ε} {plaintext : StringMap}
    (h : (match SecretYaml.fromStr yaml with
      | .ok plaintext => .ok plaintext
      | .error e => .error (f e) : Except ε StringMap) = .ok plaintext) :
    SecretYaml.fromStr yaml = .ok plaintext := by
  cases hy : SecretYaml.fromStr yaml with
  | ok m =>
    rw [hy] at h
    cases h
    rfl
  | error e =>
    rw [hy] at h
    cases h

theorem handleApplySecret_exchange {req : ApplySecretRequest} {tr : SecretTrace}
    {r : Except Status ApplySecretResponse} (h : Proc.Ends (handleApplySecret req) tr r) :
    (SecretWriter.server req).Exchange tr r.isOk := by
  unfold handleApplySecret applySecretInner at h
  rw [ends_liftExcept_bind] at h
  rcases h with ⟨e, -, rfl, rfl⟩ | ⟨plaintext, hparse, h⟩
  · exact .unread
  rw [ends_bind] at h
  rcases h with ⟨e, rfl, h⟩ | ⟨tr₁, tr₂, current, rfl, h₁, h₂⟩
  · obtain ⟨a, rfl, -⟩ := fetchSecret_ends h
    exact .stopped a
  obtain ⟨a, rfl, hread⟩ := fetchSecret_ends h₁
  split at h₂
  · obtain ⟨rfl, rfl⟩ := ends_throw.mp h₂
    exact .stopped a
  · next hlt =>
    rw [ends_bind_pure] at h₂
    obtain ⟨r', rfl, h₂⟩ := h₂
    obtain ⟨errs, last, rfl, hok⟩ := patchSecret_ends h₂
    have hmap : ∀ {α β : Type} (f : α → β) (r : Except Status α), (r.map f).isOk = r.isOk := by
      intro α β f r
      cases r <;> rfl
    rw [hmap, hok]
    exact .patched errs last (parsed_of_match hparse) hread.symm (UInt32.not_le.mp hlt)

omit [SecretYaml] in
theorem secretRead_of_cmd {a : Except KubeError Secret} {current : UInt32} (h : cmdCurrentVersion a = .ok current) :
    secretRead a = some current := by
  cases a with
  | ok secret =>
    cases h
    rfl
  | error e =>
    by_cases h404 : apiStatusCode e = some 404
    · rw [cmdCurrentVersion, if_pos h404] at h
      cases h
      rw [secretRead, if_pos h404]
    · rw [cmdCurrentVersion, if_neg h404] at h
      cases h

theorem cmdApplySecret_exchange {key : Key} {yamlContent : String} {tr : SecretTrace} {r : Except String String}
    (h : Proc.Ends (cmdApplySecret key yamlContent) tr r) :
    (SecretWriter.cli key yamlContent).Exchange tr r.isOk := by
  unfold cmdApplySecret SecretCmd.op at h
  rw [ends_liftExcept_bind] at h
  rcases h with ⟨e, -, rfl, rfl⟩ | ⟨plaintext, hparse, h⟩
  · exact .unread
  rw [ends_op_bind] at h
  obtain ⟨a, tr', rfl, h⟩ := h
  rw [ends_liftExcept_bind] at h
  rcases h with ⟨e, -, rfl, rfl⟩ | ⟨current, hread, h⟩
  · exact .stopped a
  split at h
  · obtain ⟨rfl, rfl⟩ := ends_throw.mp h
    exact .stopped a
  · next hlt =>
    rw [ends_op_bind] at h
    obtain ⟨last, tr', rfl, h⟩ := h
    have hlast : tr' = [] ∧ r.isOk = last.isOk := by
      cases last with
      | ok secret =>
        obtain ⟨rfl, rfl⟩ := ends_pure.mp h
        exact ⟨rfl, rfl⟩
      | error e =>
        obtain ⟨rfl, rfl⟩ := ends_throw.mp h
        exact ⟨rfl, rfl⟩
    obtain ⟨rfl, hok⟩ := hlast
    rw [hok]
    exact .patched [] last (parsed_of_match hparse) (secretRead_of_cmd hread) (UInt32.not_le.mp hlt)

/-- **What a writer exchanges with the API server**, the server or the CLI. -/
theorem SecretWriter.Ends.exchange {w : SecretWriter} {tr : SecretTrace} {ok : Bool} (h : w.Ends tr ok) :
    w.Exchange tr ok := by
  cases h with
  | server h => exact handleApplySecret_exchange h
  | cli h => exact cmdApplySecret_exchange h

/-! ### The API server -/

omit [SecretYaml] in
theorem parseU64_toString {n : ℕ} (h : n < 2 ^ 64) : parseU64 (toString n) = some n := by
  have hdigits := digits_toDigits n
  obtain ⟨c, cs, hcs⟩ := List.exists_cons_of_ne_nil hdigits.ne_nil
  have hplus : c ≠ '+' := by
    rintro rfl
    exact hdigits.head_ne '+' rfl cs hcs
  have hparse := parseDigits_of_digits hdigits
  rw [valueOf, Nat.ofDigitChars_ten_toDigits] at hparse
  unfold parseU64
  rw [Nat.toString_eq_repr, Nat.toList_repr]
  rw [hcs] at hparse ⊢
  split
  · next hnil => cases hnil
  · next hone => exact absurd (List.cons.inj hone).1 hplus
  · next hsign => exact absurd (List.cons.inj hsign).1 hplus
  · rw [hparse, Option.filter_some, if_pos (by simpa using h)]

omit [SecretYaml] in
/-- A version is read as it was written. -/
theorem parseU32_toString (v : UInt32) : parseU32 (toString v.toNat) = some v := by
  have hlt := v.toNat_lt
  rw [parseU32, parseU64_toString (by omega), Option.filter_some, if_pos (by simpa using hlt), Option.map_some,
    UInt32.ofNat_toNat]

omit [SecretYaml] in
theorem version_buildSecretPatch (key : Key) (v : UInt32) (data : List (String × ByteString)) :
    parseSecretSchemaVersion (buildSecretPatch key v data) = v := by
  have hread : parseSecretSchemaVersion (buildSecretPatch key v data) = (parseU32 (toString v.toNat)).getD 0 := rfl
  rw [hread, parseU32_toString, Option.getD_some]

/-- The stored secrets. -/
abbrev SecretStore := Key → Option Secret

/-- The stored version as the writers read it. -/
def SecretStore.version (s : SecretStore) (key : Key) : UInt32 := ((s key).map parseSecretSchemaVersion).getD 0

/-- What a forced apply leaves of a document: its label, its version and its values. -/
structure SecretAppliedAs (patch obj : Secret) : Prop where
  managed : isManaged obj = isManaged patch
  version : obj.metadata.annotations.bind (·.lookup SCHEMA_VERSION_ANNOTATION) =
    patch.metadata.annotations.bind (·.lookup SCHEMA_VERSION_ANNOTATION)
  data : ∀ k v, (patch.data.getD []).lookup k = some v → (obj.data.getD []).lookup k = some v

/-- An API server on which every request can fail, a write before or after it is carried out. -/
inductive SecretStore.Behaves : SecretStore → (o : SecretOp) → o.Resp → SecretStore → Prop
  | found {s : SecretStore} {key : Key} {secret : Secret} :
      s key = some secret → Behaves s (.get key) (.ok secret) s
  | missing {s : SecretStore} {key : Key} {e : KubeError} :
      s key = none → e.code = some 404 → Behaves s (.get key) (.error e) s
  | getFailed {s : SecretStore} {key : Key} {e : KubeError} :
      e.code ≠ some 404 → Behaves s (.get key) (.error e) s
  | patched {s : SecretStore} {key : Key} {patch obj : Secret} :
      SecretAppliedAs patch obj → Behaves s (.patch key patch) (.ok obj) (Function.update s key (some obj))
  | patchLost {s : SecretStore} {key : Key} {patch obj : Secret} {e : KubeError} :
      SecretAppliedAs patch obj → Behaves s (.patch key patch) (.error e) (Function.update s key (some obj))
  | patchFailed {s : SecretStore} {key : Key} {patch : Secret} {e : KubeError} :
      Behaves s (.patch key patch) (.error e) s

omit [SecretYaml] in
/-- A read that succeeds tells the stored version. -/
theorem SecretStore.Behaves.read {s s' : SecretStore} {key : Key} {a : Except KubeError Secret} {current : UInt32}
    (h : s.Behaves (.get key) a s') (hread : secretRead a = some current) : s' = s ∧ s.version key = current := by
  cases h with
  | found hfound =>
    cases hread
    exact ⟨rfl, by simp [SecretStore.version, hfound]⟩
  | missing hnone hcode =>
    rw [secretRead, apiStatusCode, if_pos hcode] at hread
    cases hread
    exact ⟨rfl, by simp [SecretStore.version, hnone]⟩
  | getFailed hcode =>
    rw [secretRead, apiStatusCode, if_neg hcode] at hread
    cases hread

omit [SecretYaml] in
theorem SecretStore.Behaves.get_eq {s s' : SecretStore} {key : Key} {a : Except KubeError Secret}
    (h : s.Behaves (.get key) a s') : s' = s := by
  cases h <;> rfl

/-- A document was applied. -/
def WrittenAs (patch : Secret) (key : Key) (s s' : SecretStore) : Prop :=
  ∃ obj, SecretAppliedAs patch obj ∧ s' = Function.update s key (some obj)

omit [SecretYaml] in
/-- Patches of one document leave the store alone, or the document in it. -/
theorem patches_write {key : Key} {patch : Secret} {last : Except KubeError Secret} :
    ∀ {errs : List KubeError} {s s' : SecretStore},
      Answered SecretStore.Behaves s (secretPatches key patch errs last) s' →
        (last.isOk = false ∧ s' = s) ∨ WrittenAs patch key s s' := by
  intro errs
  induction errs with
  | nil =>
    intro s s' h
    obtain ⟨m, hpatch, hnil⟩ := answered_cons.mp h
    obtain rfl := answered_nil.mp hnil
    cases hpatch with
    | patched happ => exact .inr ⟨_, happ, rfl⟩
    | patchLost happ => exact .inr ⟨_, happ, rfl⟩
    | patchFailed => exact .inl ⟨rfl, rfl⟩
  | cons e errs ih =>
    intro s s' h
    obtain ⟨m, hpatch, hrest⟩ := answered_cons.mp h
    have hlater := ih hrest
    cases hpatch with
    | patchFailed => exact hlater
    | @patchLost _ _ obj _ happ =>
      rcases hlater with ⟨-, rfl⟩ | ⟨obj', happ', rfl⟩
      · exact .inr ⟨obj, happ, rfl⟩
      · exact .inr ⟨obj', happ', Function.update_idem _ _ _⟩

/-! ### Sequences of calls -/

/-- A sequence of calls, where `P` holds of each: the writer, and whether it reported success. -/
inductive SecretRun (P : SecretStore → SecretWriter × Bool → SecretStore → Prop) (s₀ : SecretStore) :
    List (SecretWriter × Bool) → SecretStore → Prop
  | nil : SecretRun P s₀ [] s₀
  | snoc {cs : List (SecretWriter × Bool)} {w : SecretWriter} {ok : Bool} {tr : SecretTrace} {s s' : SecretStore} :
      SecretRun P s₀ cs s → w.Ends tr ok → Answered SecretStore.Behaves s tr s' → P s (w, ok) s' →
      SecretRun P s₀ (cs ++ [(w, ok)]) s'

theorem SecretRun.last {P : SecretStore → SecretWriter × Bool → SecretStore → Prop} {s₀ s' : SecretStore}
    {cs : List (SecretWriter × Bool)} {w : SecretWriter} {ok : Bool} (h : SecretRun P s₀ (cs ++ [(w, ok)]) s') :
    ∃ s tr, w.Ends tr ok ∧ Answered SecretStore.Behaves s tr s' := by
  generalize hcs : cs ++ [(w, ok)] = cs' at h
  cases h with
  | nil => simp at hcs
  | snoc _ hends hs _ =>
    obtain ⟨-, hlast⟩ := List.append_inj' hcs rfl
    cases hlast
    exact ⟨_, _, hends, hs⟩

/-- The values of a map are stored, encoded. -/
def StoresValues (plaintext : StringMap) (secret : Secret) : Prop :=
  ∀ k v, k ≠ "schema_version" → plaintext.lookup k = some v →
    (secret.data.getD []).lookup k = some (utf8 (Base64.encode (utf8 v)))

/-- **What one call does.** -/
structure SecretRaises (s : SecretStore) (c : SecretWriter × Bool) (s' : SecretStore) : Prop where
  /-- Whatever it reports, it raised the version or did nothing. -/
  raised : s' = s ∨ s.version c.1.key < s'.version c.1.key
  frame : ∀ key, key ≠ c.1.key → s' key = s key
  stored : c.2 = true → ∃ plaintext secret, SecretYaml.fromStr c.1.yamlContent = .ok plaintext ∧
    s' c.1.key = some secret ∧ isManaged secret = true ∧
    s.version c.1.key < incomingVersion plaintext ∧
    parseSecretSchemaVersion secret = incomingVersion plaintext ∧ StoresValues plaintext secret

omit [SecretYaml] in
theorem lookup_encodedData {plaintext : StringMap} {k v : String} (hk : k ≠ "schema_version")
    (hv : plaintext.lookup k = some v) : (encodedData plaintext).lookup k = some (utf8 (Base64.encode (utf8 v))) := by
  induction plaintext with
  | nil => cases hv
  | cons e plaintext ih =>
    obtain ⟨k', v'⟩ := e
    unfold encodedData at ih ⊢
    rw [List.lookup_cons] at hv
    by_cases hversion : k' = "schema_version"
    · have hne : (k == k') = false := by
        rw [hversion]
        exact beq_eq_false_iff_ne.mpr hk
      rw [hne] at hv
      rw [List.filter_cons_of_neg (by simp [hversion])]
      exact ih hv
    · rw [List.filter_cons_of_pos (by simpa using hversion), List.map_cons, List.lookup_cons]
      cases hkk : k == k' with
      | true =>
        rw [hkk] at hv
        cases hv
        rfl
      | false =>
        rw [hkk] at hv
        exact ih hv

omit [SecretYaml] in
theorem data_buildSecretPatch (key : Key) (v : UInt32) (data : List (String × ByteString)) :
    (buildSecretPatch key v data).data.getD [] = data := by
  unfold buildSecretPatch
  cases data <;> rfl

omit [SecretYaml] in
/-- The stored version after a document was applied. -/
theorem WrittenAs.version {patch : Secret} {key : Key} {s s' : SecretStore} (h : WrittenAs patch key s s') :
    s'.version key = parseSecretSchemaVersion patch := by
  obtain ⟨obj, happ, rfl⟩ := h
  rw [SecretStore.version, Function.update_self, Option.map_some, Option.getD_some, parseSecretSchemaVersion,
    happ.version, parseSecretSchemaVersion]

/-- **One call.** -/
theorem SecretWriter.Exchange.raises {w : SecretWriter} {tr : SecretTrace} {ok : Bool} {s s' : SecretStore}
    (h : w.Exchange tr ok) (hs : Answered SecretStore.Behaves s tr s') : SecretRaises s (w, ok) s' := by
  cases h with
  | unread =>
    obtain rfl := answered_nil.mp hs
    exact ⟨.inl rfl, fun _ _ => rfl, fun hok => by cases hok⟩
  | stopped a =>
    obtain ⟨m, hget, hnil⟩ := answered_cons.mp hs
    obtain rfl := answered_nil.mp hnil
    obtain rfl := hget.get_eq
    exact ⟨.inl rfl, fun _ _ => rfl, fun hok => by cases hok⟩
  | @patched plaintext a current errs last hyaml hread hlt =>
    obtain ⟨m, hget, hpatches⟩ := answered_cons.mp hs
    obtain ⟨rfl, hcurrent⟩ := hget.read hread
    rw [← hcurrent] at hlt
    rcases patches_write hpatches with ⟨hfailed, rfl⟩ | hwritten
    · refine ⟨.inl rfl, fun _ _ => rfl, fun hok => ?_⟩
      rw [show last.isOk = true from hok] at hfailed
      cases hfailed
    · have hversion := hwritten.version
      rw [version_buildSecretPatch] at hversion
      refine ⟨.inr (by rw [hversion]; exact hlt), fun key hkey => ?_, fun _ => ?_⟩
      · obtain ⟨obj, -, rfl⟩ := hwritten
        exact Function.update_of_ne hkey _ _
      · obtain ⟨obj, happ, rfl⟩ := hwritten
        refine ⟨plaintext, obj, hyaml, Function.update_self _ _ _, ?_, hlt, ?_, fun k v hk hv => ?_⟩
        · rw [happ.managed]
          rfl
        · rw [← hversion, SecretStore.version, Function.update_self]
          rfl
        · refine happ.data k _ ?_
          rw [data_buildSecretPatch]
          exact lookup_encodedData hk hv

/-- **No call lowers a version**, of either writer and whatever it reports. -/
theorem secret_writers_raise {s₀ s : SecretStore} {cs : List (SecretWriter × Bool)}
    (hrun : SecretRun (fun _ _ _ => True) s₀ cs s) :
    SecretRun SecretRaises s₀ cs s ∧ ∀ key, s₀.version key ≤ s.version key := by
  induction hrun with
  | nil => exact ⟨.nil, fun key => UInt32.le_refl _⟩
  | @snoc cs w ok tr s s' _ hends hs _ ih =>
    have hraises := hends.exchange.raises hs
    refine ⟨.snoc ih.1 hends hs hraises, fun key => UInt32.le_trans (ih.2 key) ?_⟩
    by_cases hkey : key = w.key
    · subst hkey
      rcases hraises.raised with hsame | hlt
      · rw [hsame]
        exact UInt32.le_refl _
      · exact UInt32.le_of_lt hlt
    · rw [SecretStore.version, SecretStore.version, hraises.frame key hkey]
      exact UInt32.le_refl _

/-! ### What is printed -/

omit [SecretYaml] in
theorem cmdGetSecret_ends {key : Key} {reveal : Bool} {tr : SecretTrace} {lines : List String}
    (h : Proc.Ends (cmdGetSecret key reveal) tr (.ok lines)) :
    ∃ secret, tr = [⟨.get key, .ok secret⟩] ∧ lines = secretLines key reveal secret := by
  unfold cmdGetSecret SecretCmd.op at h
  rw [ends_op_bind] at h
  obtain ⟨a, tr', rfl, h⟩ := h
  cases a with
  | ok secret =>
    obtain ⟨rfl, hlines⟩ := ends_pure.mp h
    cases hlines
    exact ⟨secret, rfl, rfl⟩
  | error e =>
    obtain ⟨-, he⟩ := ends_throw.mp h
    cases he

omit [SecretYaml] in
/-- The values are not among the lines that are printed without `--reveal`. -/
theorem secretLines_redacted {secret secret' : Secret} (key : Key)
    (hversion : parseSecretSchemaVersion secret' = parseSecretSchemaVersion secret)
    (hkeys : secret'.data.map (·.map Prod.fst) = secret.data.map (·.map Prod.fst)) :
    secretLines key false secret' = secretLines key false secret := by
  have hredacted : ∀ data : List (String × ByteString),
      data.map (secretLine false) = (data.map Prod.fst).map fun k => k ++ ": <REDACTED>" := by
    intro data
    rw [List.map_map]
    rfl
  unfold secretLines
  rw [hversion]
  cases h : secret.data with
  | none =>
    rw [h, Option.map_none, Option.map_eq_none_iff] at hkeys
    rw [hkeys]
  | some data =>
    rw [h, Option.map_some] at hkeys
    obtain ⟨data', h', hdata⟩ := Option.map_eq_some_iff.mp hkeys
    rw [h']
    simp only [hredacted, hdata]

omit [SecretYaml] in
/-- With `--reveal` a stored value is printed as its base64 text. -/
theorem secretLine_revealed {plaintext : StringMap} {secret : Secret} (h : StoresValues plaintext secret)
    {k v : String}
    (hk : k ≠ "schema_version") (hv : plaintext.lookup k = some v) (key : Key) :
    k ++ ": " ++ Base64.encode (utf8 v) ∈ secretLines key true secret := by
  have hlook := h k v hk hv
  cases hdata : secret.data with
  | none =>
    rw [hdata] at hlook
    cases hlook
  | some data =>
    rw [hdata, Option.getD_some] at hlook
    obtain ⟨l₁, l₂, rfl, -⟩ := List.lookup_eq_some_iff.mp hlook
    have hline : secretLine true (k, utf8 (Base64.encode (utf8 v))) = k ++ ": " ++ Base64.encode (utf8 v) := by
      rw [secretLine, if_pos rfl, fromUtf8_utf8, Option.getD_some]
    unfold secretLines
    rw [hdata]
    refine List.mem_append_right _ (List.mem_map.mpr ⟨_, List.mem_append_right _ List.mem_cons_self, hline⟩)

/-- **What `get-secret` prints after a write that succeeded.**  With `--reveal` each value is
printed in base64, as it is stored.  Without it the values do not matter. -/
theorem get_secret_output {s₀ s s' : SecretStore} {cs : List (SecretWriter × Bool)} {w : SecretWriter}
    {reveal : Bool} {tr : SecretTrace} {lines : List String}
    (hrun : SecretRun (fun _ _ _ => True) s₀ (cs ++ [(w, true)]) s)
    (hget : Proc.Ends (cmdGetSecret w.key reveal) tr (.ok lines)) (hs : Answered SecretStore.Behaves s tr s') :
    s' = s ∧ ∃ plaintext, SecretYaml.fromStr w.yamlContent = .ok plaintext ∧
      "schema_version: " ++ toString (incomingVersion plaintext).toNat ∈ lines ∧
      (reveal = true → ∀ k v, k ≠ "schema_version" → plaintext.lookup k = some v →
        k ++ ": " ++ Base64.encode (utf8 v) ∈ lines) ∧
      (reveal = false → ∀ secret secret', s w.key = some secret →
        parseSecretSchemaVersion secret' = parseSecretSchemaVersion secret →
        secret'.data.map (·.map Prod.fst) = secret.data.map (·.map Prod.fst) →
        secretLines w.key false secret' = lines) := by
  obtain ⟨before, tr', hends, hanswered⟩ := hrun.last
  obtain ⟨plaintext, secret, hyaml, hsecret, -, -, hversion, hvalues⟩ :=
    (hends.exchange.raises hanswered).stored rfl
  obtain ⟨found, rfl, rfl⟩ := cmdGetSecret_ends hget
  obtain ⟨m, hread, hnil⟩ := answered_cons.mp hs
  obtain rfl := answered_nil.mp hnil
  cases hread with
  | found hfound =>
    obtain rfl : secret = found := Option.some.inj (hsecret.symm.trans hfound)
    refine ⟨rfl, plaintext, hyaml, ?_, fun hreveal k v hk hv => ?_,
      fun hreveal other other' hother hv hkeys => ?_⟩
    · unfold secretLines
      rw [hversion]
      simp
    · subst hreveal
      exact secretLine_revealed hvalues hk hv w.key
    · subst hreveal
      obtain rfl : other = secret := Option.some.inj (hother.symm.trans hsecret)
      exact secretLines_redacted w.key hv hkeys

end

/-! ### A secret -/

section Keys

local instance keysYaml : SecretYaml := demoYaml

/-- `trading/keys` with one value, applied by the server. -/
def keysWriter : SecretWriter := .server ⟨⟨"trading", "keys"⟩, "api_key: s3cret\nschema_version: '1'\n"⟩

def keysMap : StringMap := [("api_key", "s3cret"), ("schema_version", "1")]

def keysStore : SecretStore := Function.update (fun _ => none) ⟨"trading", "keys"⟩ (some (demoSecret keysMap))

/-- It is the first write. -/
theorem keysWriter_run :
    SecretRun (fun _ _ _ => True) (fun _ => none) ([] ++ [(keysWriter, true)]) keysStore := by
  have hyaml : SecretYaml.fromStr "api_key: s3cret\nschema_version: '1'\n" = .ok keysMap := rfl
  have hends := first_apply ⟨⟨"trading", "keys"⟩, "api_key: s3cret\nschema_version: '1'\n"⟩ hyaml (by decide)
    (demoSecret keysMap)
  have happ : SecretAppliedAs (demoSecret keysMap) (demoSecret keysMap) := ⟨rfl, rfl, fun _ _ h => h⟩
  exact .snoc .nil (.server hends) (.cons (.missing rfl rfl) (.cons (.patched happ) (.nil _))) trivial

/-- The CLI does not write the version again. -/
theorem secret_writers_raise_keys :
    SecretRun SecretRaises (fun _ => none)
      ([(keysWriter, true)] ++ [(.cli ⟨"trading", "keys"⟩ "api_key: s3cret\nschema_version: '1'\n", false)])
      keysStore ∧ ∀ key, SecretStore.version (fun _ => none) key ≤ keysStore.version key := by
  have hfound : keysStore ⟨"trading", "keys"⟩ = some (demoSecret keysMap) := Function.update_self _ _ _
  have hends : Proc.Ends (cmdApplySecret ⟨"trading", "keys"⟩ "api_key: s3cret\nschema_version: '1'\n")
      [⟨.get ⟨"trading", "keys"⟩, .ok (demoSecret keysMap)⟩]
      (.error "schema_version must be > current (1); got 1") := .cons (.nil _)
  exact secret_writers_raise (.snoc keysWriter_run (.cli hends) (.cons (.found hfound) (.nil _)) trivial)

/-- `s3cret` is printed as `czNjcmV0`. -/
theorem get_secret_output_keys : ∃ lines, "api_key: czNjcmV0" ∈ lines ∧
    Proc.Ends (cmdGetSecret ⟨"trading", "keys"⟩ true) [⟨.get ⟨"trading", "keys"⟩, .ok (demoSecret keysMap)⟩]
      (.ok lines) := by
  have hends : Proc.Ends (cmdGetSecret keysWriter.key true)
      [⟨.get ⟨"trading", "keys"⟩, .ok (demoSecret keysMap)⟩]
      (.ok (secretLines ⟨"trading", "keys"⟩ true (demoSecret keysMap))) := .cons (.nil _)
  have hfound : keysStore ⟨"trading", "keys"⟩ = some (demoSecret keysMap) := Function.update_self _ _ _
  obtain ⟨-, plaintext, hyaml, -, hreveal, -⟩ :=
    get_secret_output keysWriter_run hends (.cons (.found hfound) (.nil _))
  cases hyaml
  have hline := hreveal rfl "api_key" "s3cret" (by decide) rfl
  have htext : "api_key" ++ ": " ++ Base64.encode (utf8 "s3cret") = "api_key: czNjcmV0" := by decide +kernel
  rw [htext] at hline
  exact ⟨_, hline, hends⟩

end Keys

end Konfig
