import Konfig.Exchanges
import Konfig.Secrets.Apply
import Konfig.Lib.Retry

/-!
# The two patch loops

`run_patch_retry_loop` (`grpc/apply.rs`) and `run_secret_patch_retry_loop`
(`grpc/secret_apply.rs`) are written twice, each with its delays and its classifier.  Both
are `retry` of the replies to their patches.

* `patch_loops_agree`: on the same replies they make the same number of attempts and come to
  the same.
-/

namespace Konfig

open Lib Proc

/-- What the loops tell apart of the answer to a patch. -/
def patchReply : Except KubeError String → RetryReply String
  | .ok rv => .done rv
  | .error e => if apiStatusCode e = some 409 then .again else .failed

/-- The answer to a patch of a config, as the loop sees it. -/
def configReply (a : Except KubeError DynamicObject) : RetryReply String :=
  patchReply (a.map fun obj => obj.metadata.resourceVersion.getD "")

/-- The answer to a patch of a secret, as the loop sees it. -/
def secretReply (a : Except KubeError Secret) : RetryReply String :=
  patchReply (a.map fun secret => secret.metadata.resourceVersion.getD "")

/-- A caller sees that a loop came to this. -/
def Reports (r : Except Status String) : RetryOutcome String → Prop
  | .done rv => r = .ok rv
  | .exhausted => ∃ st, r = .error st ∧ st.code = .aborted
  | .failed => ∃ st, r = .error st ∧ st.code = .unavailable

/-- A caller sees what a loop came to. -/
theorem Reports.iff {r : Except Status String} {out : RetryOutcome String} (h : Reports r out)
    (out' : RetryOutcome String) : Reports r out' ↔ out' = out := by
  constructor
  · intro h'
    cases out with
    | done rv =>
      cases h
      cases out' <;> simp_all [Reports]
    | exhausted | failed =>
      obtain ⟨st, rfl, hst⟩ := h
      cases out' <;> simp_all [Reports]
  · rintro rfl
    exact h

/-! ### The loop of configs -/

/-- The loop after the answer to an attempt. -/
def afterPatch (key : Key) (body : Value) (attempt : ℕ) : Except KubeError String → KubeM String
  | .ok rv => pure rv
  | .error e =>
    match classifyPatchError e attempt with
    | .retryAfter _ => runPatchRetryLoop (patchAttempt key body) (attempt + 1)
    | .abortRetriesExhausted => throw ⟨.aborted, "409 Conflict — exceeded max retries"⟩
    | .unavailable => throw ⟨.unavailable, "kube patch error: " ++ e.display⟩

theorem runPatchRetryLoop_run (key : Key) (body : Value) (attempt : ℕ) :
    (runPatchRetryLoop (patchAttempt key body) attempt).run = .call (.patch key body) fun a =>
      (afterPatch key body attempt (a.map fun obj => obj.metadata.resourceVersion.getD "")).run := by
  rw [runPatchRetryLoop]
  refine congrArg (Proc.call _) (funext fun a => ?_)
  cases a with
  | ok obj => rfl
  | error e =>
    dsimp only [Except.map, afterPatch, pure, ExceptT.pure, ExceptT.mk, Function.comp, Lib.Proc.bind,
      ExceptT.bindCont]
    split <;> rename_i h <;> simp only [h] <;> rfl

theorem classifyPatchError_conflict {e : KubeError} (h : apiStatusCode e = some 409) (attempt : ℕ) :
    classifyPatchError e attempt = (RETRY_DELAYS_MS[attempt]?).elim .abortRetriesExhausted .retryAfter := by
  unfold classifyPatchError
  rw [if_neg (not_not.mpr h)]
  cases RETRY_DELAYS_MS[attempt]? <;> rfl

theorem configLoop_retries (key : Key) (body : Value) :
    Retries (fun attempt => (runPatchRetryLoop (patchAttempt key body) attempt).run)
      (.patch key body) configReply Reports RETRY_DELAYS_MS.length := by
  intro attempt
  refine ⟨_, runPatchRetryLoop_run key body attempt, fun a => ?_⟩
  cases a with
  | ok obj => exact ⟨_, rfl, rfl⟩
  | error e =>
    simp only [configReply, Except.map, patchReply, afterPatch]
    by_cases h : apiStatusCode e = some 409
    · rw [if_pos h, classifyPatchError_conflict h]
      by_cases hmore : attempt < RETRY_DELAYS_MS.length
      · rw [if_pos hmore, List.getElem?_eq_getElem hmore]
        rfl
      · rw [if_neg hmore, List.getElem?_eq_none (Nat.le_of_not_lt hmore)]
        exact ⟨_, rfl, _, rfl, rfl⟩
    · rw [if_neg h, classifyPatchError, if_pos h]
      exact ⟨_, rfl, _, rfl, rfl⟩

/-! ### The loop of secrets -/

/-- One attempt of the loop. -/
def secretPatchAttempt (key : Key) (secret : Secret) : SecretM (Except KubeError String) := do
  let r ← SecretM.op (.patch key secret)
  pure (r.map fun secret => secret.metadata.resourceVersion.getD "")

/-- The loop after the answer to an attempt. -/
def afterSecretPatch (key : Key) (secret : Secret) (attempt : ℕ) :
    Except KubeError String → SecretM String
  | .ok rv => pure rv
  | .error e =>
    match classifySecretPatchError e attempt with
    | .retryAfter _ => runSecretPatchRetryLoop (secretPatchAttempt key secret) (attempt + 1)
    | .abortRetriesExhausted => throw ⟨.aborted, "ApplySecret: 409 Conflict — exceeded max retries"⟩
    | .unavailable => throw ⟨.unavailable, "kube patch error: " ++ e.display⟩

theorem runSecretPatchRetryLoop_run (key : Key) (secret : Secret) (attempt : ℕ) :
    (runSecretPatchRetryLoop (secretPatchAttempt key secret) attempt).run =
      .call (.patch key secret) fun a => (afterSecretPatch key secret attempt
        (a.map fun secret => secret.metadata.resourceVersion.getD "")).run := by
  rw [runSecretPatchRetryLoop]
  refine congrArg (Proc.call _) (funext fun a => ?_)
  cases a with
  | ok obj => rfl
  | error e =>
    dsimp only [Except.map, afterSecretPatch, pure, ExceptT.pure, ExceptT.mk, Function.comp, Lib.Proc.bind,
      ExceptT.bindCont]
    split <;> rename_i h <;> simp only [h] <;> rfl

theorem classifySecretPatchError_conflict {e : KubeError} (h : apiStatusCode e = some 409)
    (attempt : ℕ) : classifySecretPatchError e attempt =
      (SECRET_RETRY_DELAYS_MS[attempt]?).elim .abortRetriesExhausted .retryAfter := by
  unfold classifySecretPatchError
  rw [if_neg (not_not.mpr h)]
  cases SECRET_RETRY_DELAYS_MS[attempt]? <;> rfl

theorem secretLoop_retries (key : Key) (secret : Secret) :
    Retries (fun attempt => (runSecretPatchRetryLoop (secretPatchAttempt key secret) attempt).run)
      (.patch key secret) secretReply Reports SECRET_RETRY_DELAYS_MS.length := by
  intro attempt
  refine ⟨_, runSecretPatchRetryLoop_run key secret attempt, fun a => ?_⟩
  cases a with
  | ok obj => exact ⟨_, rfl, rfl⟩
  | error e =>
    simp only [secretReply, Except.map, patchReply, afterSecretPatch]
    by_cases h : apiStatusCode e = some 409
    · rw [if_pos h, classifySecretPatchError_conflict h]
      by_cases hmore : attempt < SECRET_RETRY_DELAYS_MS.length
      · rw [if_pos hmore, List.getElem?_eq_getElem hmore]
        rfl
      · rw [if_neg hmore, List.getElem?_eq_none (Nat.le_of_not_lt hmore)]
        exact ⟨_, rfl, _, rfl, rfl⟩
    · rw [if_neg h, classifySecretPatchError, if_pos h]
      exact ⟨_, rfl, _, rfl, rfl⟩

/-! ### Both -/

section Both

variable (key key' : Key) (body : Value) (version : UInt32) (data : List (String × ByteString))

/-- **The two loops on the same replies.**  The `i`-th patch of either is given its `i`-th
answer.  They make the same number of attempts, and come to the same. -/
theorem patch_loops_agree (answers : ℕ → (o : KubeOp) → o.Resp) (answers' : ℕ → (o : SecretOp) → o.Resp)
    (hsame : ∀ i, secretReply (answers' i (.patch key' (buildSecretPatch key' version data))) =
      configReply (answers i (.patch key body))) :
    ∃ n out, ((patchWithRetry key body).run.play answers 0).1 = List.replicate n (.patch key body) ∧
      ((patchSecretWithRetry key' version data).run.play answers' 0).1 =
        List.replicate n (.patch key' (buildSecretPatch key' version data)) ∧
      (∀ out', Reports ((patchWithRetry key body).run.play answers 0).2 out' ↔ out' = out) ∧
      (∀ out', Reports ((patchSecretWithRetry key' version data).run.play answers' 0).2 out' ↔
        out' = out) ∧
      RetrySpec (fun i => configReply (answers i (.patch key body))) RETRY_DELAYS_MS.length n out := by
  obtain ⟨hops, hout⟩ := (configLoop_retries key body).play answers RETRY_DELAYS_MS.length 0 (Nat.zero_add _)
  obtain ⟨hops', hout'⟩ := (secretLoop_retries key' (buildSecretPatch key' version data)).play answers'
    SECRET_RETRY_DELAYS_MS.length 0 (Nat.zero_add _)
  have hdelays : SECRET_RETRY_DELAYS_MS.length = RETRY_DELAYS_MS.length := rfl
  rw [funext hsame, hdelays] at hops' hout'
  refine ⟨_, _, hops, hops', hout.iff, hout'.iff, ?_⟩
  have h := retry_spec (fun i => configReply (answers i (.patch key body))) RETRY_DELAYS_MS.length 0
  simp only [Nat.zero_add] at h
  exact h

end Both

/-- An answer that comes after one conflict. -/
def refusedOnce {α : Type} (a : α) : ℕ → Except KubeError α
  | 0 => .error ⟨some 409, "conflict"⟩
  | _ + 1 => .ok a

/-- A server of configs that refuses the first request. -/
def refusedOnceConfig (i : ℕ) : (o : KubeOp) → o.Resp
  | .get _ => refusedOnce ⟨{}, .null⟩ i
  | .patch _ _ => refusedOnce ⟨{ resourceVersion := some "7" }, .null⟩ i
  | .list _ _ _ => refusedOnce [] i

/-- A server of secrets that refuses the first request. -/
def refusedOnceSecret (i : ℕ) : (o : SecretOp) → o.Resp
  | .get _ => refusedOnce { metadata := {}, data := none } i
  | .patch _ _ => refusedOnce { metadata := { resourceVersion := some "7" }, data := none } i

theorem patch_loops_agree_refused_once :
    ∃ n out, ((patchWithRetry ⟨"team", "app"⟩ .null).run.play refusedOnceConfig 0).1 =
        List.replicate n (.patch ⟨"team", "app"⟩ .null) ∧
      ((patchSecretWithRetry ⟨"team", "db"⟩ 3 []).run.play refusedOnceSecret 0).1 =
        List.replicate n (.patch ⟨"team", "db"⟩ (buildSecretPatch ⟨"team", "db"⟩ 3 [])) ∧
      (∀ out', Reports ((patchWithRetry ⟨"team", "app"⟩ .null).run.play refusedOnceConfig 0).2 out' ↔
        out' = out) ∧
      (∀ out', Reports ((patchSecretWithRetry ⟨"team", "db"⟩ 3 []).run.play refusedOnceSecret 0).2 out' ↔
        out' = out) ∧
      RetrySpec (fun i => configReply (refusedOnceConfig i (.patch ⟨"team", "app"⟩ .null)))
        RETRY_DELAYS_MS.length n out :=
  patch_loops_agree ⟨"team", "app"⟩ ⟨"team", "db"⟩ .null 3 [] refusedOnceConfig refusedOnceSecret fun i => by
    cases i <;> rfl

end Konfig
