import Konfig.ApplyRace
import Konfig.Service.Charges

/-!
# How fast a tenant writes

Calls of every kind and of every identity run against one apply limiter with an enforced
limit.  The limiter bounds the writes by the time of the admission that paid for them, and
not by their own (`writes_can_pile_up`).

* `spent_of_run`: the tokens that an identity is granted in a window.
* `charge_of_run`: a call writes no more objects than it was granted tokens.
* `writes_rate_bounded`: the objects written by the calls admitted in a window.
-/

namespace Konfig

open Lib

section Limiter

/-! ### What an identity is granted -/

/-- The calls that `identity` has admitted in the window `[u, v]`, with their costs. -/
def admitted (identity : String) (u v : ℚ) (log : List (ℚ × ServiceEvent)) : List (Nat × UInt32) :=
  log.filterMap fun (t, e) =>
    if u ≤ t ∧ t ≤ v then
      (e.op.granted e.resp).bind fun (id, cost) => if id = identity then some (e.pid, cost) else none
    else none

/-- The tokens granted in the window. -/
def grantedTokens (identity : String) (u v : ℚ) (log : List (ℚ × ServiceEvent)) : ℚ :=
  ((admitted identity u v log).map fun a => amount a.2).sum

theorem grantedTokens_snoc (identity : String) (u v : ℚ) (log : List (ℚ × ServiceEvent))
    (x : ℚ × ServiceEvent) :
    grantedTokens identity u v (log ++ [x]) =
      grantedTokens identity u v log + grantedTokens identity u v [x] := by
  unfold grantedTokens admitted
  rw [List.filterMap_append, List.map_append, List.sum_append]

theorem grantedTokens_other {identity : String} {u v t : ℚ} {e : ServiceEvent}
    (h : ∀ cost, e.op.granted e.resp ≠ some (identity, cost)) :
    grantedTokens identity u v [(t, e)] = 0 := by
  cases hg : e.op.granted e.resp with
  | none => simp [grantedTokens, admitted, hg]
  | some a =>
    obtain ⟨id, cost⟩ := a
    have hid : id ≠ identity := by
      rintro rfl
      exact h cost hg
    simp [grantedTokens, admitted, hg, hid]

theorem grantedTokens_granted {identity : String} {u v t : ℚ} {e : ServiceEvent} {cost : UInt32}
    (h : e.op.granted e.resp = some (identity, cost)) :
    grantedTokens identity u v [(t, e)] = if u ≤ t ∧ t ≤ v then amount cost else 0 := by
  by_cases hwin : u ≤ t ∧ t ≤ v
  · simp [grantedTokens, admitted, h, hwin]
  · rw [if_neg hwin]
    simp [grantedTokens, admitted, hwin]

/-! ### Calls against one limiter -/

/-- The clock and the limiter, and the readings of the clock at the operations so far. -/
structure Limits where
  now : ℚ
  limiter : ApplyLimiter
  times : List ℚ

variable [JsonSchema]

/-- An operation is answered at a later reading of the clock.  `apply_admission` is what
it is, with the quota of `srv`; nothing is said of the other responses. -/
inductive Limits.Answers (srv : KonfigServer) (s : Limits) : (o : ServiceOp) → o.Resp → Limits → Prop
  | admission {identity : String} {cost : UInt32} {now : ℚ} {outcome : ApplyOutcome}
      {limiter : ApplyLimiter} (hnow : s.now ≤ now)
      (h : applyAdmission s.limiter srv.quotaTable srv.quotaSynced srv.quotaMode
        srv.defaultMaxAppliesPerSecond identity cost now = (outcome, limiter)) :
      Answers srv s (.applyAdmission identity cost) outcome ⟨now, limiter, s.times ++ [now]⟩
  | other {o : ServiceOp} {r : o.Resp} {now : ℚ} (hnow : s.now ≤ now) (h : o.isAdmission = false) :
      Answers srv s o r ⟨now, s.limiter, s.times ++ [now]⟩

variable {srv : KonfigServer} {identity : String} {rate burst : UInt32} {u v spent : ℚ} {s s' : Limits}

theorem Limits.Answers.times_eq {o : ServiceOp} {r : o.Resp} (h : s.Answers srv o r s') :
    s'.times = s.times ++ [s'.now] := by
  cases h <;> rfl

/-- One operation takes from the bucket what it is granted. -/
theorem spent_of_answers (hmode : srv.quotaMode = .enforce)
    (heff : effectiveApplyRate srv.quotaTable srv.quotaSynced srv.defaultMaxAppliesPerSecond identity =
      (rate, burst)) (hrate : rate ≠ 0)
    (h : Bucket.Spent (amount rate) (amount burst) u v spent s.now (s.limiter.lookup identity))
    {e : ServiceEvent} (hans : s.Answers srv e.op e.resp s') :
    Bucket.Spent (amount rate) (amount burst) u v (spent + grantedTokens identity u v [(s'.now, e)]) s'.now
      (s'.limiter.lookup identity) := by
  obtain ⟨i, o, r⟩ := e
  cases hans with
  | other hnow hother =>
    rw [grantedTokens_other fun cost => by rw [granted_other hother]; nofun, add_zero]
    exact h.advance hnow
  | @admission id cost now _ limiter hnow hadm =>
    by_cases hid : id = identity
    · subst hid
      have hspent := (h.advance hnow).acquire (amount cost) (amount_nonneg _) (amount_nonneg _)
      rw [hmode, applyAdmission_enforce heff hrate] at hadm
      obtain ⟨rfl, rfl⟩ := Prod.mk.inj hadm
      rw [AList.lookup_insert]
      by_cases hok : (Bucket.acquire (amount rate) (amount burst) (amount cost) now
          (s.limiter.lookup id)).1 = true
      · simp only [hok, true_and, if_true] at hspent ⊢
        rw [grantedTokens_granted rfl]
        exact hspent
      · simp only [hok, false_and, if_false, Bool.false_eq_true] at hspent ⊢
        rw [grantedTokens_other (e := ⟨i, .applyAdmission id cost, .denied rate burst⟩) fun _ => nofun]
        exact hspent
    · have hlim : limiter = (applyAdmission s.limiter srv.quotaTable srv.quotaSynced srv.quotaMode
          srv.defaultMaxAppliesPerSecond id cost now).2 := by rw [hadm]
      rw [grantedTokens_other ?_, add_zero]
      · rw [hlim, lookup_applyAdmission_ne (Ne.symm hid)]
        exact h.advance hnow
      · intro cost' hg
        exact hid (congrArg Prod.fst (granted_admission hg)).symm

section Run

variable {α : Type} {s₀ : Limits} {ps : List (Proc ServiceOp ServiceOp.Resp α)} {tr : List ServiceEvent}
  {c : Limits × List (Proc ServiceOp ServiceOp.Resp α)}

theorem times_length (hstart : s₀.times = []) (hrun : Run (Limits.Answers srv) (s₀, ps) tr c) :
    c.1.times.length = tr.length := by
  induction hrun with
  | nil => rw [hstart]; rfl
  | snoc _ hs ih =>
    cases hs with
    | call _ hans => rw [hans.times_eq, List.length_append, List.length_append, ih]; rfl

/-- **In every run the tokens granted in a window were there to be granted.** -/
theorem spent_of_run (hmode : srv.quotaMode = .enforce)
    (heff : effectiveApplyRate srv.quotaTable srv.quotaSynced srv.defaultMaxAppliesPerSecond identity =
      (rate, burst)) (hrate : rate ≠ 0) (hstart : s₀.times = [])
    (hclock : ∀ b, s₀.limiter.lookup identity = some b → b.last ≤ s₀.now) (huv : u ≤ v)
    (hrun : Run (Limits.Answers srv) (s₀, ps) tr c) :
    Bucket.Spent (amount rate) (amount burst) u v (grantedTokens identity u v (c.1.times.zip tr)) c.1.now
      (c.1.limiter.lookup identity) := by
  induction hrun with
  | nil =>
    rw [List.zip_nil_right]
    exact Bucket.spent_zero (amount_nonneg _) (amount_nonneg _) huv hclock
  | @snoc tr c c' e hrun hs ih =>
    have hlen := times_length hstart hrun
    cases hs with
    | call _ hans =>
      rw [hans.times_eq, List.zip_append hlen, List.zip_cons_cons, List.zip_nil_right, grantedTokens_snoc]
      exact spent_of_answers hmode heff hrate ih hans

end Run

/-! ### Calls of every kind -/

section Pool

/-- A call, on the server as it is when the call starts. -/
structure Invocation where
  srv : KonfigServer
  caller : Caller
  rpc : Rpc

def Invocation.start [SerdeYaml] [SerdeJson] [SecretYaml] (call : Invocation) :
    Proc ServiceOp ServiceOp.Resp (Except Status Unit) :=
  (call.srv.call call.caller call.rpc).run

variable [SerdeYaml] [SerdeJson] [SecretYaml] {calls : List Invocation} {s₀ : Limits}
  {tr : List ServiceEvent} {c c' : Limits × List (Proc ServiceOp ServiceOp.Resp (Except Status Unit))}
  {e : ServiceEvent}

/-- Batches are cut by the message size of the wire, which is 4 MiB. -/
def OnWire (calls : List Invocation) : Prop :=
  ∀ call ∈ calls, ∀ items, call.rpc = .batchApply items → items.length < 2 ^ 32

/-- Every operation of a run is one that its call has paid for. -/
theorem covers_of_step (hwire : OnWire calls)
    (hrun : Run (Limits.Answers srv) (s₀, calls.map Invocation.start) tr c)
    (hs : Step (Limits.Answers srv) c e c') : ∃ call, calls[e.pid]? = some call ∧
      Charge.Covers call.caller call.rpc (charge e.pid tr) e.op := by
  have hlt : e.pid < calls.length := by
    have := hs.pid_lt
    rwa [hrun.length_eq, List.length_map] at this
  refine ⟨calls[e.pid], List.getElem?_eq_getElem hlt, hrun.pre_at (fun p hp => ?_) hs⟩
  rw [List.getElem?_map, List.getElem?_eq_getElem hlt] at hp
  cases hp
  exact call_charged (hwire _ (List.getElem_mem hlt))

theorem covers_of_split (hwire : OnWire calls)
    (hrun : Run (Limits.Answers srv) (s₀, calls.map Invocation.start) tr c) {tr₁ tr₂ : List ServiceEvent}
    (htr : tr = tr₁ ++ e :: tr₂) {call : Invocation} (hcall : calls[e.pid]? = some call) :
    Charge.Covers call.caller call.rpc (charge e.pid tr₁) e.op := by
  obtain ⟨c₁, c₂, hrun₁, hs⟩ := hrun.split htr
  obtain ⟨call', hcall', hcov⟩ := covers_of_step hwire hrun₁ hs
  rw [hcall] at hcall'
  cases hcall'
  exact hcov

/-- A call writes no more than what it was granted. -/
theorem charge_of_run (hwire : OnWire calls)
    (hrun : Run (Limits.Answers srv) (s₀, calls.map Invocation.start) tr c) :
    (∀ i n, (charge i tr).paid = some n → (charge i tr).targets.card ≤ n) ∧
      ∀ a ∈ tr, ∀ identity cost, a.op.granted a.resp = some (identity, cost) →
        (charge a.pid tr).paid = some cost.toNat := by
  induction hrun with
  | nil =>
    refine ⟨fun i n hn => ?_, fun a ha => absurd ha List.not_mem_nil⟩
    cases hn
  | @snoc tr c c' e hrun hs ih =>
    obtain ⟨call, _, hcov⟩ := covers_of_step hwire hrun hs
    refine ⟨fun i n hn => ?_, fun a ha identity cost hg => ?_⟩
    · rw [charge_snoc] at hn ⊢
      by_cases hi : e.pid = i
      · subst hi
        rw [if_pos rfl] at hn ⊢
        exact hcov.card_le (ih.1 e.pid) n hn
      · rw [if_neg hi] at hn ⊢
        exact ih.1 i n hn
    · rw [charge_snoc]
      rcases List.mem_append.mp ha with ha | ha
      · have hpaid := ih.2 a ha identity cost hg
        by_cases hi : e.pid = a.pid
        · rw [if_pos hi]
          rw [← hi] at hpaid ⊢
          exact hcov.paid_upd hpaid
        · rw [if_neg hi]
          exact hpaid
      · obtain rfl := List.mem_singleton.mp ha
        rw [if_pos rfl]
        exact Charge.paid_of_granted hg

theorem written_le {identity : String} (hwire : OnWire calls)
    (hrun : Run (Limits.Answers srv) (s₀, calls.map Invocation.start) tr c) {u v : ℚ} {a : Nat × UInt32}
    (ha : a ∈ admitted identity u v (c.1.times.zip tr)) : ((written a.1 tr).card : ℚ) ≤ amount a.2 := by
  obtain ⟨⟨t, e⟩, hmem, hsel⟩ := List.mem_filterMap.mp ha
  have he : e ∈ tr := (List.of_mem_zip hmem).2
  dsimp only at hsel
  split at hsel
  · obtain ⟨⟨id, cost⟩, hg, hid⟩ := Option.bind_eq_some_iff.mp hsel
    split at hid
    · cases hid
      obtain ⟨hcard, hpaid⟩ := charge_of_run hwire hrun
      have hle := hcard e.pid _ (hpaid e he id cost hg)
      rw [charge_targets] at hle
      exact Nat.cast_le.mpr hle
    · cases hid
  · cases hsel

/-- **The writes of the calls admitted in a window are bounded**, and a call that takes
tokens is admitted before it writes. -/
theorem writes_rate_bounded {identity : String} {q : TenantQuota} (hmode : srv.quotaMode = .enforce)
    (hsync : srv.quotaSynced = true) (hq : srv.quotaTable.quotaFor identity = some q)
    (hrate : q.maxAppliesPerSecond ≠ 0) (hwire : OnWire calls) (hstart : s₀.times = [])
    (hclock : ∀ b, s₀.limiter.lookup identity = some b → b.last ≤ s₀.now)
    (hrun : Run (Limits.Answers srv) (s₀, calls.map Invocation.start) tr c) :
    (∀ tr₁ e tr₂ t call, tr = tr₁ ++ e :: tr₂ → e.op.writes = some t → calls[e.pid]? = some call →
      call.caller.identity.id = identity → call.rpc.isRevert = false →
      ∃ a ∈ tr₁, a.pid = e.pid ∧ ∃ cost, a.op.granted a.resp = some (identity, cost)) ∧
    ∀ u v, u ≤ v → ((admitted identity u v (c.1.times.zip tr)).map fun a =>
      ((written a.1 tr).card : ℚ)).sum ≤ amount q.burst + amount q.maxAppliesPerSecond * (v - u) := by
  constructor
  · rintro tr₁ e tr₂ t call htr hw hcall rfl hrevert
    have hcov := covers_of_split hwire hrun htr hcall
    obtain ⟨a, ha, hpid, id, cost, hg⟩ := granted_of_paid (hcov.paid t hw hrevert)
    -- the grant is an admission of the same caller
    obtain ⟨x, y, htr₁⟩ := List.append_of_mem ha
    rw [htr₁, List.append_assoc, List.cons_append] at htr
    have hid := (covers_of_split hwire hrun htr (by rw [hpid]; exact hcall)).granted hg
    exact ⟨a, ha, hpid, cost, by rw [← hid]; exact hg⟩
  · intro u v huv
    have heff := effectiveApplyRate_of_quota hq hrate srv.defaultMaxAppliesPerSecond
    rw [← hsync] at heff
    refine (List.sum_le_sum fun a ha => written_le hwire hrun ha).trans ?_
    exact (spent_of_run hmode heff hrate hstart hclock huv hrun).le

end Pool

end Limiter

/-! ### Two calls -/

section TwoCalls

local instance limitedSchemas : JsonSchema := noSchemas

local instance limitedDocuments : SerdeYaml := twoDocuments

local instance limitedText : SerdeJson := noText

local instance limitedYaml : SecretYaml := demoYaml

def tenant : Caller where
  identity := ⟨"spiffe://konfig/client/strategy-a", false⟩
  addr := "10.0.0.2:5443"
  requestId := "18"
  traceparent := none

/-- One apply per second, one at a time. -/
def oneApply : TenantQuota :=
  { maxSubscribers := 0, maxAppliesPerSecond := 1, maxAppliesBurst := 1, cacheMemoryBudgetBytes := 0 }

def limitedServer : KonfigServer where
  draining := false
  authzMode := .disabled
  aclTable := ∅
  aclSynced := true
  schemaTable := ∅
  quotaMode := .enforce
  quotaTable := QuotaTable.publish [⟨tenant.identity.id, oneApply⟩]
  quotaSynced := true
  defaultMaxSubscribers := 0
  defaultMaxAppliesPerSecond := 0
  k8sEvents := false

def limitedApply (key : Key) : Invocation := ⟨limitedServer, tenant, .apply ⟨key, "schema_version: 5"⟩⟩

def venuesKey : Key := ⟨"trading", "venues"⟩

/-- The patch of a new config. -/
def firstPatch (key : Key) : ServiceOp := .kube (.patch key (patchBody key ⟨5, defaultContent⟩ none))

/-- A limited `Apply` is admitted, reads that there is no config, and patches it. -/
theorem limitedApply_start (key : Key) :
    ∃ k, (limitedApply key).start = .call (.applyAdmission tenant.identity.id 1) k ∧
      ∃ k', k .allowed = .call (.kube (.get key)) k' ∧
        ∃ k'', k' (.error notFound) = .call (firstPatch key) k'' := by
  have hyaml : SerdeYaml.fromStr "schema_version: 5" = .ok ⟨5, defaultContent⟩ := rfl
  obtain ⟨l, hl, l', hl'⟩ := handleApply_new hyaml (by decide) key
  refine ⟨_, rfl, ?_⟩
  show ∃ k', ((((handleApply ∅ ⟨key, "schema_version: 5"⟩ none).run.embed ServiceOp.kube _).bind
    _).bind _).bind _ = .call _ k' ∧ _
  rw [hl]
  refine ⟨_, rfl, ?_⟩
  show ∃ k'', ((((l (.error notFound)).embed ServiceOp.kube _).bind _).bind _).bind _ = .call _ k''
  rw [hl']
  exact ⟨_, rfl⟩

def idleLimits : Limits := { now := 0, limiter := ∅, times := [] }

theorem idleLimits_clock (identity : String) :
    ∀ b, idleLimits.limiter.lookup identity = some b → b.last ≤ idleLimits.now := by
  intro b hb
  cases hb

/-- The limiter after an admission at `0`, and after another one second later. -/
def limiterOnce : ApplyLimiter :=
  (applyAdmission ∅ limitedServer.quotaTable true .enforce 0 tenant.identity.id 1 0).2

def limiterTwice : ApplyLimiter :=
  (applyAdmission limiterOnce limitedServer.quotaTable true .enforce 0 tenant.identity.id 1 1).2

theorem first_allowed :
    applyAdmission ∅ limitedServer.quotaTable true .enforce 0 tenant.identity.id 1 0 = (.allowed, limiterOnce) :=
  Prod.ext (by decide +kernel) rfl

theorem second_allowed :
    applyAdmission limiterOnce limitedServer.quotaTable true .enforce 0 tenant.identity.id 1 1 =
      (.allowed, limiterTwice) :=
  Prod.ext (by decide +kernel) rfl

/-- The objects that the calls of `identity` attempt to write in the window. -/
def writtenIn (calls : List Invocation) (identity : String) (u v : ℚ) (log : List (ℚ × ServiceEvent)) :
    Finset Target :=
  (log.filterMap fun (t, e) =>
    if u ≤ t ∧ t ≤ v ∧ calls[e.pid]?.map (·.caller.identity.id) = some identity then e.op.writes
    else none).toFinset

/-- Two calls: admitted at `0` and at `1`, and both written at `1`. -/
def twiceTrace : List ServiceEvent :=
  [⟨0, .applyAdmission tenant.identity.id 1, .allowed⟩, ⟨1, .applyAdmission tenant.identity.id 1, .allowed⟩,
    ⟨0, .kube (.get limitsKey), .error notFound⟩, ⟨1, .kube (.get venuesKey), .error notFound⟩,
    ⟨0, firstPatch limitsKey, .error notFound⟩, ⟨1, firstPatch venuesKey, .error notFound⟩]

def twiceCalls : List Invocation := [limitedApply limitsKey, limitedApply venuesKey]

theorem twiceCalls_onWire : OnWire twiceCalls := by
  intro call hcall items hitems
  rcases List.mem_pair.mp hcall with rfl | rfl
  · cases hitems
  · cases hitems

theorem twice_run : ∃ c, Run (Limits.Answers limitedServer) (idleLimits, twiceCalls.map Invocation.start)
    twiceTrace c ∧ c.1.times = [0, 1, 1, 1, 1, 1] := by
  obtain ⟨k, hk, k', hk', k'', hk''⟩ := limitedApply_start limitsKey
  obtain ⟨l, hl, l', hl', l'', hl''⟩ := limitedApply_start venuesKey
  have h1 : Step (Limits.Answers limitedServer) (idleLimits, twiceCalls.map Invocation.start)
      ⟨0, .applyAdmission tenant.identity.id 1, .allowed⟩
      (⟨0, limiterOnce, [0]⟩, [k .allowed, (limitedApply venuesKey).start]) :=
    .call (k := k) (by simp [twiceCalls, hk]) (.admission le_rfl first_allowed)
  have h2 : Step (Limits.Answers limitedServer)
      (⟨0, limiterOnce, [0]⟩, [k .allowed, (limitedApply venuesKey).start])
      ⟨1, .applyAdmission tenant.identity.id 1, .allowed⟩
      (⟨1, limiterTwice, [0, 1]⟩, [k .allowed, l .allowed]) :=
    .call (k := l) (by simp [hl]) (.admission zero_le_one second_allowed)
  have h3 : Step (Limits.Answers limitedServer) (⟨1, limiterTwice, [0, 1]⟩, [k .allowed, l .allowed])
      ⟨0, .kube (.get limitsKey), .error notFound⟩
      (⟨1, limiterTwice, [0, 1, 1]⟩, [k' (.error notFound), l .allowed]) :=
    .call (k := k') (by simp [hk']) (.other le_rfl rfl)
  have h4 : Step (Limits.Answers limitedServer)
      (⟨1, limiterTwice, [0, 1, 1]⟩, [k' (.error notFound), l .allowed])
      ⟨1, .kube (.get venuesKey), .error notFound⟩
      (⟨1, limiterTwice, [0, 1, 1, 1]⟩, [k' (.error notFound), l' (.error notFound)]) :=
    .call (k := l') (by simp [hl']) (.other le_rfl rfl)
  have h5 : Step (Limits.Answers limitedServer)
      (⟨1, limiterTwice, [0, 1, 1, 1]⟩, [k' (.error notFound), l' (.error notFound)])
      ⟨0, firstPatch limitsKey, .error notFound⟩
      (⟨1, limiterTwice, [0, 1, 1, 1, 1]⟩, [k'' (.error notFound), l' (.error notFound)]) :=
    .call (k := k'') (by simp [hk'']) (.other le_rfl rfl)
  have h6 : Step (Limits.Answers limitedServer)
      (⟨1, limiterTwice, [0, 1, 1, 1, 1]⟩, [k'' (.error notFound), l' (.error notFound)])
      ⟨1, firstPatch venuesKey, .error notFound⟩
      (⟨1, limiterTwice, [0, 1, 1, 1, 1, 1]⟩, [k'' (.error notFound), l'' (.error notFound)]) :=
    .call (k := l'') (by simp [hl'']) (.other le_rfl rfl)
  exact ⟨_, (((((Run.nil.snoc h1).snoc h2).snoc h3).snoc h4).snoc h5).snoc h6, rfl⟩

/-- Two calls, the second one admitted after the refill: the objects are as in `writes_rate_bounded`,
and the two writes are at the bound. -/
theorem writes_rate_bounded_twice : ∃ c,
    Run (Limits.Answers limitedServer) (idleLimits, twiceCalls.map Invocation.start) twiceTrace c ∧
    written 0 twiceTrace = {.config limitsKey} ∧ written 1 twiceTrace = {.config venuesKey} ∧
    (admitted tenant.identity.id 0 1 (c.1.times.zip twiceTrace)).length = 2 ∧
    ((admitted tenant.identity.id 0 1 (c.1.times.zip twiceTrace)).map fun a =>
      ((written a.1 twiceTrace).card : ℚ)).sum ≤
        amount oneApply.burst + amount oneApply.maxAppliesPerSecond * (1 - 0) := by
  obtain ⟨c, hrun, htimes⟩ := twice_run
  have hadmitted : (admitted tenant.identity.id 0 1 (c.1.times.zip twiceTrace)).length = 2 := by
    rw [htimes]
    decide +kernel
  refine ⟨c, hrun, by decide, by decide, hadmitted, ?_⟩
  exact (writes_rate_bounded (q := oneApply) rfl rfl rfl (by decide) twiceCalls_onWire rfl
    (idleLimits_clock _) hrun).2 0 1 zero_le_one

/-- **Writes can pile up**: with one apply per second, one at a time, two objects are
written at one instant. -/
theorem writes_can_pile_up :
    ¬ ∀ (srv : KonfigServer) (identity : String) (q : TenantQuota) (calls : List Invocation)
      (s₀ : Limits) tr c u v,
      srv.quotaMode = .enforce → srv.quotaSynced = true → srv.quotaTable.quotaFor identity = some q →
      q.maxAppliesPerSecond ≠ 0 → OnWire calls → s₀.times = [] →
      (∀ b, s₀.limiter.lookup identity = some b → b.last ≤ s₀.now) →
      Run (Limits.Answers srv) (s₀, calls.map Invocation.start) tr c → u ≤ v →
      ((writtenIn calls identity u v (c.1.times.zip tr)).card : ℚ) ≤
        amount q.burst + amount q.maxAppliesPerSecond * (v - u) := by
  intro hall
  obtain ⟨c, hrun, htimes⟩ := twice_run
  have hle := hall limitedServer tenant.identity.id oneApply twiceCalls idleLimits twiceTrace c 1 1 rfl rfl rfl
    (by decide) twiceCalls_onWire rfl (idleLimits_clock _) hrun le_rfl
  have hcard : (writtenIn twiceCalls tenant.identity.id 1 1
      ([0, 1, 1, 1, 1, 1].zip twiceTrace)).card = 2 := by decide +kernel
  rw [htimes, hcard] at hle
  revert hle
  decide +kernel

end TwoCalls

end Konfig
