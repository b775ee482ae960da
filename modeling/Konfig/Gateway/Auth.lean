import Konfig.Service.RequestId

/-!
# The bearer gate

`check_auth` of `grpc/http_gateway.rs`: the `Authorization` header is read as ASCII text,
its scheme is compared without regard to case, the rest is trimmed and compared with the
configured token by a fold over all bytes.  What is missing or unreadable on the way
counts as the empty token.

* `tokensMatch_iff`: the fold decides equality.
* `stripBearerPrefix_eq_some`: which values carry a bearer token.
* `bearer_gate_exact`: who is authorized.
* `checkAuth_eq_some`: what everyone else is answered.

The check of `HeaderValue::from_str` on the configured origin is a parameter.
-/

namespace Konfig

open Lib

/-! ### The gate -/

/-- What the gate reads of the configuration. -/
structure HttpGatewayConfig where
  authToken : Option String
  corsAllowOrigin : Option String
  insecure : Bool

/-- Header names in lower case, with their values in order. -/
abbrev HeaderMap := List (String × ByteString)

def AUTHORIZATION : String := "authorization"

structure HttpResponse where
  status : Nat
  headers : List (String × String)
  body : List UInt8
  deriving DecidableEq, Repr

/-- `str::trim_start`. -/
def trimStart (s : String) : String := String.ofList (s.toList.dropWhile isWhitespace)

/-- `str::eq_ignore_ascii_case`. -/
def eqIgnoreAsciiCase (s t : String) : Bool := toAsciiLowercase s == toAsciiLowercase t

/-- Every byte is looked at. -/
def tokensMatch (provided expected : String) : Bool :=
  let a := utf8 provided
  let b := utf8 expected
  if a.length ≠ b.length then false
  else (a.zip b).foldl (fun diff (x, y) => diff ||| (x ^^^ y)) 0 == 0

def stripBearerPrefix (value : String) : Option String :=
  match splitOnce (trimStart value) ' ' with
  | none => none
  | some (scheme, token) => if eqIgnoreAsciiCase scheme "Bearer" then some token else none

/-- `error_body`; strings always serialise. -/
def errorBody (code message : String) : List UInt8 :=
  utf8 (Value.object [("code", .string code), ("message", .string message)]).render

section

variable (validValue : String → Bool)

/-- The headers that `with_cors` adds, unless one is refused. -/
def withCors (cfg : HttpGatewayConfig) (headers : List (String × String)) : Option (List (String × String)) :=
  match cfg.corsAllowOrigin with
  | none => some headers
  | some origin =>
    if origin = "" then some headers
    else if validValue origin then
      some (headers ++ [("access-control-allow-origin", origin), ("vary", "origin")])
    else none

/-- A response that cannot be built is a bare `500`. -/
def jsonResponse (cfg : HttpGatewayConfig) (status : Nat) (body : List UInt8) : HttpResponse :=
  match withCors validValue cfg [("content-type", "application/json")] with
  | some headers => { status, headers, body }
  | none => { status := 500, headers := [], body := [] }

/-- `None` when authorized. -/
def checkAuth (cfg : HttpGatewayConfig) (headers : HeaderMap) : Option HttpResponse :=
  if cfg.insecure then none
  else
    let expected := cfg.authToken.getD ""
    let provided :=
      ((((headers.lookup AUTHORIZATION).bind toStr).bind stripBearerPrefix).map trim).getD ""
    if expected ≠ "" ∧ tokensMatch provided expected then none
    else some (jsonResponse validValue cfg 401
      (errorBody "unauthenticated" "missing or invalid bearer token"))

end

/-! ### The fold -/

theorem utf8_injective : Function.Injective utf8 := by
  intro s t h
  have hs := fromUtf8_utf8 s
  rw [h, fromUtf8_utf8] at hs
  exact (Option.some.inj hs).symm

/-- A difference never goes away again. -/
theorem foldl_diff_eq_zero (ps : List (UInt8 × UInt8)) (diff : UInt8) :
    ps.foldl (fun diff (x, y) => diff ||| (x ^^^ y)) diff = 0 ↔ diff = 0 ∧ ∀ p ∈ ps, p.1 = p.2 := by
  induction ps generalizing diff with
  | nil => simp
  | cons p ps ih =>
    rw [List.foldl_cons, ih, UInt8.or_eq_zero_iff, UInt8.xor_eq_zero_iff, List.forall_mem_cons, and_assoc]

theorem zip_all_eq {α : Type} : ∀ {a b : List α}, a.length = b.length →
    ((∀ p ∈ a.zip b, p.1 = p.2) ↔ a = b) := by
  intro a
  induction a with
  | nil =>
    intro b h
    obtain rfl := List.length_eq_zero_iff.mp h.symm
    simp
  | cons x a ih =>
    intro b h
    cases b with
    | nil => cases h
    | cons y b =>
      rw [List.zip_cons_cons, List.forall_mem_cons, ih (Nat.succ.inj h), List.cons.injEq]

/-- **The fold decides equality.** -/
theorem tokensMatch_iff (provided expected : String) :
    tokensMatch provided expected = true ↔ provided = expected := by
  unfold tokensMatch
  dsimp only
  split
  · rename_i hlen
    refine iff_of_false Bool.false_ne_true fun he => hlen ?_
    rw [he]
  · rename_i hlen
    rw [beq_iff_eq, foldl_diff_eq_zero, zip_all_eq (not_not.mp hlen), utf8_injective.eq_iff]
    simp

/-! ### The scheme -/

/-- The word `bearer`, each letter in either case. -/
def IsBearer (scheme : List Char) : Prop :=
  List.Forall₂ (fun c letter => c = letter ∨ c = letter.toUpper) scheme "bearer".toList

instance (scheme : List Char) : Decidable (IsBearer scheme) := by
  unfold IsBearer
  infer_instance

theorem toNat_toLower (c : Char) :
    c.toLower.toNat = if 65 ≤ c.toNat ∧ c.toNat ≤ 90 then c.toNat + 32 else c.toNat := by
  have hupper : c.val ≥ 'A'.val ∧ c.val ≤ 'Z'.val ↔ 65 ≤ c.toNat ∧ c.toNat ≤ 90 := Iff.rfl
  unfold Char.toLower
  by_cases h : 65 ≤ c.toNat ∧ c.toNat ≤ 90
  · rw [dif_pos (hupper.mpr h), if_pos h]
    change (c.val + 32).toNat = c.val.toNat + 32
    have hle : c.val.toNat ≤ 90 := h.2
    rw [UInt32.toNat_add, Nat.mod_eq_of_lt (by simp; omega)]
    rfl
  · rw [dif_neg (mt hupper.mp h), if_neg h]

theorem toNat_toUpper {c : Char} (h : 97 ≤ c.toNat ∧ c.toNat ≤ 122) : c.toUpper.toNat = c.toNat - 32 := by
  have hshift : ('A'.val - 'a'.val).toNat = 2 ^ 32 - 32 := by decide
  unfold Char.toUpper
  rw [dif_pos (show 'a'.val ≤ c.val ∧ c.val ≤ 'z'.val from h)]
  obtain ⟨hge, hle⟩ : 97 ≤ c.val.toNat ∧ c.val.toNat ≤ 122 := h
  change (c.val + ('A'.val - 'a'.val)).toNat = c.val.toNat - 32
  rw [UInt32.toNat_add, hshift]
  omega

theorem toLower_eq_iff {c letter : Char} (h : 97 ≤ letter.toNat ∧ letter.toNat ≤ 122) :
    c.toLower = letter ↔ c = letter ∨ c = letter.toUpper := by
  rw [← Char.toNat_inj, ← Char.toNat_inj, ← Char.toNat_inj, toNat_toLower, toNat_toUpper h]
  split <;> omega

/-- A text that is `word` in lower case. -/
theorem map_toLower_eq_iff {word : List Char} (hword : ∀ letter ∈ word, 97 ≤ letter.toNat ∧ letter.toNat ≤ 122) :
    ∀ cs : List Char, cs.map Char.toLower = word ↔
      List.Forall₂ (fun c letter => c = letter ∨ c = letter.toUpper) cs word := by
  induction word with
  | nil =>
    intro cs
    simp
  | cons letter word ih =>
    intro cs
    cases cs with
    | nil => simp
    | cons c cs =>
      rw [List.map_cons, List.cons.injEq, List.forall₂_cons, toLower_eq_iff (hword letter List.mem_cons_self),
        ih (fun l hl => hword l (List.mem_cons_of_mem letter hl)) cs]

theorem bearer_letters : ∀ letter ∈ "bearer".toList, 97 ≤ letter.toNat ∧ letter.toNat ≤ 122 := by
  rw [show "bearer".toList = ['b', 'e', 'a', 'r', 'e', 'r'] from rfl]
  simp

theorem isBearer_iff (scheme : String) :
    eqIgnoreAsciiCase scheme "Bearer" = true ↔ IsBearer scheme.toList := by
  have hword : "Bearer".toList.map Char.toLower = "bearer".toList := by decide
  rw [eqIgnoreAsciiCase, beq_iff_eq, toAsciiLowercase, toAsciiLowercase, String.ofList_inj, hword]
  exact map_toLower_eq_iff bearer_letters scheme.toList

theorem IsBearer.letters {scheme : List Char} (h : IsBearer scheme) :
    ∀ c ∈ scheme, 65 ≤ c.toNat ∧ c.toNat ≤ 122 := by
  intro c hc
  have hword := (map_toLower_eq_iff bearer_letters scheme).mpr h
  have hletter := bearer_letters c.toLower (hword ▸ List.mem_map_of_mem hc)
  rw [toNat_toLower] at hletter
  split at hletter <;> omega

theorem not_isWhitespace_letter {c : Char} (h : 65 ≤ c.toNat ∧ c.toNat ≤ 122) : isWhitespace c = false := by
  unfold isWhitespace
  simp only [Bool.or_eq_false_iff, Bool.and_eq_false_iff, decide_eq_false_iff_not]
  omega

theorem IsBearer.ne_nil {scheme : List Char} (h : IsBearer scheme) : scheme ≠ [] := by
  rintro rfl
  exact absurd h.length_eq (by decide)

/-! ### The header -/

/-- The bearer token of a header: white space, the scheme, one space, the rest. -/
def BearerText (text : String) (rest : List Char) : Prop :=
  ∃ spaces scheme, text.toList = spaces ++ (scheme ++ ' ' :: rest) ∧
    (∀ c ∈ spaces, isWhitespace c = true) ∧ IsBearer scheme

theorem stripBearerPrefix_eq_some {text rest : String} :
    stripBearerPrefix text = some rest ↔ BearerText text rest.toList := by
  unfold stripBearerPrefix BearerText
  constructor
  · intro h
    split at h
    · cases h
    · rename_i scheme token hsplit
      split at h
      · rename_i hscheme
        cases h
        obtain ⟨htext, _⟩ := splitOnce_eq_some.mp hsplit
        rw [trimStart, String.toList_ofList] at htext
        refine ⟨text.toList.takeWhile isWhitespace, scheme.toList, ?_, ?_, (isBearer_iff scheme).mp hscheme⟩
        · rw [← htext, List.takeWhile_append_dropWhile]
        · exact fun c hc => List.mem_takeWhile_imp hc
      · cases h
  · rintro ⟨spaces, scheme, htext, hspaces, hscheme⟩
    obtain ⟨c, cs, rfl⟩ := List.exists_cons_of_ne_nil hscheme.ne_nil
    have hstart : trimStart text = String.ofList (c :: cs ++ ' ' :: rest.toList) := by
      rw [trimStart, htext, List.dropWhile_append_of_pos hspaces, List.cons_append,
        List.dropWhile_cons_of_neg
          (by rw [not_isWhitespace_letter (hscheme.letters c List.mem_cons_self)]; exact Bool.false_ne_true)]
    have hspace : ' ' ∉ c :: cs := by
      intro hin
      have hletter := hscheme.letters ' ' hin
      exact absurd hletter.1 (by decide)
    have hsplit : splitOnce (trimStart text) ' ' = some (String.ofList (c :: cs), rest) := by
      rw [splitOnce_eq_some, hstart, String.toList_ofList, String.toList_ofList]
      exact ⟨rfl, hspace⟩
    have heq : eqIgnoreAsciiCase (String.ofList (c :: cs)) "Bearer" = true := by
      rw [isBearer_iff, String.toList_ofList]
      exact hscheme
    rw [hsplit]
    exact if_pos heq

/-- A header whose bearer token, trimmed, is the given one. -/
def Credential (token : String) (value : ByteString) : Prop :=
  ∃ text rest, toStr value = some text ∧ BearerText text rest ∧ trim (String.ofList rest) = token

/-- A header without a bearer token: it is missing, not ASCII or of no such scheme. -/
def Tokenless : Option ByteString → Prop
  | none => True
  | some value => (∃ b ∈ value, 128 ≤ b) ∨ ∃ text, toStr value = some text ∧ ∀ rest, ¬ BearerText text rest

theorem toStr_eq_none {value : ByteString} (h : ∃ b ∈ value, 128 ≤ b) : toStr value = none := by
  obtain ⟨b, hb, hge⟩ := h
  have hge : 128 ≤ b.toNat := hge
  refine if_neg fun hall => ?_
  have hbyte := List.all_eq_true.mp hall b hb
  simp only [Bool.or_eq_true, Bool.and_eq_true, decide_eq_true_eq, beq_iff_eq] at hbyte
  rcases hbyte with ⟨_, hlt⟩ | rfl
  · have hlt : b.toNat < 127 := hlt
    omega
  · exact absurd hge (by decide)

theorem Credential.not_tokenless {token : String} {value : ByteString} (h : Credential token value) :
    ¬ Tokenless (some value) := by
  obtain ⟨text, rest, htext, hbearer, _⟩ := h
  rintro (hbyte | ⟨text', htext', hnone⟩)
  · rw [toStr_eq_none hbyte] at htext
    cases htext
  · obtain rfl := Option.some.inj (htext'.symm.trans htext)
    exact hnone rest hbearer

/-- What is compared with a configured token. -/
theorem provided_eq_iff {header : Option ByteString} {token : String} (htoken : token ≠ "") :
    (((header.bind toStr).bind stripBearerPrefix).map trim).getD "" = token ↔
      ∃ value, header = some value ∧ Credential token value := by
  constructor
  · intro h
    cases hprovided : ((header.bind toStr).bind stripBearerPrefix).map trim with
    | none =>
      rw [hprovided] at h
      exact absurd h.symm htoken
    | some provided =>
      rw [hprovided] at h
      obtain ⟨rest, hrest, htrim⟩ := Option.map_eq_some_iff.mp hprovided
      obtain ⟨text, htext, hstrip⟩ := Option.bind_eq_some_iff.mp hrest
      obtain ⟨value, hvalue, hstr⟩ := Option.bind_eq_some_iff.mp htext
      refine ⟨value, hvalue, text, rest.toList, hstr, stripBearerPrefix_eq_some.mp hstrip, ?_⟩
      rw [String.ofList_toList, htrim]
      exact h
  · rintro ⟨value, rfl, text, rest, hstr, hbearer, htrim⟩
    have hstrip : stripBearerPrefix text = some (String.ofList rest) := by
      rw [stripBearerPrefix_eq_some, String.toList_ofList]
      exact hbearer
    rw [Option.bind_some, hstr, Option.bind_some, hstrip, Option.map_some, htrim]
    rfl

section

variable (validValue : String → Bool)

/-- Who is authorized. -/
theorem checkAuth_eq_none (cfg : HttpGatewayConfig) (headers : HeaderMap) :
    checkAuth validValue cfg headers = none ↔ cfg.insecure = true ∨
      ∃ token value, cfg.authToken = some token ∧ token ≠ "" ∧
        headers.lookup AUTHORIZATION = some value ∧ Credential token value := by
  unfold checkAuth
  cases hinsecure : cfg.insecure with
  | true => simp
  | false =>
    simp only [Bool.false_eq_true, if_false, false_or, tokensMatch_iff]
    rw [ite_eq_left_iff]
    cases hauth : cfg.authToken with
    | none => simp
    | some token =>
      simp only [Option.getD_some, reduceCtorEq, imp_false, not_not, Option.some.injEq]
      constructor
      · rintro ⟨htoken, hprovided⟩
        obtain ⟨value, hvalue, hcred⟩ := (provided_eq_iff htoken).mp hprovided
        exact ⟨token, value, rfl, htoken, hvalue, hcred⟩
      · rintro ⟨_, value, rfl, htoken, hvalue, hcred⟩
        exact ⟨htoken, (provided_eq_iff htoken).mpr ⟨value, hvalue, hcred⟩⟩

/-- Everyone else is answered with the `401`, as long as the response can be built. -/
theorem checkAuth_eq_some {cfg : HttpGatewayConfig} {headers : HeaderMap} {response : HttpResponse}
    (h : checkAuth validValue cfg headers = some response) :
    cfg.insecure = false ∧ (response.status = 401 ∨
      response.status = 500 ∧ ∃ origin ∈ cfg.corsAllowOrigin, origin ≠ "" ∧ validValue origin = false) := by
  unfold checkAuth at h
  split at h
  · cases h
  · rename_i hsecure
    dsimp only at h
    split at h
    · cases h
    · cases h
      refine ⟨by simpa using hsecure, ?_⟩
      unfold jsonResponse withCors
      cases cfg.corsAllowOrigin with
      | none => exact .inl rfl
      | some origin =>
        by_cases hempty : origin = ""
        · simp [hempty]
        · cases hvalid : validValue origin <;> simp [hempty, hvalid]

/-- **The gate is exact.**  A request is authorized exactly when the gateway is insecure or
its header carries the configured token, which is not empty; the fold decides equality of
bytes; and a header without a bearer token never authorizes. -/
theorem bearer_gate_exact (cfg : HttpGatewayConfig) (headers : HeaderMap) :
    (checkAuth validValue cfg headers = none ↔ cfg.insecure = true ∨
      ∃ token value, cfg.authToken = some token ∧ token ≠ "" ∧
        headers.lookup AUTHORIZATION = some value ∧ Credential token value) ∧
    (∀ provided expected, tokensMatch provided expected = true ↔ utf8 provided = utf8 expected) ∧
    (cfg.insecure = false → Tokenless (headers.lookup AUTHORIZATION) →
      checkAuth validValue cfg headers ≠ none) := by
  refine ⟨checkAuth_eq_none validValue cfg headers, fun provided expected => ?_, fun hsecure hnone hauth => ?_⟩
  · rw [tokensMatch_iff, utf8_injective.eq_iff]
  · rcases (checkAuth_eq_none validValue cfg headers).mp hauth with hinsecure | ⟨_, _, _, _, hvalue, hcred⟩
    · rw [hsecure] at hinsecure
      cases hinsecure
    · rw [hvalue] at hnone
      exact hcred.not_tokenless hnone

/-- Upper case and more spaces around the token. -/
example : checkAuth (fun _ => true) { authToken := some "s3cret", corsAllowOrigin := none, insecure := false }
    [("authorization", utf8 " BEARER   s3cret ")] = none := by decide +kernel

end

end Konfig
