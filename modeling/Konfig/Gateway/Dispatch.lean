import Konfig.Gateway.Auth
import Konfig.Gateway.Sse
import Konfig.Service.Rpc

/-!
# The HTTP gateway

`grpc/http_gateway.rs` mounts the methods of the service on a plain HTTP port: eleven paths
under `/konfig.v1.KonfigService/`, of which the two infinite streams are not served, aliases
of the two reads, two watches that are written as server-sent events, and a probe.  Every
handler calls the method it stands for in the same process.

The decoding of paths and the answers to paths and methods that no route takes are those of
`axum`.  `serde_json` on the messages is a parameter.  What a stream writes is not part of
the answer to its request: `streamJsonArray` and `sseEventStream` are about that.
-/

namespace Konfig.Gateway

open Lib

/-! ### Requests and responses -/

inductive HttpMethod
  | options
  | get
  | head
  | post
  | other
  deriving DecidableEq

/-- The route of a path, with its parameters. -/
inductive Route
  | rpc (rpc : String)
  | configWatch (ns name : String)
  | secretWatch (ns name : String)
  | config (ns name : String)
  | configs (ns : String)
  | healthz
  | unknown

structure HttpRequest where
  method : HttpMethod
  route : Route
  headers : HeaderMap
  body : List UInt8

/-- The bytes of a response, or the stream they will be written from. -/
inductive Body
  | bytes (bytes : List UInt8)
  | configs (items : List (Instant → Config))
  | secrets (items : List (Instant → SecretResponse))
  | configEvents (events : List ConfigEvent)
  | secretEvents (events : List SecretEvent)

structure Response where
  status : ℕ
  headers : List (String × String)
  body : Body

def Response.ofHttp (resp : HttpResponse) : Response :=
  { status := resp.status, headers := resp.headers, body := .bytes resp.body }

/-- `StatusCode::INTERNAL_SERVER_ERROR.into_response()`. -/
def Response.internal : Response := { status := 500, headers := [], body := .bytes [] }

/-- `MAX_HTTP_BODY_BYTES`. -/
def MAX_HTTP_BODY_BYTES : ℕ := 4 * 1024 * 1024

/-! ### Errors -/

/-- The `tonic::Code` of a code. -/
def grpcCode : Code → GrpcCode
  | .invalidArgument => .invalidArgument
  | .notFound => .notFound
  | .failedPrecondition => .failedPrecondition
  | .aborted => .aborted
  | .internal => .internal
  | .unavailable => .unavailable
  | .dataLoss => .dataLoss
  | .resourceExhausted => .resourceExhausted
  | .permissionDenied => .permissionDenied

/-- `status_to_http`. -/
def statusToHttp : GrpcCode → ℕ
  | .ok => 200
  | .invalidArgument => 400
  | .unauthenticated => 401
  | .permissionDenied => 403
  | .notFound => 404
  | .alreadyExists => 409
  | .failedPrecondition => 412
  | .resourceExhausted => 429
  | .unavailable => 503
  | .unimplemented => 501
  | .deadlineExceeded => 504
  | .internal | .unknown | .dataLoss | .aborted | .cancelled | .outOfRange => 500

structure GatewayError where
  status : ℕ
  code : String
  message : String

/-- `status_to_error`. -/
def statusToError (s : Status) : GatewayError :=
  { status := statusToHttp (grpcCode s.code), code := (grpcCode s.code).codeName, message := s.message }

/-! ### Messages -/

/-- `GetAllRequest` and `GetAllSecretsRequest`. -/
structure GetAllRequest where
  ns : String

structure BatchApplyRequest where
  items : List ApplyRequest

/-- `serde_json::from_slice` on a message, and the message with every field at its zero
value. -/
class FromSlice (Req : Type) where
  fromSlice : List UInt8 → Except String Req
  default : Req

/-- `serde_json::to_vec`. -/
class ToVec (Resp : Type) where
  toVec : Resp → Except String (List UInt8)

/-- `decode_request`. -/
def decodeRequest {Req : Type} [FromSlice Req] (body : List UInt8) : Except GatewayError Req :=
  if body.isEmpty then .ok FromSlice.default
  else match FromSlice.fromSlice body with
    | .ok req => .ok req
    | .error e => .error
      { status := 400, code := "invalid_argument", message := "invalid JSON request body: " ++ e }

/-- `encode_response`. -/
def encodeResponse {Resp : Type} [ToVec Resp] (resp : Resp) : Except GatewayError (List UInt8) :=
  match ToVec.toVec resp with
  | .ok json => .ok json
  | .error e => .error { status := 500, code := "internal", message := "response serialize failed: " ++ e }

/-! ### Responses of the gateway -/

section

variable (validValue : String → Bool) (cfg : HttpGatewayConfig)

/-- A response with these headers and the CORS headers, unless one is refused. -/
def respond (status : ℕ) (headers : List (String × String)) (body : Body) : Response :=
  match withCors validValue cfg headers with
  | some headers => { status, headers, body }
  | none => .internal

/-- `json_response` of an error. -/
def errorResponse (e : GatewayError) : Response :=
  .ofHttp (jsonResponse validValue cfg e.status (errorBody e.code e.message))

/-- `json_streaming_response`. -/
def jsonStreamingResponse (body : Body) : Response :=
  respond validValue cfg 200 [("content-type", "application/json")] body

/-- `sse_response`. -/
def sseResponse (body : Body) : Response :=
  respond validValue cfg 200
    [("content-type", "text/event-stream"), ("cache-control", "no-cache"), ("x-accel-buffering", "no")] body

/-- `cors_preflight`. -/
def corsPreflight : Response :=
  match withCors validValue cfg [] with
  | some headers =>
    { status := 204
      headers := headers ++ [("access-control-allow-methods", "GET, POST, OPTIONS"),
        ("access-control-allow-headers", "content-type, authorization"), ("access-control-max-age", "600")]
      body := .bytes [] }
  | none => .internal

/-- `cache_not_ready`. -/
def cacheNotReady : Response :=
  respond validValue cfg 503 [("retry-after", "1"), ("content-type", "application/json")]
    (.bytes (errorBody "unavailable" "cache not ready; retry shortly"))

/-- `healthz`; the keys of a JSON object are sorted. -/
def healthz (ready : Bool) : Response :=
  let body := utf8 (Value.object
    [("cache_ready", .bool ready), ("status", .string (if ready then "ok" else "warming"))]).render
  match withCors validValue cfg [("content-type", "application/json")] with
  | some headers =>
    { status := if ready then 200 else 503
      headers := if ready then headers else headers ++ [("retry-after", "1")]
      body := .bytes body }
  | none => .internal

end

/-! ### Startup -/

/-- What the gateway reads of the arguments of the process. -/
structure Args where
  httpAddr : Option String
  httpAuthToken : Option String
  httpCorsAllowOrigin : Option String
  httpInsecure : Bool

/-- `resolve_http_gateway_config`; `None` leaves the gateway off. -/
def resolveHttpGatewayConfig (args : Args) : Except String (Option HttpGatewayConfig) :=
  match args.httpAddr with
  | none => .ok none
  | some _ =>
    if args.httpInsecure then
      .ok (some { authToken := none, corsAllowOrigin := args.httpCorsAllowOrigin, insecure := true })
    else match args.httpAuthToken.filter fun t => t ≠ "" with
      | none => .error ("HTTP/JSON gateway enabled (--http-addr) but --http-auth-token/KONFIG_HTTP_AUTH_TOKEN " ++
          "not set. The gateway exposes writes and secret reads over plaintext, so a bearer token is required. " ++
          "Pass --http-insecure=true to explicitly opt out (cluster-internal only).")
      | some token => .ok (some
          { authToken := some token, corsAllowOrigin := args.httpCorsAllowOrigin, insecure := false })

/-! ### Handlers -/

/-- A handler: it always answers. -/
abbrev GatewayM := Proc ServiceOp ServiceOp.Resp

structure GatewayState [JsonSchema] where
  server : KonfigServer
  cfg : HttpGatewayConfig
  /-- `cache.is_populated()`. -/
  cacheReady : Bool
  /-- `secret_cache.is_populated()`. -/
  secretCacheReady : Bool

/-- The header `last-event-id`, `""` where it is missing or not text. -/
def lastEventId (headers : HeaderMap) : String := ((headers.lookup "last-event-id").bind toStr).getD ""

/-- `config_subscribe_request`. -/
def configSubscribeRequest (ns name : String) (headers : HeaderMap) : SubscribeRequest :=
  { ns, names := [name], resumeResourceVersion := lastEventId headers, labelSelector := "" }

section Handlers

variable (validValue : String → Bool) (cfg : HttpGatewayConfig)

/-- What `dispatch` makes of the outcome of `run_unary`. -/
def unaryResponse {Resp : Type} [ToVec Resp] : Except Status Resp → Response
  | .error status => errorResponse validValue cfg (statusToError status)
  | .ok resp =>
    match encodeResponse resp with
    | .ok json => .ofHttp (jsonResponse validValue cfg 200 json)
    | .error e => errorResponse validValue cfg e

/-- A stream, or the error before it. -/
def streamResponse {Resp : Type} (stream : Resp → Response) : Except Status Resp → Response
  | .error status => errorResponse validValue cfg (statusToError status)
  | .ok resp => stream resp

/-- `run_unary`, and the response `dispatch` answers with. -/
def runUnary {Req Resp : Type} [FromSlice Req] [ToVec Resp] (body : List UInt8)
    (call : Req → ServiceM Resp) : GatewayM Response :=
  match decodeRequest body with
  | .error e => pure (errorResponse validValue cfg e)
  | .ok req => do
    let outcome ← (call req).run
    return unaryResponse validValue cfg outcome

/-- `run_server_streaming`. -/
def runServerStreaming {Req Item : Type} [FromSlice Req] (body : List UInt8)
    (call : Req → ServiceM (List (Instant → Item))) (items : List (Instant → Item) → Body) :
    GatewayM Response :=
  match decodeRequest body with
  | .error e => pure (errorResponse validValue cfg e)
  | .ok req => do
    let outcome ← (call req).run
    return streamResponse validValue cfg (fun stream => jsonStreamingResponse validValue cfg (items stream)) outcome

end Handlers

section Router

variable [JsonSchema] [SerdeYaml] [SerdeJson] [SecretYaml]
variable [FromSlice Key] [FromSlice GetAllRequest] [FromSlice ApplyRequest] [FromSlice BatchApplyRequest]
  [FromSlice RevertRequest] [FromSlice ApplySecretRequest]
variable [ToVec Config] [ToVec ApplyResponse] [ToVec (List BatchApplyResult)] [ToVec DryRunApplyResponse]
  [ToVec RevertResponse] [ToVec SecretResponse] [ToVec ApplySecretResponse]
variable (validValue : String → Bool) (st : GatewayState) (caller : Caller)

/-- `dispatch`. -/
def dispatch (method : HttpMethod) (headers : HeaderMap) (rpc : String) (body : List UInt8) :
    GatewayM Response :=
  let cfg := st.cfg
  let server := st.server
  if method = .options then pure (corsPreflight validValue cfg)
  else if method ≠ .post then
    pure (errorResponse validValue cfg
      { status := 405, code := "method_not_allowed", message := "only POST and OPTIONS are supported" })
  else match checkAuth validValue cfg headers with
  | some resp => pure (.ofHttp resp)
  | none =>
    match rpc with
    | "Get" => runUnary validValue cfg body (server.get caller)
    | "GetAll" =>
      runServerStreaming validValue cfg body (fun r : GetAllRequest => server.getAll caller r.ns) .configs
    | "Apply" => runUnary validValue cfg body (server.apply caller)
    | "BatchApply" => runUnary validValue cfg body fun r : BatchApplyRequest => server.batchApply caller r.items
    | "DryRunApply" => runUnary validValue cfg body (server.dryRunApply caller)
    | "Revert" => runUnary validValue cfg body (server.revert caller)
    | "GetSecret" => runUnary validValue cfg body (server.getSecret caller)
    | "GetAllSecrets" =>
      runServerStreaming validValue cfg body (fun r : GetAllRequest => server.getAllSecrets caller r.ns) .secrets
    | "ApplySecret" => runUnary validValue cfg body (server.applySecret caller)
    | "Subscribe" | "SubscribeSecrets" =>
      pure (errorResponse validValue cfg
        { status := 501, code := "unimplemented"
          message := "streaming RPCs are served via the SSE endpoint, not the JSON gateway" })
    | other =>
      pure (errorResponse validValue cfg
        { status := 404, code := "not_found", message := "unknown method '" ++ other ++ "'" })

/-- `rest_get_config`. -/
def restGetConfig (ns name : String) (headers : HeaderMap) : GatewayM Response :=
  match checkAuth validValue st.cfg headers with
  | some deny => pure (.ofHttp deny)
  | none => do
    let outcome ← (st.server.get caller ⟨ns, name⟩).run
    return unaryResponse validValue st.cfg outcome

/-- `rest_get_all_configs`. -/
def restGetAllConfigs (ns : String) (headers : HeaderMap) : GatewayM Response :=
  match checkAuth validValue st.cfg headers with
  | some deny => pure (.ofHttp deny)
  | none => do
    let outcome ← (st.server.getAll caller ns).run
    return streamResponse validValue st.cfg
      (fun stream => jsonStreamingResponse validValue st.cfg (.configs stream)) outcome

/-- `sse_config_watch`. -/
def sseConfigWatch (ns name : String) (headers : HeaderMap) : GatewayM Response :=
  match checkAuth validValue st.cfg headers with
  | some deny => pure (.ofHttp deny)
  | none =>
    if !st.cacheReady then pure (cacheNotReady validValue st.cfg)
    else do
      let outcome ← (st.server.subscribe caller (configSubscribeRequest ns name headers)).run
      return streamResponse validValue st.cfg
        (fun events => sseResponse validValue st.cfg (.configEvents events)) outcome

/-- `sse_secret_watch`. -/
def sseSecretWatch (ns name : String) (headers : HeaderMap) : GatewayM Response :=
  match checkAuth validValue st.cfg headers with
  | some deny => pure (.ofHttp deny)
  | none =>
    if !st.secretCacheReady then pure (cacheNotReady validValue st.cfg)
    else do
      let outcome ←
        (st.server.subscribeSecrets caller (secretSubscribeRequest ns name (lastEventId headers))).run
      return streamResponse validValue st.cfg
        (fun events => sseResponse validValue st.cfg (.secretEvents events)) outcome

/-- A route that takes `GET`; `allow` lists what the route takes. -/
def getRoute (allow : String) (method : HttpMethod) (handler : GatewayM Response) : GatewayM Response :=
  match method with
  | .get | .head => handler
  | _ => pure { status := 405, headers := [("allow", allow)], body := .bytes [] }

/-- The same with `.options(cors_preflight_handler)`. -/
def getOptionsRoute (method : HttpMethod) (handler : GatewayM Response) : GatewayM Response :=
  if method = .options then pure (corsPreflight validValue st.cfg)
  else getRoute "GET,HEAD,OPTIONS" method handler

/-- The rejection of a body over the limit. -/
def tooLarge : Response :=
  { status := 413, headers := [("content-type", "text/plain; charset=utf-8")]
    body := .bytes (utf8 "Failed to buffer the request body: length limit exceeded") }

/-- The route of a request. -/
def routed (req : HttpRequest) : GatewayM Response :=
  match req.route with
  | .rpc rpc =>
    if MAX_HTTP_BODY_BYTES < req.body.length then pure tooLarge
    else dispatch validValue st caller req.method req.headers rpc req.body
  | .configWatch ns name => getRoute "GET,HEAD" req.method (sseConfigWatch validValue st caller ns name req.headers)
  | .secretWatch ns name => getRoute "GET,HEAD" req.method (sseSecretWatch validValue st caller ns name req.headers)
  | .config ns name =>
    getOptionsRoute validValue st req.method (restGetConfig validValue st caller ns name req.headers)
  | .configs ns => getOptionsRoute validValue st req.method (restGetAllConfigs validValue st caller ns req.headers)
  | .healthz => getRoute "GET,HEAD" req.method (pure (healthz validValue st.cfg st.cacheReady))
  | .unknown => pure { status := 404, headers := [], body := .bytes [] }

/-- `HEAD` is answered without the body. -/
def headResponse (method : HttpMethod) (resp : Response) : Response :=
  if method = .head then { resp with body := .bytes [] } else resp

/-- The router of `serve_gateway`. -/
def router (req : HttpRequest) : GatewayM Response := do
  let resp ← routed validValue st caller req
  return headResponse req.method resp

end Router

/-! ### The call a request stands for -/

section Spec

variable [JsonSchema]
variable [FromSlice Key] [FromSlice GetAllRequest] [FromSlice ApplyRequest] [FromSlice BatchApplyRequest]
  [FromSlice RevertRequest] [FromSlice ApplySecretRequest]
variable (validValue : String → Bool)

/-- What is posted to a method. -/
def postedRpc (rpc : String) (body : List UInt8) : Option Rpc :=
  match rpc with
  | "Get" => (decodeRequest body).toOption.map .get
  | "GetAll" => (decodeRequest body).toOption.map fun r : GetAllRequest => .getAll r.ns
  | "Apply" => (decodeRequest body).toOption.map .apply
  | "BatchApply" => (decodeRequest body).toOption.map fun r : BatchApplyRequest => .batchApply r.items
  | "DryRunApply" => (decodeRequest body).toOption.map .dryRunApply
  | "Revert" => (decodeRequest body).toOption.map .revert
  | "GetSecret" => (decodeRequest body).toOption.map .getSecret
  | "GetAllSecrets" => (decodeRequest body).toOption.map fun r : GetAllRequest => .getAllSecrets r.ns
  | "ApplySecret" => (decodeRequest body).toOption.map .applySecret
  | _ => none

/-- The call of a request, whoever sends it. -/
def HttpRequest.rpc (req : HttpRequest) : Option Rpc :=
  match req.route with
  | .rpc rpc =>
    if req.method = .post ∧ req.body.length ≤ MAX_HTTP_BODY_BYTES then postedRpc rpc req.body else none
  | .configWatch ns name =>
    if req.method = .get ∨ req.method = .head then
      some (.subscribe (configSubscribeRequest ns name req.headers))
    else none
  | .secretWatch ns name =>
    if req.method = .get ∨ req.method = .head then
      some (.subscribeSecrets (secretSubscribeRequest ns name (lastEventId req.headers)))
    else none
  | .config ns name => if req.method = .get ∨ req.method = .head then some (.get ⟨ns, name⟩) else none
  | .configs ns => if req.method = .get ∨ req.method = .head then some (.getAll ns) else none
  | .healthz | .unknown => none

/-- A watch waits for the first list of its cache. -/
def GatewayState.ready (st : GatewayState) : Rpc → Bool
  | .subscribe _ => st.cacheReady
  | .subscribeSecrets _ => st.secretCacheReady
  | _ => true

/-- The call that is made for a request. -/
def GatewayState.admits (st : GatewayState) (req : HttpRequest) : Option Rpc :=
  if (checkAuth validValue st.cfg req.headers).isSome then none else req.rpc.filter st.ready

end Spec

end Konfig.Gateway
