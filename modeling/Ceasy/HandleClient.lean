import Ceasy.Asset
import Ceasy.Csrf
import Ceasy.FormData
import Ceasy.RequestStability
import Ceasy.Router
import Ceasy.SessionAtomicity

set_option autoImplicit false

/-!
# Handling a client

One client is served from the bytes it sends to the response it is sent. Guards and handlers are
the application's: each is a function on the context and the connection, and on the world behind
them.
-/
namespace Ceasy.Serving
open StringView RequestParse RequestStability Responses Assets
open Sessions (Environment csrfVerify)
open Routing (Router routerDispatch)
open RouterPathMatches (RouteParam CEASY_MAX_ROUTE_PARAMS)

variable {W : Type*}

/-- What `ceasy_handle_client` finds: the library's parts, what the system answers and what the
client sends. -/
structure Host (W : Type*) where
  environment : Environment
  peer : Peer W
  assets : AssetHost
  bundle : List EmbeddedAsset
  arenaInit : Bool
  databaseOpen : Bool
  sodiumInit : Bool
  requestIdBytes : Fin 8 → UInt8
  stream : Bytes
  chunk : ℕ → ℕ

def hexDigit (value : UInt8) : UInt8 :=
  if value < 10 then ch '0' + value else ch 'a' + (value - 10)

/-- `%02x` for each of the bytes. -/
def requestIdText (bytes : Fin 8 → UInt8) : Bytes :=
  (List.ofFn bytes).flatMap fun (byte : UInt8) => [hexDigit (byte >>> 4), hexDigit (byte &&& 15)]

def ceasyMethodName : HttpMethod → CString
  | .get => ⟨sv "GET", by decide⟩
  | .post => ⟨sv "POST", by decide⟩
  | .patch => ⟨sv "PATCH", by decide⟩
  | .put => ⟨sv "PUT", by decide⟩
  | .delete => ⟨sv "DELETE", by decide⟩
  | .unknown => ⟨[], by decide⟩

/-- The string that is read from bytes with a zero behind them. -/
def cstrOf (bytes : Bytes) : CString :=
  ⟨bytes.takeWhile (· != 0), fun h => absurd (List.mem_takeWhile_imp h) (by decide)⟩

def methodWrites (method : HttpMethod) : Bool :=
  method == .post || method == .patch || method == .put || method == .delete

def ceasyOverride (method : HttpMethod) (override : Bytes) : HttpMethod :=
  if stringvEqualIgnoreCase override (sv "PATCH") then .patch
  else if stringvEqualIgnoreCase override (sv "DELETE") then .delete
  else method

/-- What comes of a request before it is routed. -/
inductive Admission (W : Type*) where
  | malformed
  | forbidden (connection : Connection W)
  | admitted (connection : Connection W)

def ceasyVerify (host : Host W) (connection : Connection W) (token : Bytes) : Bool × Connection W :=
  let ran := (csrfVerify host.environment host.sodiumInit connection.context token).run
    host.peer.serve connection.world
  (ran.1.1, { connection with context := ran.1.2, world := ran.2 })

def ceasyAdmit (host : Host W) (connection : Connection W) : Admission W :=
  let request := connection.context.request
  if methodWrites request.method && Forms.contextIsFormContentType request.contentType then
    let form := Forms.contextParseForm { request := request }
    if !form.1 then .malformed
    else
      let method := ceasyOverride request.method (Forms.contextForm form.2 (sv "_method")).1
      let connection :=
        { connection with
          context := { connection.context with request := { request with method := method } } }
      if methodWrites method then
        let verified := ceasyVerify host connection (Forms.contextForm form.2 (sv "_csrf")).1
        if !verified.1 then .forbidden verified.2 else .admitted verified.2
      else .admitted connection
  else .admitted connection

def sendText (host : Host W) (connection : Connection W) (status : String) (body : Body) :
    Connection W :=
  (contextSendText host.environment host.peer connection (some (sv status)) body).2

/-- The context that routing is given; the rest of it is the connection. -/
def routedContext (connection : Connection W) : Routing.Context (Connection W) where
  path := connection.context.request.path
  routeParams := List.replicate CEASY_MAX_ROUTE_PARAMS ⟨[], []⟩
  routeParamCount := 0
  rest := connection

def ceasyRoute (host : Host W) (router : Router (Connection W))
    (garbage : List RouteParam × List RouteParam) (connection : Connection W) : Connection W :=
  let request := connection.context.request
  let dispatched := routerDispatch router (ceasyMethodName request.method) (cstrOf request.path)
    (routedContext connection) garbage
  let context := dispatched.2
  match dispatched.1 with
  | .notFound =>
    if context.rest.context.request.method = .get then
      let served :=
        assetServe host.environment host.peer host.assets host.bundle context.rest context.path
      if served.1 then served.2
      else sendText host served.2 "404 Not Found" (.of (sv "not found\n"))
    else context.rest
  | .methodNotAllowed =>
    sendText host context.rest "405 Method Not Allowed" (.of (sv "method not allowed\n"))
  | .dispatched =>
    if context.rest.responseSent then context.rest
    else sendText host context.rest "204 No Content" .none

/-- `ceasy_handle_client` behind the reading of the request. -/
def ceasyHandleRequest (host : Host W) (router : Router (Connection W))
    (garbage : List RouteParam × List RouteParam) (connection : Connection W) : Connection W :=
  match ceasyAdmit host connection with
  | .malformed => sendText host connection "400 Bad Request" (.of (sv "malformed form\n"))
  | .forbidden connection => sendText host connection "403 Forbidden" (.of (sv "forbidden\n"))
  | .admitted connection =>
    if connection.context.request.path.length = 0 then
      sendText host connection "500 Internal Server Error" (.of (sv "could not prepare path\n"))
    else ceasyRoute host router garbage connection

def openConnection (host : Host W) (clientFd : ℤ) (request : Request) (world : W) : Connection W where
  context := { request := request }
  clientFd := clientFd
  requestId := if host.sodiumInit then requestIdText host.requestIdBytes else []
  world := world

/-- The connection as it is when it is closed. -/
def ceasyHandleClient (host : Host W) (router : Router (Connection W))
    (garbage : List RouteParam × List RouteParam) (clientFd : ℤ) (world : W) : Connection W :=
  if !host.arenaInit then { context := { request := {} }, clientFd := clientFd, world := world }
  else if !host.databaseOpen then
    sendText host (openConnection host clientFd {} world) "500 Internal Server Error"
      (.of (sv "database error\n"))
  else
    let read := ceasyReadRequest host.stream host.chunk
    let connection := openConnection host clientFd read.2 world
    match read.1 with
    | .ok => ceasyHandleRequest host router garbage connection
    | .payloadTooLarge =>
      sendText host connection "413 Payload Too Large" (.of (sv "payload too large\n"))
    | .incomplete | .badRequest | .unsupported =>
      sendText host connection "400 Bad Request" (.of (sv "malformed request\n"))

def effectiveMethod (request : Request) : HttpMethod :=
  let form := Forms.contextParseForm { request := request }
  if methodWrites request.method && Forms.contextIsFormContentType request.contentType && form.1 then
    ceasyOverride request.method (Forms.contextForm form.2 (sv "_method")).1
  else request.method

def requestToken (request : Request) : Bytes :=
  (Forms.contextForm (Forms.contextParseForm { request := request }).2 (sv "_csrf")).1

/-- What `csrf_verify` returns for a request. -/
def requestVerified (host : Host W) (clientFd : ℤ) (request : Request) (world : W) : Bool :=
  (ceasyVerify host
    (openConnection host clientFd { request with method := effectiveMethod request } world)
    (requestToken request)).1

variable {host : Host W} {clientFd : ℤ} {request : Request} {world : W}

theorem methodWrites_of_effective (h : methodWrites (effectiveMethod request) = true) :
    methodWrites request.method = true := by
  unfold effectiveMethod at h
  dsimp only at h
  split_ifs at h with hform
  · rw [Bool.and_eq_true, Bool.and_eq_true] at hform
    exact hform.1.1
  · exact h

/-- A request that is to be verified and is not is not admitted. -/
theorem ceasyAdmit_refuses (hform : Forms.contextIsFormContentType request.contentType = true)
    (hmethod : methodWrites (effectiveMethod request) = true)
    (hverified : requestVerified host clientFd request world = false) :
    ∀ connection, ceasyAdmit host (openConnection host clientFd request world) ≠ .admitted connection := by
  intro connection hadmitted
  have hwrites := methodWrites_of_effective hmethod
  unfold ceasyAdmit at hadmitted
  dsimp only [openConnection] at hadmitted
  rw [if_pos (by rw [hwrites, hform]; rfl)] at hadmitted
  by_cases hparsed : (Forms.contextParseForm { request := request }).1 = true
  · have heffective : effectiveMethod request = ceasyOverride request.method
        (Forms.contextForm (Forms.contextParseForm { request := request }).2 (sv "_method")).1 := by
      unfold effectiveMethod
      dsimp only
      rw [if_pos (by rw [hwrites, hform, hparsed]; rfl)]
    unfold requestVerified at hverified
    dsimp only [openConnection, requestToken] at hverified
    rw [heffective] at hmethod hverified
    rw [if_neg (by rw [hparsed]; decide), if_pos hmethod, if_pos (by rw [hverified]; rfl)] at hadmitted
    cases hadmitted
  · rw [if_pos (by rw [Bool.not_eq_true] at hparsed; rw [hparsed]; rfl)] at hadmitted
    cases hadmitted

/-- The routes have a say in the answer only where the request is admitted. -/
theorem ceasyHandleRequest_routeless {connection : Connection W}
    (h : ∀ next, ceasyAdmit host connection ≠ .admitted next) (router router' : Router (Connection W))
    (garbage garbage' : List RouteParam × List RouteParam) :
    ceasyHandleRequest host router garbage connection =
      ceasyHandleRequest host router' garbage' connection := by
  unfold ceasyHandleRequest
  cases hadmit : ceasyAdmit host connection with
  | malformed => rfl
  | forbidden next => rfl
  | admitted next => exact absurd hadmit (h next)

/-- Where what guards and handlers do makes a difference to a form that is sent to be written,
`csrf_verify` has returned true for it. -/
theorem ceasyHandleClient_verifies (host : Host W) (clientFd : ℤ) (world : W)
    (router router' : Router (Connection W)) (garbage garbage' : List RouteParam × List RouteParam)
    (request : Request) (hread : ceasyReadRequest host.stream host.chunk = (.ok, request))
    (hform : Forms.contextIsFormContentType request.contentType = true)
    (hmethod : methodWrites (effectiveMethod request) = true)
    (hruns : ceasyHandleClient host router garbage clientFd world ≠
      ceasyHandleClient host router' garbage' clientFd world) :
    requestVerified host clientFd request world = true := by
  by_contra hverified
  rw [Bool.not_eq_true] at hverified
  apply hruns
  unfold ceasyHandleClient
  split_ifs
  · rfl
  · rfl
  · rw [hread]
    exact ceasyHandleRequest_routeless (ceasyAdmit_refuses hform hmethod hverified) _ _ _ _

/-- No session is stored, and every call succeeds. -/
def workingPeer : Peer Unit where
  serve
    | .select _, world => (some none, world)
    | .delete _, world => (true, world)
    | .replace _ _ _ _, world => (true, world)
    | .time, world => (0, world)
    | .randomToken, world =>
      (some (Sessions.sodiumBin2base64 (List.replicate Sessions.SESSION_TOKEN_BYTES 0)), world)
  send data world := (some data.length, world)

def workingHost (stream : Bytes) : Host Unit where
  environment :=
    { sessionCookieName := sv "ceasy_session"
      sessionTtlSeconds := 3600
      isProduction := false
      generichash := some }
  peer := workingPeer
  assets :=
    { arenaAlloc := fun _ => true
      getcwd := some (sv "/srv")
      realpath := fun _ => .absent
      fopen := fun _ => .absent }
  bundle := []
  arenaInit := true
  databaseOpen := true
  sodiumInit := true
  requestIdBytes := fun _ => 0
  stream := stream
  chunk := fun _ => 1024

theorem posts_noNul : (0 : UInt8) ∉ sv "/posts" := by decide

theorem one_few : 1 ≤ Routing.ROUTER_MAX_ROUTES := by decide

def postRouter (host : Host Unit) : Router (Connection Unit) where
  routes :=
    [{ path := ⟨sv "/posts", posts_noNul⟩
       method := .post
       handler := fun context =>
        { context with rest := sendText host context.rest "200 OK" (.of (sv "stored\n")) }
       guard := none }]
  few := one_few

def formRequest : Bytes :=
  sv "POST /posts HTTP/1.1\r\nContent-Type: application/x-www-form-urlencoded\r\nContent-Length: 49\r\n\r\n_csrf=" ++
    List.replicate 43 (ch 'A')

def jsonRequest : Bytes :=
  sv "POST /posts HTTP/1.1\r\nContent-Type: application/json\r\nContent-Length: 2\r\n\r\n\x7b\x7d"

theorem ceasyReadRequest_answer (stream : Bytes) (chunk : ℕ → ℕ) :
    ceasyReadRequest stream chunk = readAnswer stream := by
  rw [ceasyReadRequest, ceasyReadLoop_answer stream chunk 0 0 {}
    ⟨Nat.zero_le _, Nat.zero_le _, .inl ⟨rfl, rfl⟩⟩]

theorem readAnswer_ok {stream : Bytes} (h : (readAnswer stream).1 = .ok) :
    readAnswer stream = (.ok, (readAnswer stream).2) :=
  Prod.ext h rfl

theorem ceasyHandleClient_read {stream : Bytes} {request : Request}
    (h : readAnswer stream = (.ok, request)) (router : Router (Connection Unit)) :
    ceasyHandleClient (workingHost stream) router ([], []) 4 () =
      ceasyHandleRequest (workingHost stream) router ([], [])
        (openConnection (workingHost stream) 4 request ()) := by
  have hread : ceasyReadRequest (workingHost stream).stream (workingHost stream).chunk =
      (.ok, request) := (ceasyReadRequest_answer _ _).trans h
  unfold ceasyHandleClient
  rw [hread]
  rfl

theorem ceasyHandleClient_verifies_form :
    requestVerified (workingHost formRequest) 4 (readAnswer formRequest).2 () = true := by
  have hread := readAnswer_ok (show (readAnswer formRequest).1 = .ok by decide +kernel)
  refine ceasyHandleClient_verifies (workingHost formRequest) 4 () (postRouter (workingHost formRequest))
    Routing.routerInit ([], []) ([], []) (readAnswer formRequest).2
    ((ceasyReadRequest_answer _ _).trans hread) (by decide +kernel) (by decide +kernel) fun hsame => ?_
  rw [ceasyHandleClient_read hread, ceasyHandleClient_read hread] at hsame
  exact absurd (congrArg Connection.responseSent hsame) (by decide +kernel)

/-- A post that is no form reaches its handler, though `csrf_verify` would return false. -/
theorem ceasyHandleClient_unverified :
    readAnswer jsonRequest = (.ok, (readAnswer jsonRequest).2) ∧
      methodWrites (effectiveMethod (readAnswer jsonRequest).2) = true ∧
      ceasyHandleClient (workingHost jsonRequest) (postRouter (workingHost jsonRequest)) ([], []) 4 () ≠
        ceasyHandleClient (workingHost jsonRequest) Routing.routerInit ([], []) 4 () ∧
      requestVerified (workingHost jsonRequest) 4 (readAnswer jsonRequest).2 () = false := by
  have hread := readAnswer_ok (show (readAnswer jsonRequest).1 = .ok by decide +kernel)
  refine ⟨hread, by decide +kernel, fun hsame => ?_, by decide +kernel⟩
  rw [ceasyHandleClient_read hread, ceasyHandleClient_read hread] at hsame
  exact absurd (congrArg Connection.responseSent hsame) (by decide +kernel)

end Ceasy.Serving
