import Ceasy.HandleClient
import Ceasy.Preparation
import Ceasy.RequestFraming
import Ceasy.ResponseText

set_option autoImplicit false

/-!
# The response of a client

A guard or a handler is a program that calls the library, in any order and as often as it likes.
Whatever it calls, nothing or one response has been written at any time; whether a request is
answered at all is decided by its route and by what is left to prepare a response from.
-/
namespace Ceasy.Sessions
open StringView RequestParse

section request
variable {environment : Environment} {context : Context} {request : Request} {R : Type}

/-- Whatever the calls are answered, the context is left with this request. -/
def LeavesRequest (request : Request) (d : SessionDialogue (R × Context)) : Prop :=
  ∀ history, Dialogue.Keeps (fun _ _ => True) (fun _ result => result.2.request = request) history d

theorem LeavesRequest.done {result : R × Context} (h : result.2.request = request) :
    LeavesRequest request (.done result) :=
  fun _ => h

theorem LeavesRequest.call {c : SessionCall} {next : SessionReply c → SessionDialogue (R × Context)}
    (h : ∀ answer, LeavesRequest request (next answer)) : LeavesRequest request (.call c next) :=
  fun _ => ⟨trivial, fun answer => h answer _⟩

theorem LeavesRequest.bind {S : Type} {d : SessionDialogue (R × Context)}
    {f : R × Context → SessionDialogue (S × Context)} (h : LeavesRequest request d)
    (hf : ∀ result : R × Context, result.2.request = request → LeavesRequest request (f result)) :
    LeavesRequest request (d.bind f) :=
  fun history => (h history).bind fun later result hresult => hf result hresult later

theorem sessionDeleteDigest_request {token : Bytes} {f : Bool → SessionDialogue (R × Context)}
    (hf : ∀ deleted, LeavesRequest request (f deleted)) :
    LeavesRequest request ((sessionDeleteDigest environment token).bind f) := by
  unfold sessionDeleteDigest
  split
  · exact hf false
  · exact .call hf

theorem sessionLoadRow_request {cookie : Bytes} {row : SessionRow}
    (h : context.request = request) :
    LeavesRequest request (sessionLoadRow environment context cookie row) := by
  refine .call fun now => ?_
  dsimp only
  split_ifs
  · exact sessionDeleteDigest_request fun _ => .done h
  · exact sessionDeleteDigest_request fun _ => .done h
  · exact .done h

theorem sessionEnsure_request (h : context.request = request) :
    LeavesRequest request (sessionEnsure environment context) := by
  unfold sessionEnsure
  split_ifs
  · exact .done h
  unfold sessionLoad
  dsimp only
  split
  · exact .done h
  refine .call fun step => ?_
  rcases step with _ | _ | row
  · exact .done h
  · exact .done h
  · exact sessionLoadRow_request h

theorem sessionWith_request {refused : R} {operation : Context → R × Context}
    (h : context.request = request)
    (hoperation : ∀ context, (operation context).2.request = context.request) :
    LeavesRequest request (sessionWith environment context refused operation) := by
  refine (sessionEnsure_request h).bind fun loaded hloaded => .done ?_
  split_ifs
  · exact (hoperation loaded.2).trans hloaded
  · exact hloaded

theorem sessionGetString_request {key : Bytes} (h : context.request = request) :
    LeavesRequest request (sessionGetString environment context key) :=
  sessionWith_request h fun _ => rfl

theorem sessionSetString_request {key : Bytes} {value : Option Bytes}
    (h : context.request = request) :
    LeavesRequest request (sessionSetString environment context key value) := by
  refine sessionWith_request h fun context => ?_
  cases value with
  | none => rfl
  | some value =>
    dsimp only [sessionSet]
    split_ifs <;> rfl

theorem csrfVerify_request {sodiumInit : Bool} {token : Bytes} (h : context.request = request) :
    LeavesRequest request (csrfVerify environment sodiumInit context token) := by
  refine LeavesRequest.bind ?_ fun expected hexpected => .done hexpected
  refine (sessionGetString_request h).bind fun found hfound => ?_
  split
  · exact .done hfound
  refine .call fun encoded => ?_
  rcases encoded with _ | encoded
  · exact .done hfound
  refine (sessionSetString_request hfound).bind fun stored hstored => ?_
  split_ifs
  · exact .done hstored
  · exact sessionGetString_request hstored

end request

end Ceasy.Sessions

namespace Ceasy.Serving
open StringView RequestParse RequestStability Responses Assets
open Sessions (Environment RequestOperation SessionAnswer requestPerform LineFree)
open Routing (Router RouterRoute RouteHandler RouteGuard routerDispatch)
open RouterPathMatches (RouteParam)
open View (Rendered viewRenderToString viewRenderWithLayout stringAsView)

variable {W : Type*}

inductive HandlerCall where
  | session (operation : RequestOperation)
  | store (call : StoreCall)
  | sendBytes (status contentType : Option Bytes) (body : Body)
  | redirect (location : Option Bytes)
  | renderWithoutLayout (views : View.Context) (path : Bytes)
  | renderStatus (views : View.Context) (path : Bytes) (status : Option Bytes)

abbrev HandlerReply : HandlerCall → Type
  | .session _ => SessionAnswer
  | .store _ => Bool
  | .sendBytes _ _ _ => Bool
  | .redirect _ => Bool
  | .renderWithoutLayout _ _ => Bool
  | .renderStatus _ _ _ => Bool

def viewBody (view : Option Bytes) : Body :=
  match view with
  | none => .none
  | some bytes => .of bytes

def sendRendered (host : Host W) (connection : Connection W) (rendered : Rendered)
    (status : Option Bytes) : Bool × Connection W :=
  match rendered.error with
  | some error =>
    (false,
      (contextSendText host.environment host.peer connection
        (some (sv "500 Internal Server Error")) (.of error.text)).2)
  | none =>
    contextSendHtml host.environment host.peer connection status
      (viewBody (stringAsView rendered.output))

def handlerPerform (host : Host W) :
    (call : HandlerCall) → Connection W → HandlerReply call × Connection W
  | .session operation, connection =>
    let ran := (requestPerform host.environment connection.context operation).run host.peer.serve
      connection.world
    (ran.1.1, { connection with context := ran.1.2, world := ran.2 })
  | .store call, connection =>
    let stored := storePerform connection.context call
    (stored.1, { connection with context := stored.2 })
  | .sendBytes status contentType body, connection =>
    contextSendBytes host.environment host.peer connection status contentType body
  | .redirect location, connection =>
    contextRedirect host.environment host.peer connection location
  | .renderWithoutLayout views path, connection =>
    sendRendered host connection (viewRenderToString views path []) (some (sv "200 OK"))
  | .renderStatus views path status, connection =>
    sendRendered host connection (viewRenderWithLayout views path []) status

abbrev HandlerProgram (R : Type) := Dialogue HandlerCall HandlerReply R

/-- A handler is given its context, and its program is run on the connection. -/
def handling (host : Host W) (program : Routing.Context (Connection W) → HandlerProgram Unit) :
    RouteHandler (Connection W) := fun context =>
  { context with rest := ((program context).run (handlerPerform host) context.rest).2 }

def guarding (host : Host W) (program : Routing.Context (Connection W) → HandlerProgram Bool) :
    RouteGuard (Connection W) := fun context =>
  let ran := (program context).run (handlerPerform host) context.rest
  (ran.1, { context with rest := ran.2 })

structure Performs (host : Host W) (route : RouterRoute (Connection W)) : Prop where
  handler : ∃ program, route.handler = handling host program
  guard : ∀ guard, route.guard = some guard → ∃ program, guard = guarding host program

/-- The text of one complete response. -/
def IsResponse (text : Bytes) : Prop :=
  ∃ (call : ResponseCall) (stored : List Sessions.ResponseHeader),
    text = responseText call.start stored call.body

/-- A single call has written, and all of its response. -/
def OneResponse (connection : Connection W) : Prop :=
  connection.responses = 1 ∧ IsResponse connection.written

/-- No call has written. -/
def NoResponse (connection : Connection W) : Prop :=
  connection.responses = 0 ∧ connection.written = []

/-- A connection that is open, and the flag that says what has been written. -/
structure Standing (connection : Connection W) : Prop where
  fd : 0 ≤ connection.clientFd
  requestId : LineFree connection.requestId
  unsent : connection.responseSent = false → NoResponse connection
  sent : connection.responseSent = true → OneResponse connection

variable {host : Host W} {connection : Connection W}

theorem isResponse_ne_nil {text : Bytes} (h : IsResponse text) : text ≠ [] := by
  obtain ⟨call, stored, rfl⟩ := h
  rw [call.responseText_eq]
  exact List.append_ne_nil_of_right_ne_nil _ (List.append_ne_nil_of_left_ne_nil (by decide) _)

theorem Standing.oneResponse_iff (h : Standing connection) :
    OneResponse connection ↔ connection.responseSent = true := by
  constructor
  · intro hresponse
    by_contra hunsent
    exact isResponse_ne_nil hresponse.2 (h.unsent (Bool.eq_false_iff.mpr hunsent)).2
  · exact h.sent

theorem Standing.frame (h : Standing connection) (context : Sessions.Context) (world : W) :
    Standing { connection with context := context, world := world } :=
  ⟨h.fd, h.requestId, h.unsent, h.sent⟩

section send
variable (hwilling : host.peer.Willing)
include hwilling

/-- A response that is sent on an open connection is the first one. -/
theorem ceasySendResponse_standing (h : Standing connection)
    (hunsent : connection.responseSent = false) (call : ResponseCall) :
    Standing (ceasySendResponse host.environment host.peer connection call.start call.body).2 ∧
      (ceasySendResponse host.environment host.peer connection call.start call.body).2.responseSent =
        (ceasySendResponse host.environment host.peer connection call.start call.body).1 := by
  obtain ⟨context, world, hprepared⟩ :=
    ceasyPrepareResponse_frame host.environment host.peer connection
  have hfirst := h.unsent hunsent
  cases hsent : (ceasySendResponse host.environment host.peer connection call.start call.body).1 with
  | true =>
    obtain ⟨-, next, hstate⟩ := ceasySendResponse_sent hsent
    rw [hstate, hprepared]
    refine ⟨⟨h.fd, h.requestId, fun hsome => Bool.noConfusion hsome, fun _ => ⟨?_, ?_⟩⟩, rfl⟩
    · dsimp only
      rw [hfirst.1]
    · dsimp only
      rw [hfirst.2, List.nil_append]
      exact ⟨call, context.responseHeaders, rfl⟩
  | false =>
    have hfailed : (ceasyPrepareResponse host.environment host.peer connection).1 = false :=
      (ceasySendResponse_willing hwilling call.start call.body).symm.trans hsent
    have hstate : (ceasySendResponse host.environment host.peer connection call.start call.body).2 =
        (ceasyPrepareResponse host.environment host.peer connection).2 := by
      unfold ceasySendResponse
      dsimp only
      rw [hfailed]
      rfl
    rw [hstate, hprepared]
    exact ⟨h.frame context world, hunsent⟩

theorem contextSendBytes_standing (h : Standing connection) (status contentType : Option Bytes)
    (body : Body) :
    Standing (contextSendBytes host.environment host.peer connection status contentType body).2 := by
  unfold contextSendBytes
  split
  · split_ifs with hrefused
    · exact h
    · rw [Bool.or_eq_true, Bool.or_eq_true, not_or, not_or, Bool.not_eq_true] at hrefused
      exact (ceasySendResponse_standing hwilling h hrefused.1.1 (.bytes _ _ body)).1
  · exact h
  · exact h

theorem contextRedirect_standing (h : Standing connection) (location : Option Bytes) :
    Standing (contextRedirect host.environment host.peer connection location).2 := by
  unfold contextRedirect
  split
  · split_ifs with hrefused
    · exact h
    · rw [Bool.or_eq_true, not_or, Bool.not_eq_true] at hrefused
      exact (ceasySendResponse_standing hwilling h hrefused.1 (.redirect _)).1
  · exact h

theorem sendRendered_standing (h : Standing connection) (rendered : Rendered)
    (status : Option Bytes) : Standing (sendRendered host connection rendered status).2 := by
  unfold sendRendered
  split
  · exact contextSendBytes_standing hwilling h _ _ _
  · exact contextSendBytes_standing hwilling h _ _ _

theorem handlerPerform_standing (call : HandlerCall) (connection : Connection W)
    (h : Standing connection) : Standing (handlerPerform host call connection).2 := by
  cases call with
  | session operation => exact h.frame _ _
  | store call => exact h.frame _ connection.world
  | sendBytes status contentType body => exact contextSendBytes_standing hwilling h _ _ _
  | redirect location => exact contextRedirect_standing hwilling h _
  | renderWithoutLayout views path => exact sendRendered_standing hwilling h _ _
  | renderStatus views path status => exact sendRendered_standing hwilling h _ _

theorem served_standing {route : RouterRoute (Connection W)} (hroute : Performs host route)
    {context : Routing.Context (Connection W)} (h : Standing context.rest) :
    Standing (Routing.served route context).rest := by
  obtain ⟨program, hhandler⟩ := hroute.handler
  unfold Routing.served
  rw [hhandler]
  cases hguard : route.guard with
  | none => exact Dialogue.run_holds (handlerPerform_standing hwilling) _ h
  | some guard =>
    obtain ⟨check, rfl⟩ := hroute.guard guard hguard
    have hchecked : Standing (guarding host check context).2.rest :=
      Dialogue.run_holds (handlerPerform_standing hwilling) _ h
    dsimp only
    split_ifs
    · exact Dialogue.run_holds (handlerPerform_standing hwilling) _ hchecked
    · exact hchecked

end send

theorem body_of {bytes : Bytes} (h : (Body.of bytes).data = none) : (Body.of bytes).length = 0 := by
  cases h

section texts
variable (hworks : host.peer.Works host.environment)
include hworks

theorem sendText_standing (h : Standing connection) (status : String) (body : Body) :
    Standing (sendText host connection status body) :=
  contextSendBytes_standing hworks.willing h _ _ _

/-- On an open connection a text is sent exactly where a response can be prepared. -/
theorem sendText_sent (h : Standing connection) (hunsent : connection.responseSent = false)
    (status : String) {body : Body} (hbody : body.data = none → body.length = 0) :
    (sendText host connection status body).responseSent = true ↔
      Prepares host.environment connection := by
  have hgood : (connection.responseSent || decide (connection.clientFd < 0) ||
      (decide (0 < body.length) && body.data.isNone)) = false := by
    rw [hunsent, decide_eq_false (Int.not_lt.mpr h.fd), Bool.or_false, Bool.false_or]
    cases hdata : body.data with
    | none =>
      rw [hbody hdata]
      rfl
    | some bytes => exact Bool.and_false _
  rw [sendText, contextSendText, contextSendBytes, hgood, if_neg Bool.false_ne_true,
    ← ceasySendResponse_works hworks h.requestId]
  exact Bool.eq_iff_iff.mp (ceasySendResponse_standing hworks.willing h hunsent
    (.bytes (sv status) (sv "text/plain; charset=utf-8") body)).2

end texts

theorem missing_le (names : List Bytes) (headers : List Sessions.ResponseHeader) :
    missing names headers ≤ headers.length := List.countP_le_length

/-- From a context that nothing has been done with, a response can be prepared. -/
theorem prepares_fresh {environment : Environment} (request : Request)
    (hcontext : connection.context = { request := request }) :
    Prepares environment connection := by
  have hidle : ¬ Pending connection.context := by
    rw [hcontext]
    rintro ⟨hloaded, -⟩
    cases hloaded
  refine ⟨fun hpending => absurd hpending hidle, .inr ?_⟩
  have hnames : namesToSend connection.context = [] := by
    rw [namesToSend, if_neg hidle, hcontext]
    rfl
  have hmissing := missing_le [] (preparedHeaders connection.requestId)
  have hlength : (preparedHeaders connection.requestId).length ≤ 4 := by
    unfold preparedHeaders
    split_ifs
    · exact show 3 ≤ 4 by decide
    · exact show 4 ≤ 4 by decide
  have hmax : Sessions.CEASY_MAX_RESPONSE_HEADERS = 32 := rfl
  rw [hnames, List.length_nil]
  omega

section admission
variable {next : Connection W}

theorem methodWrites_override {method : HttpMethod} (h : methodWrites method = true)
    (override : Bytes) : methodWrites (ceasyOverride method override) = true := by
  unfold ceasyOverride
  split_ifs
  · rfl
  · rfl
  · exact h

theorem ceasyVerify_request (host : Host W) (connection : Connection W) (token : Bytes) :
    (ceasyVerify host connection token).2.context.request = connection.context.request := by
  obtain ⟨events, hrequest⟩ := (Sessions.csrfVerify_request rfl []).run host.peer.serve
    connection.world
  exact hrequest

theorem ceasyAdmit_forbidden (h : ceasyAdmit host connection = .forbidden next) :
    ∃ context world, next = { connection with context := context, world := world } := by
  unfold ceasyAdmit at h
  dsimp only at h
  split_ifs at h
  cases h
  exact ⟨_, _, rfl⟩

/-- An admitted request differs in its method, if at all, and then it is one that writes. -/
theorem ceasyAdmit_admitted (h : ceasyAdmit host connection = .admitted next) :
    (∃ context world, next = { connection with context := context, world := world }) ∧
      next.context.request.path = connection.context.request.path ∧
      (next.context.request.method = .get → next = connection) := by
  unfold ceasyAdmit at h
  dsimp only at h
  split_ifs at h with hform hparsed hwrites
  · cases h
    refine ⟨⟨_, _, rfl⟩, by rw [ceasyVerify_request], fun hget => ?_⟩
    rw [ceasyVerify_request] at hget
    exact absurd (hwrites.symm.trans (congrArg methodWrites hget)) (by decide)
  · rw [Bool.and_eq_true] at hform
    exact absurd (methodWrites_override hform.1 _) hwrites
  · cases h
    exact ⟨⟨_, _, rfl⟩, rfl, fun _ => rfl⟩

end admission

/-- No route for a method other than GET is the case that is not answered; elsewhere a response is
sent where the context that is left lets one be prepared. -/
def RouteReplies (host : Host W) (router : Router (Connection W))
    (garbage : List RouteParam × List RouteParam) (connection : Connection W) : Prop :=
  let request := connection.context.request
  let dispatched := routerDispatch router (ceasyMethodName request.method) (cstrOf request.path)
    (routedContext connection) garbage
  match dispatched.1 with
  | .notFound => request.method = .get
  | .methodNotAllowed => Prepares host.environment connection
  | .dispatched =>
    dispatched.2.rest.responseSent = true ∨ Prepares host.environment dispatched.2.rest

def Replies (host : Host W) (router : Router (Connection W))
    (garbage : List RouteParam × List RouteParam) (connection : Connection W) : Prop :=
  match ceasyAdmit host connection with
  | .malformed => True
  | .forbidden next => Prepares host.environment next
  | .admitted next => RouteReplies host router garbage next

section replies
variable (hworks : host.peer.Works host.environment)
include hworks

/-- Sending an asset from a context that a response can be prepared from either is not tried or
succeeds. -/
theorem assetServe_replies (h : Standing connection) (hunsent : connection.responseSent = false)
    (hprepares : Prepares host.environment connection) (path : Bytes) :
    assetServe host.environment host.peer host.assets host.bundle connection path =
        (false, connection) ∨
      (assetServe host.environment host.peer host.assets host.bundle connection path).1 = true ∧
        Standing
          (assetServe host.environment host.peer host.assets host.bundle connection path).2 ∧
        (assetServe host.environment host.peer host.assets host.bundle connection
          path).2.responseSent = true := by
  have hsend : ∀ (status contentType : Option Bytes) (body : Body),
      contextSendBytes host.environment host.peer connection status contentType body =
          (false, connection) ∨
        (contextSendBytes host.environment host.peer connection status contentType body).1 = true ∧
        Standing
          (contextSendBytes host.environment host.peer connection status contentType body).2 ∧
        (contextSendBytes host.environment host.peer connection status contentType
          body).2.responseSent = true := by
    intro status contentType body
    have hstanding := contextSendBytes_standing hworks.willing h status contentType body
    unfold contextSendBytes at hstanding ⊢
    split
    · split_ifs at hstanding ⊢
      · exact .inl rfl
      · next status contentType _ =>
        have hsent := (ceasySendResponse_works hworks h.requestId
          (ResponseCall.bytes status contentType body).start body.bytes).mpr hprepares
        exact .inr ⟨hsent, hstanding,
          (ceasySendResponse_standing hworks.willing h hunsent
            (.bytes status contentType body)).2.trans hsent⟩
    · exact .inl rfl
    · exact .inl rfl
  unfold assetServe
  split
  · exact .inl rfl
  · split
    · exact hsend _ _ _
    · exact .inl rfl
    · split
      · exact .inl rfl
      · exact hsend _ _ _

theorem ceasyRoute_replies (router : Router (Connection W))
    (hroutes : ∀ route ∈ router.routes, Performs host route)
    (garbage : List RouteParam × List RouteParam) (h : Standing connection)
    (hunsent : connection.responseSent = false)
    (hget : connection.context.request.method = .get → Prepares host.environment connection) :
    Standing (ceasyRoute host router garbage connection) ∧
      ((ceasyRoute host router garbage connection).responseSent = true ↔
        RouteReplies host router garbage connection) := by
  have hdispatches := Routing.routerDispatch_dispatches router
    (ceasyMethodName connection.context.request.method) (cstrOf connection.context.request.path)
    (routedContext connection) garbage
  unfold ceasyRoute RouteReplies
  dsimp only
  generalize routerDispatch router (ceasyMethodName connection.context.request.method)
    (cstrOf connection.context.request.path) (routedContext connection) garbage = dispatched
    at hdispatches ⊢
  cases hdispatches with
  | @dispatched index route found bound hselected hbound =>
    have hmem := List.mem_of_getElem? hselected.candidate.listed
    have hserved : Standing (Routing.served route bound).rest :=
      served_standing hworks.willing (hroutes route hmem) (by rw [hbound.rest]; exact h)
    dsimp only
    split_ifs with hsent
    · exact ⟨hserved, iff_of_true hsent (.inl hsent)⟩
    · rw [or_iff_right hsent]
      exact ⟨sendText_standing hworks hserved _ _,
        sendText_sent hworks hserved (Bool.eq_false_iff.mpr hsent) _ fun _ => rfl⟩
  | @methodNotAllowed bound hnone hsome hbound =>
    have hrest : bound.rest = connection := hbound.rest
    dsimp only
    rw [hrest]
    exact ⟨sendText_standing hworks h _ _, sendText_sent hworks h hunsent _ body_of⟩
  | @notFound bound hnone hbound =>
    have hrest : bound.rest = connection := hbound.rest
    dsimp only
    rw [hrest]
    split_ifs with hmethod hserved
    · rcases assetServe_replies hworks h hunsent (hget hmethod) bound.path with hnothing | hdone
      · rw [hnothing] at hserved
        cases hserved
      · exact ⟨hdone.2.1, iff_of_true hdone.2.2 hmethod⟩
    · rcases assetServe_replies hworks h hunsent (hget hmethod) bound.path with hnothing | hdone
      · rw [hnothing]
        exact ⟨sendText_standing hworks h _ _, iff_of_true
          ((sendText_sent hworks h hunsent _ body_of).mpr (hget hmethod)) hmethod⟩
      · exact absurd hdone.1 hserved
    · exact ⟨h, iff_of_false (Bool.eq_false_iff.mp hunsent) hmethod⟩

theorem ceasyHandleRequest_replies (router : Router (Connection W))
    (hroutes : ∀ route ∈ router.routes, Performs host route)
    (garbage : List RouteParam × List RouteParam) (h : Standing connection)
    (hunsent : connection.responseSent = false) {request : Request}
    (hcontext : connection.context = { request := request }) (hpath : request.path ≠ []) :
    Standing (ceasyHandleRequest host router garbage connection) ∧
      ((ceasyHandleRequest host router garbage connection).responseSent = true ↔
        Replies host router garbage connection) := by
  have hfresh : Prepares host.environment connection := prepares_fresh request hcontext
  unfold ceasyHandleRequest Replies
  cases hadmit : ceasyAdmit host connection with
  | malformed =>
    exact ⟨sendText_standing hworks h _ _,
      iff_of_true ((sendText_sent hworks h hunsent _ body_of).mpr hfresh) trivial⟩
  | forbidden next =>
    obtain ⟨context, world, rfl⟩ := ceasyAdmit_forbidden hadmit
    have hnext := h.frame context world
    exact ⟨sendText_standing hworks hnext _ _, sendText_sent hworks hnext hunsent _ body_of⟩
  | admitted next =>
    obtain ⟨⟨context, world, hframe⟩, hsame, hget⟩ := ceasyAdmit_admitted hadmit
    have hnext : Standing next := by
      rw [hframe]
      exact h.frame context world
    have hnonempty : next.context.request.path.length ≠ 0 := by
      rw [hsame, hcontext]
      exact fun hzero => hpath (List.length_eq_zero_iff.mp hzero)
    dsimp only
    rw [if_neg hnonempty]
    refine ceasyRoute_replies hworks router hroutes garbage hnext (by rw [hframe]; exact hunsent) ?_
    intro hmethod
    rw [hget hmethod]
    exact hfresh

end replies

theorem requestParseHeaderLines_path (raw : Bytes) (headerEnd cursor : ℕ) (request : Request) :
    (requestParseHeaderLines raw headerEnd cursor request).2.path = request.path := by
  fun_induction requestParseHeaderLines raw headerEnd cursor request with
  | case1 => rfl
  | case2 => rfl
  | case3 => rfl
  | case4 cursor request _ relativeEnd _ _ next hline ih =>
    rw [ih, RequestFraming.requestHeaderLine_field hline]
  | case5 => rfl

theorem requestParseHeaders_path {raw : Bytes} {headerEnd : ℕ} {request : Request}
    (h : requestParseHeaders {} raw headerEnd = (.ok, request)) : request.path ≠ [] := by
  unfold requestParseHeaders at h
  split at h
  · cases h
  next lineEnd _ =>
  split at h
  · cases h
  next method target _ =>
  dsimp only at h
  split at h
  · cases h
  next hpath =>
  have hset : (requestSetTarget {} method target).path ≠ [] :=
    fun hnil => hpath (List.length_eq_zero_iff.mpr hnil)
  have hkept := requestParseHeaderLines_path raw headerEnd (lineEnd + 2)
    (requestSetTarget {} method target)
  split at h
  · next last hlines =>
    cases h
    rw [hlines] at hkept
    exact hkept ▸ hset
  · next filled hlines =>
    rw [hlines] at hkept
    rw [(RequestFraming.requestCheckFraming_ok h).1]
    exact hkept ▸ hset

theorem requestParse_path {raw : Bytes} {request : Request}
    (h : requestParse raw = (.ok, request)) : request.path ≠ [] := by
  unfold requestParse at h
  split at h
  · split at h <;> cases h
  split at h
  · cases h
  split at h
  · next request hheaders =>
    split at h
    · cases h
    · cases h
      exact (requestParseHeaders_path hheaders : request.path ≠ [])
  · next hother _ =>
    cases h
    exact (hother rfl).elim

theorem hexDigit_lineFree : ∀ byte : UInt8,
    LineFree [hexDigit (byte >>> 4), hexDigit (byte &&& 15)] := by
  decide +kernel

theorem requestIdText_lineFree (bytes : Fin 8 → UInt8) : LineFree (requestIdText bytes) := by
  constructor
  · intro hmem
    obtain ⟨byte, -, hbyte⟩ := List.mem_flatMap.mp hmem
    exact (hexDigit_lineFree byte).1 hbyte
  · intro hmem
    obtain ⟨byte, -, hbyte⟩ := List.mem_flatMap.mp hmem
    exact (hexDigit_lineFree byte).2 hbyte

theorem openConnection_standing {clientFd : ℤ} (hfd : 0 ≤ clientFd) (request : Request)
    (world : W) : Standing (openConnection host clientFd request world) := by
  refine ⟨hfd, ?_, fun _ => ⟨rfl, rfl⟩, fun hsent => Bool.noConfusion hsent⟩
  unfold openConnection
  dsimp only
  split_ifs
  · exact requestIdText_lineFree host.requestIdBytes
  · exact ⟨List.not_mem_nil, List.not_mem_nil⟩

theorem readAnswer_path {stream : Bytes} {request : Request}
    (h : readAnswer stream = (.ok, request)) : request.path ≠ [] := by
  unfold readAnswer at h
  split at h
  · cases h
  split at h
  · cases h
  · exact requestParse_path h

/-- A request that is accepted is answered with one response where its route replies, and with
nothing elsewhere: no second call ever writes. -/
theorem ceasyHandleClient_replies_iff (host : Host W) (hworks : host.peer.Works host.environment)
    (harena : host.arenaInit = true) (hdatabase : host.databaseOpen = true)
    (router : Router (Connection W)) (hroutes : ∀ route ∈ router.routes, Performs host route)
    (garbage : List RouteParam × List RouteParam) (clientFd : ℤ) (hfd : 0 ≤ clientFd) (world : W)
    (request : Request) (hread : ceasyReadRequest host.stream host.chunk = (.ok, request)) :
    (OneResponse (ceasyHandleClient host router garbage clientFd world) ↔
        Replies host router garbage (openConnection host clientFd request world)) ∧
      (¬ Replies host router garbage (openConnection host clientFd request world) →
        NoResponse (ceasyHandleClient host router garbage clientFd world)) := by
  have hpath : request.path ≠ [] := readAnswer_path ((ceasyReadRequest_answer _ _).symm.trans hread)
  have hhandled : ceasyHandleClient host router garbage clientFd world =
      ceasyHandleRequest host router garbage (openConnection host clientFd request world) := by
    unfold ceasyHandleClient
    rw [harena, hdatabase, hread]
    rfl
  obtain ⟨hstanding, hsent⟩ := ceasyHandleRequest_replies hworks router hroutes garbage
    (openConnection_standing hfd request world) rfl rfl hpath
  rw [hhandled, hstanding.oneResponse_iff, hsent]
  exact ⟨Iff.rfl, fun hsilent => hstanding.unsent (Bool.eq_false_iff.mpr (mt hsent.mp hsilent))⟩

theorem workingPeer_works (stream : Bytes) :
    workingPeer.Works (workingHost stream).environment where
  willing := fun data _ hdata => ⟨data.length, (), rfl, List.length_pos_iff.mpr hdata⟩
  deletes := fun _ _ => rfl
  replaces := fun _ _ _ _ _ => rfl
  issues := fun _ => ⟨_, rfl, List.replicate Sessions.SESSION_TOKEN_BYTES 0,
    List.length_replicate, rfl⟩
  digests := fun token _ => ⟨token, rfl⟩

/-- A page whose handler keeps something in the session, sends a text and then tries to redirect. -/
def pageRouter (host : Host Unit) : Router (Connection Unit) where
  routes :=
    [{ path := ⟨sv "/posts", posts_noNul⟩
       method := .get
       handler := handling host fun _ =>
        .call (.session (.session (.setInt64 (sv "visits") 1))) fun _ =>
        .call (.sendBytes (some (sv "200 OK")) (some (sv "text/plain")) (.of (sv "posts\n"))) fun _ =>
        .call (.redirect (some (sv "/"))) fun _ =>
        .done ()
       guard := none }]
  few := one_few

def pageRequest : Bytes := sv "GET /posts HTTP/1.1\r\n\r\n"

theorem ceasyHandleClient_replies_page :
    OneResponse (ceasyHandleClient (workingHost pageRequest) (pageRouter (workingHost pageRequest))
      ([], []) 4 ()) := by
  have hread := readAnswer_ok (show (readAnswer pageRequest).1 = .ok by decide +kernel)
  have hroutes : ∀ route ∈ (pageRouter (workingHost pageRequest)).routes,
      Performs (workingHost pageRequest) route := by
    intro route hroute
    obtain rfl := List.mem_singleton.mp hroute
    refine ⟨⟨_, rfl⟩, fun guard hguard => ?_⟩
    cases hguard
  refine (ceasyHandleClient_replies_iff (workingHost pageRequest) (workingPeer_works pageRequest) rfl
    rfl (pageRouter (workingHost pageRequest)) hroutes ([], []) 4 (by decide) ()
    (readAnswer pageRequest).2 ((ceasyReadRequest_answer _ _).trans hread)).1.mpr ?_
  have hadmit : ceasyAdmit (workingHost pageRequest)
      (openConnection (workingHost pageRequest) 4 (readAnswer pageRequest).2 ()) =
        .admitted (openConnection (workingHost pageRequest) 4 (readAnswer pageRequest).2 ()) :=
    if_neg (by decide +kernel)
  rw [Replies, hadmit]
  dsimp only
  unfold RouteReplies
  dsimp only
  generalize hdispatched : routerDispatch (pageRouter (workingHost pageRequest)) _ _ _ _ = dispatched
  have hroute : dispatched.1 = .dispatched := by
    rw [← hdispatched]
    decide +kernel
  rw [hroute]
  refine .inl ?_
  rw [← hdispatched]
  decide +kernel

def strayRequest : Bytes := sv "POST /missing HTTP/1.1\r\n\r\n"

/-- It is read, and the connection is closed with nothing written. -/
theorem ceasyHandleClient_silent :
    readAnswer strayRequest = (.ok, (readAnswer strayRequest).2) ∧
      ¬ OneResponse (ceasyHandleClient (workingHost strayRequest) Routing.routerInit ([], []) 4 ()) := by
  have hread := readAnswer_ok (show (readAnswer strayRequest).1 = .ok by decide +kernel)
  refine ⟨hread, fun hresponse => isResponse_ne_nil hresponse.2 ?_⟩
  rw [ceasyHandleClient_read hread]
  decide +kernel

end Ceasy.Serving
