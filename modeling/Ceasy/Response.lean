import Ceasy.RequestLines
import Ceasy.ResponseHeaders
import Ceasy.Session

set_option autoImplicit false

/-!
# Responses

A response is written to the client's socket behind the headers that its context has stored. The
context has an arena, which is taken to have room.
-/
namespace Ceasy.Responses
open StringView RequestParse RequestLines Sessions

variable {W : Type*}

/-- What answers a request's calls. The socket takes some of the bytes of a call of `send`, or
refuses it; an interrupted call is made again with the same bytes, and is not counted. -/
structure Peer (W : Type*) where
  serve : (c : SessionCall) → W → SessionReply c × W
  send : Bytes → W → Option ℕ × W

/-- A context, its socket and the bytes that the socket has taken. How many responses have been
written, in full or in part, is not kept in C. -/
structure Connection (W : Type*) where
  context : Sessions.Context
  clientFd : ℤ
  responseSent : Bool := false
  requestId : Bytes := []
  written : Bytes := []
  responses : ℕ := 0
  world : W

/-- A pointer to bytes, which may be NULL, and how many there are. -/
structure Body where
  data : Option Bytes
  length : ℕ
  full : ∀ bytes, data = some bytes → bytes.length = length

def Body.bytes (body : Body) : Bytes := body.data.getD []

def Body.of (bytes : Bytes) : Body := ⟨some bytes, bytes.length, fun _ h => by cases h; rfl⟩

/-- `(StringView){0}`. -/
def Body.none : Body := ⟨.none, 0, nofun⟩

def ceasySendAll (peer : Peer W) (connection : Connection W) (data : Bytes) :
    Bool × Connection W :=
  if _h : 0 < data.length then
    match peer.send data connection.world with
    | (.none, world) => (false, { connection with world := world })
    | (some sent, world) =>
      if _hsent : sent = 0 then (false, { connection with world := world })
      else
        ceasySendAll peer
          { connection with written := connection.written ++ data.take sent, world := world }
          (data.drop sent)
  else (true, connection)
termination_by data.length
decreasing_by
  rw [List.length_drop]
  omega

/-- Calls of `context_set_header` joined by `&&`. -/
def contextSetHeaders (context : Context) : List ResponseHeader → Bool × Context
  | [] => (true, context)
  | header :: headers =>
    let (done, context) := contextSetHeader context header.name header.value
    if done then contextSetHeaders context headers else (false, context)

def preparedHeaders (requestId : Bytes) : List ResponseHeader :=
  [⟨sv "X-Content-Type-Options", sv "nosniff"⟩,
    ⟨sv "Referrer-Policy", sv "strict-origin-when-cross-origin"⟩,
    ⟨sv "X-Frame-Options", sv "SAMEORIGIN"⟩] ++
  if requestId.length = 0 then [] else [⟨sv "X-Request-ID", requestId⟩]

def ceasyPrepareResponse (environment : Environment) (peer : Peer W) (connection : Connection W) :
    Bool × Connection W :=
  let ((committed, context), world) :=
    (sessionCommit environment connection.context).run peer.serve connection.world
  let connection := { connection with context := context, world := world }
  if !committed then (false, connection)
  else
    let (done, context) := contextSetHeaders context (preparedHeaders connection.requestId)
    (done, { connection with context := context })

def headerLine (header : ResponseHeader) : Bytes := header.name ++ sv ": " ++ header.value

def ceasyAppendResponseHeaders (header : Bytes) (context : Context) : Bytes :=
  header ++ context.responseHeaders.flatMap fun item => headerLine item ++ sv "\r\n"

/-- The head of a response and, behind it, the body, if there is one. -/
def ceasySendParts (peer : Peer W) (connection : Connection W) (header body : Bytes) :
    Bool × Connection W :=
  let sent := ceasySendAll peer connection header
  if sent.1 && decide (0 < body.length) then ceasySendAll peer sent.2 body else sent

/-- The common end of the two functions that send a response: `start` is the head up to the stored
headers. -/
def ceasySendResponse (environment : Environment) (peer : Peer W) (connection : Connection W)
    (start body : Bytes) : Bool × Connection W :=
  let prepared := ceasyPrepareResponse environment peer connection
  if !prepared.1 then (false, prepared.2)
  else
    let header := ceasyAppendResponseHeaders start prepared.2.context ++
      (sv "Content-Length: " ++ decimal body.length ++ sv "\r\nConnection: close\r\n\r\n")
    let sent := ceasySendParts peer { prepared.2 with responses := prepared.2.responses + 1 } header body
    (sent.1, if sent.1 then { sent.2 with responseSent := true } else sent.2)

def contextSendBytes (environment : Environment) (peer : Peer W) (connection : Connection W)
    (status contentType : Option Bytes) (body : Body) : Bool × Connection W :=
  match status, contentType with
  | some status, some contentType =>
    if connection.responseSent || decide (connection.clientFd < 0) ||
        (decide (0 < body.length) && body.data.isNone) then (false, connection)
    else
      ceasySendResponse environment peer connection
        (sv "HTTP/1.1 " ++ status ++ sv "\r\nContent-Type: " ++ contentType ++ sv "\r\n") body.bytes
  | some _, .none => (false, connection)
  | .none, _ => (false, connection)

def contextSendText (environment : Environment) (peer : Peer W) (connection : Connection W)
    (status : Option Bytes) (body : Body) : Bool × Connection W :=
  contextSendBytes environment peer connection status (some (sv "text/plain; charset=utf-8")) body

def contextSendHtml (environment : Environment) (peer : Peer W) (connection : Connection W)
    (status : Option Bytes) (body : Body) : Bool × Connection W :=
  contextSendBytes environment peer connection status (some (sv "text/html; charset=utf-8")) body

def contextRedirect (environment : Environment) (peer : Peer W) (connection : Connection W)
    (location : Option Bytes) : Bool × Connection W :=
  match location with
  | some location =>
    if connection.responseSent || decide (connection.clientFd < 0) then (false, connection)
    else
      ceasySendResponse environment peer connection
        (sv "HTTP/1.1 303 See Other\r\nLocation: " ++ location ++ sv "\r\n") []
  | .none => (false, connection)

variable {peer : Peer W} {connection : Connection W} {environment : Environment}

theorem ceasyPrepareResponse_frame (environment : Environment) (peer : Peer W)
    (connection : Connection W) : ∃ context world,
      (ceasyPrepareResponse environment peer connection).2 =
        { connection with context := context, world := world } := by
  unfold ceasyPrepareResponse
  dsimp only
  split_ifs
  · exact ⟨_, _, rfl⟩
  · exact ⟨_, _, rfl⟩

/-- Sending changes the world and appends to what is written; when it succeeds, all of the
bytes. -/
theorem ceasySendAll_sends (connection : Connection W) (data : Bytes) :
    ∃ world taken, (ceasySendAll peer connection data).2 =
        { connection with written := connection.written ++ taken, world := world } ∧
      ((ceasySendAll peer connection data).1 = true → taken = data) := by
  induction hlength : data.length using Nat.strong_induction_on generalizing connection data with
  | _ length ih =>
    subst hlength
    rw [ceasySendAll]
    split_ifs with hdata
    · split
      · next world hsend =>
        exact ⟨world, [], by rw [List.append_nil], nofun⟩
      · next sent world hsend =>
        split_ifs with hsent
        · exact ⟨world, [], by rw [List.append_nil], nofun⟩
        · obtain ⟨last, taken, hstate, htaken⟩ := ih (data.drop sent).length
            (by rw [List.length_drop]; omega)
            { connection with written := connection.written ++ data.take sent, world := world }
            (data.drop sent) rfl
          refine ⟨last, data.take sent ++ taken, ?_, fun h => ?_⟩
          · rw [hstate, List.append_assoc]
          · rw [htaken h, List.take_append_drop]
    · refine ⟨connection.world, [], by rw [List.append_nil], fun _ => ?_⟩
      exact (List.length_eq_zero_iff.mp (Nat.eq_zero_of_not_pos hdata)).symm

theorem ceasySendParts_sends (connection : Connection W) (header body : Bytes) :
    ∃ world taken, (ceasySendParts peer connection header body).2 =
        { connection with written := connection.written ++ taken, world := world } ∧
      ((ceasySendParts peer connection header body).1 = true → taken = header ++ body) := by
  obtain ⟨world, taken, hstate, htaken⟩ := @ceasySendAll_sends _ peer connection header
  unfold ceasySendParts
  dsimp only
  split_ifs with hbody
  · rw [Bool.and_eq_true] at hbody
    obtain ⟨last, more, hlast, hmore⟩ := @ceasySendAll_sends _ peer
      (ceasySendAll peer connection header).2 body
    refine ⟨last, taken ++ more, ?_, fun h => ?_⟩
    · rw [hlast, hstate, List.append_assoc]
    · rw [htaken hbody.1, hmore h]
  · refine ⟨world, taken, hstate, fun h => ?_⟩
    have hnil : body = [] := by
      by_contra hne
      exact hbody (by rw [h, decide_eq_true (List.length_pos_iff.mpr hne)]; rfl)
    rw [hnil, List.append_nil]
    exact htaken h

def responseText (start : Bytes) (headers : List ResponseHeader) (body : Bytes) : Bytes :=
  start ++ headers.flatMap (fun item => headerLine item ++ sv "\r\n") ++
    (sv "Content-Length: " ++ decimal body.length ++ sv "\r\nConnection: close\r\n\r\n") ++ body

/-- A response that is sent was prepared, and its text is what is written behind that. -/
theorem ceasySendResponse_sent {start body : Bytes}
    (h : (ceasySendResponse environment peer connection start body).1 = true) :
    (ceasyPrepareResponse environment peer connection).1 = true ∧
      ∃ world, (ceasySendResponse environment peer connection start body).2 =
        { (ceasyPrepareResponse environment peer connection).2 with
          responseSent := true
          responses := (ceasyPrepareResponse environment peer connection).2.responses + 1
          written := (ceasyPrepareResponse environment peer connection).2.written ++
            responseText start
              (ceasyPrepareResponse environment peer connection).2.context.responseHeaders body
          world := world } := by
  unfold ceasySendResponse at h ⊢
  generalize ceasyPrepareResponse environment peer connection = prepared at h ⊢
  dsimp only at h ⊢
  cases hprepared : prepared.1 with
  | false =>
    rw [hprepared, Bool.not_false, if_pos rfl] at h
    cases h
  | true =>
    refine ⟨rfl, ?_⟩
    rw [hprepared] at h
    rw [Bool.not_true, if_neg Bool.false_ne_true] at h ⊢
    obtain ⟨world, taken, hstate, htaken⟩ := @ceasySendParts_sends _ peer
      { prepared.2 with responses := prepared.2.responses + 1 }
      (ceasyAppendResponseHeaders start prepared.2.context ++
        (sv "Content-Length: " ++ decimal body.length ++ sv "\r\nConnection: close\r\n\r\n")) body
    rw [if_pos h, hstate, htaken h]
    exact ⟨world, rfl⟩

/-- The socket takes some of whatever is sent to it. -/
def Peer.Willing (peer : Peer W) : Prop :=
  ∀ data world, data ≠ [] → ∃ sent next, peer.send data world = (some sent, next) ∧ 0 < sent

theorem ceasySendAll_willing (h : peer.Willing) (connection : Connection W) (data : Bytes) :
    (ceasySendAll peer connection data).1 = true := by
  induction hlength : data.length using Nat.strong_induction_on generalizing connection data with
  | _ length ih =>
    subst hlength
    rw [ceasySendAll]
    split_ifs with hdata
    · obtain ⟨sent, world, hsend, hpos⟩ := h data connection.world (List.length_pos_iff.mp hdata)
      rw [hsend]
      dsimp only
      rw [dif_neg (Nat.ne_of_gt hpos)]
      exact ih (data.drop sent).length (by rw [List.length_drop]; omega) _ _ rfl
    · rfl

theorem ceasySendParts_willing (h : peer.Willing) (connection : Connection W) (header body : Bytes) :
    (ceasySendParts peer connection header body).1 = true := by
  unfold ceasySendParts
  dsimp only
  split_ifs
  · exact ceasySendAll_willing h _ _
  · exact ceasySendAll_willing h _ _

/-- Then a response is sent as soon as it can be prepared. -/
theorem ceasySendResponse_willing (h : peer.Willing) (start body : Bytes) :
    (ceasySendResponse environment peer connection start body).1 =
      (ceasyPrepareResponse environment peer connection).1 := by
  unfold ceasySendResponse
  dsimp only
  cases (ceasyPrepareResponse environment peer connection).1 with
  | false => rfl
  | true =>
    rw [Bool.not_true, if_neg Bool.false_ne_true]
    exact ceasySendParts_willing h _ _ _

end Ceasy.Responses
