import Ceasy.Response

set_option autoImplicit false

/-!
# Reading a response back

What is stored as a header has no line breaks. The status, the content type and the location go
into the head as they are.
-/
namespace Ceasy.Responses
open StringView RequestParse RequestLines Sessions Occurrence

/-- The lines of a text up to the first empty one, and what is behind that. -/
def readHead (value : Bytes) : Option (List Bytes × Bytes) :=
  match _h : stringvFind value crlf with
  | none => none
  | some lineEnd =>
    if lineEnd = 0 then some ([], value.drop 2)
    else
      (readHead (value.drop (lineEnd + 2))).map fun read => (value.take lineEnd :: read.1, read.2)
termination_by value.length
decreasing_by
  have hinside := crlf_inside _h
  rw [List.length_drop]
  omega

inductive StoreCall where
  | header (call : HeaderCall)
  | cookie (name value : Bytes) (options : CookieOptions)

def storePerform (context : Context) : StoreCall → Bool × Context
  | .header call => headerPerform context call
  | .cookie name value options => contextSetCookie context name value options

def storePerformAll (context : Context) (calls : List StoreCall) : Context :=
  calls.foldl (fun context call => (storePerform context call).2) context

inductive ResponseCall where
  | bytes (status contentType : Bytes) (body : Body)
  | redirect (location : Bytes)

def responsePerform {W : Type*} (environment : Environment) (peer : Peer W)
    (connection : Connection W) : ResponseCall → Bool × Connection W
  | .bytes status contentType body =>
    contextSendBytes environment peer connection (some status) (some contentType) body
  | .redirect location => contextRedirect environment peer connection (some location)

def ResponseCall.statusLine : ResponseCall → Bytes
  | .bytes status _ _ => sv "HTTP/1.1 " ++ status
  | .redirect _ => sv "HTTP/1.1 303 See Other"

def ResponseCall.header : ResponseCall → ResponseHeader
  | .bytes _ contentType _ => ⟨sv "Content-Type", contentType⟩
  | .redirect location => ⟨sv "Location", location⟩

def ResponseCall.body : ResponseCall → Bytes
  | .bytes _ _ body => body.bytes
  | .redirect _ => []

def ResponseCall.headers (call : ResponseCall) (stored : List ResponseHeader) :
    List ResponseHeader :=
  call.header :: stored ++
    [⟨sv "Content-Length", decimal call.body.length⟩, ⟨sv "Connection", sv "close"⟩]

def ResponseCall.lines (call : ResponseCall) (stored : List ResponseHeader) : List Bytes :=
  call.statusLine :: (call.headers stored).map headerLine

/-- The arguments that go into the head have no line break. -/
def ResponseCall.Unbroken : ResponseCall → Prop
  | .bytes status contentType _ =>
    stringvContains status crlf = false ∧ stringvContains contentType crlf = false
  | .redirect location => stringvContains location crlf = false

instance (call : ResponseCall) : Decidable call.Unbroken := by
  cases call <;> unfold ResponseCall.Unbroken <;> infer_instance

def Breakless (value : Bytes) : Prop := stringvFind value crlf = none

theorem breakless_iff {value : Bytes} : Breakless value ↔ stringvContains value crlf = false := by
  unfold Breakless stringvContains
  cases stringvFind value crlf with
  | none => exact iff_of_true rfl rfl
  | some i => exact iff_of_false nofun nofun

theorem breakless_of_return {value : Bytes} (h : ch '\r' ∉ value) : Breakless value := by
  rw [Breakless, stringvFind_none (by decide)]
  intro i hocc
  exact h (List.mem_of_mem_drop (hocc.subset (by decide)))

theorem breakless_append {before value : Bytes} (h : ch '\r' ∉ before) :
    Breakless (before ++ value) ↔ Breakless value := by
  unfold Breakless
  rw [stringvFind_none (by decide), stringvFind_none (by decide)]
  constructor
  · intro hnone i hocc
    apply hnone (before.length + i)
    rw [OccursAt, ← List.drop_drop, List.drop_left]
    exact hocc
  · intro hnone i hocc
    rcases Nat.lt_or_ge i before.length with hi | hi
    · -- the return of the line break would be in the first text
      have hget := List.prefix_iff_getElem?.mp hocc 0 (by decide)
      rw [List.getElem?_drop, Nat.add_zero, List.getElem?_append_left hi] at hget
      exact h (List.mem_of_getElem? hget)
    · apply hnone (i - before.length)
      rw [OccursAt, List.drop_append, List.drop_eq_nil_of_le hi, List.nil_append] at hocc
      exact hocc

/-- A line that is not empty, in front of a text that can be read. -/
theorem readHead_line {line : Bytes} (hline : Breakless line) (hne : line ≠ []) (tail : Bytes) :
    readHead (line ++ (crlf ++ tail)) =
      (readHead tail).map fun read => (line :: read.1, read.2) := by
  have hfind := crlf_behind hline tail
  rw [readHead]
  split
  · next hnone =>
    rw [hfind] at hnone
    cases hnone
  · next lineEnd hsome =>
    rw [hfind] at hsome
    cases hsome
    rw [if_neg fun h => hne (List.length_eq_zero_iff.mp h), List.take_left, ← List.drop_drop,
      List.drop_left]
    rfl

theorem readHead_end (tail : Bytes) : readHead (crlf ++ tail) = some ([], tail) := by
  have hfind : stringvFind (crlf ++ tail) crlf = some 0 := @crlf_behind [] rfl tail
  rw [readHead]
  split
  · next hnone =>
    rw [hfind] at hnone
    cases hnone
  · next lineEnd hsome =>
    rw [hfind] at hsome
    cases hsome
    rfl

theorem readHead_lines {lines : List Bytes} (h : ∀ line ∈ lines, Breakless line ∧ line ≠ [])
    (tail : Bytes) :
    readHead (lines.flatMap (fun line => line ++ crlf) ++ (crlf ++ tail)) = some (lines, tail) := by
  induction lines with
  | nil => exact readHead_end tail
  | cons line lines ih =>
    obtain ⟨hline, hne⟩ := h line List.mem_cons_self
    rw [List.flatMap_cons, List.append_assoc, List.append_assoc, readHead_line hline hne,
      ih fun other hother => h other (List.mem_cons_of_mem line hother)]
    rfl

theorem readHead_breakless {value rest : Bytes} {lines : List Bytes}
    (h : readHead value = some (lines, rest)) : ∀ line ∈ lines, Breakless line := by
  induction hlength : value.length using Nat.strong_induction_on generalizing value lines with
  | _ length ih =>
    subst hlength
    rw [readHead] at h
    split at h
    · cases h
    · next lineEnd hfind =>
      have hinside := crlf_inside hfind
      split_ifs at h with hempty
      · cases h
        exact fun line hline => absurd hline List.not_mem_nil
      · rw [Option.map_eq_some_iff] at h
        obtain ⟨⟨others, behind⟩, hothers, hread⟩ := h
        cases hread
        intro line hline
        rcases List.mem_cons.mp hline with rfl | hother
        · rw [Breakless, stringvFind_none (by decide)]
          intro i hocc
          have hbound := occursAt_bound hocc (by decide)
          have hshort : (value.take lineEnd).length = lineEnd := by
            rw [List.length_take]
            omega
          have hcrlf : crlf.length = 2 := rfl
          apply ((stringvFind_some (by decide)).mp hfind).2 i (by omega)
          have hwhole := occursAt_append hocc (by omega) (value.drop lineEnd)
          rwa [List.take_append_drop] at hwhole
        · exact ih _ (by rw [List.length_drop]; omega) hothers rfl line hother

/-- No header that is stored has a line break. -/
def Stored (headers : List ResponseHeader) : Prop :=
  ∀ header ∈ headers, LineFree header.name ∧ LineFree header.value

theorem contextReplaceHeader_stored {name value : Bytes} {headers replaced : List ResponseHeader}
    (h : contextReplaceHeader name value headers = some replaced) (hheaders : Stored headers)
    (hvalue : LineFree value) : Stored replaced := by
  induction headers generalizing replaced with
  | nil => cases h
  | cons header headers ih =>
    obtain ⟨hheader, hrest⟩ := List.forall_mem_cons.mp hheaders
    rw [contextReplaceHeader] at h
    split_ifs at h
    · cases h
      exact List.forall_mem_cons.mpr ⟨⟨hheader.1, hvalue⟩, hrest⟩
    · rw [Option.map_eq_some_iff] at h
      obtain ⟨others, hothers, rfl⟩ := h
      exact List.forall_mem_cons.mpr ⟨hheader, ih hothers hrest⟩

theorem stored_snoc {headers : List ResponseHeader} {header : ResponseHeader}
    (h : Stored headers) (hheader : LineFree header.name ∧ LineFree header.value) :
    Stored (headers ++ [header]) :=
  List.forall_mem_append.mpr ⟨h, List.forall_mem_singleton.mpr hheader⟩

theorem headerPerform_stored {context : Context} (h : Stored context.responseHeaders)
    (call : HeaderCall) : Stored (headerPerform context call).2.responseHeaders := by
  rw [headerPerform_eq]
  split_ifs with haccepted
  · obtain ⟨⟨-, hname, hvalue, -⟩, -⟩ := haccepted
    cases call with
    | add name value => exact stored_snoc h ⟨hname, hvalue⟩
    | set name value =>
      change Stored (referenceSet name value context.responseHeaders)
      rw [referenceSet]
      cases hreplaced : contextReplaceHeader name value context.responseHeaders with
      | none => exact stored_snoc h ⟨hname, hvalue⟩
      | some replaced => exact contextReplaceHeader_stored hreplaced h hvalue
  · exact h

theorem contextSetCookie_stored {context : Context} (h : Stored context.responseHeaders)
    (name value : Bytes) (options : CookieOptions) :
    Stored (contextSetCookie context name value options).2.responseHeaders := by
  unfold contextSetCookie
  split_ifs
  · exact h
  · exact headerPerform_stored h (.add (sv "Set-Cookie") (cookieText name value options))

theorem storePerformAll_stored {context : Context} (h : Stored context.responseHeaders)
    (calls : List StoreCall) : Stored (storePerformAll context calls).responseHeaders := by
  induction calls generalizing context with
  | nil => exact h
  | cons call calls ih =>
    apply ih
    cases call with
    | header call => exact headerPerform_stored h call
    | cookie name value options => exact contextSetCookie_stored h name value options

theorem contextSetHeaders_stored {context : Context} (h : Stored context.responseHeaders)
    (headers : List ResponseHeader) :
    Stored (contextSetHeaders context headers).2.responseHeaders := by
  induction headers generalizing context with
  | nil => exact h
  | cons header headers ih =>
    have hset := headerPerform_stored h (.set header.name header.value)
    rw [contextSetHeaders]
    dsimp only
    split_ifs
    · exact ih hset
    · exact hset

theorem keeps_trivial {R : Type} (d : SessionDialogue R) (history : List SessionEvent) :
    d.Keeps (fun _ _ => True) (fun _ _ => True) history := by
  induction d generalizing history with
  | done result => trivial
  | call c next ih => exact ⟨trivial, fun answer => ih answer _⟩

theorem sessionStore_stored (environment : Environment) {context : Context}
    (h : Stored context.responseHeaders) (history : List SessionEvent) :
    (sessionStore environment context).Keeps (fun _ _ => True)
      (fun _ result => Stored result.2.responseHeaders) history := by
  unfold sessionStore
  split
  · exact h
  split_ifs
  · exact h
  split
  · exact h
  refine ⟨trivial, fun now => ⟨trivial, fun success => ?_⟩⟩
  have hcookie := @contextSetCookie_stored
    { context with session := { context.session with
      expiresAt := now + environment.sessionTtlSeconds } } h
    environment.sessionCookieName context.session.token (sessionStoreOptions environment)
  dsimp only
  split_ifs
  · exact h
  · exact hcookie
  · exact hcookie

theorem sessionCommit_stored (environment : Environment) {context : Context}
    (h : Stored context.responseHeaders) (history : List SessionEvent) :
    (sessionCommit environment context).Keeps (fun _ _ => True)
      (fun _ result => Stored result.2.responseHeaders) history := by
  unfold sessionCommit
  dsimp only
  split
  · exact h
  split
  · exact h
  apply (keeps_trivial _ history).bind
  intro history deleted _
  split
  · exact h
  have hgenerated : Dialogue.Keeps (fun _ _ => True)
      (fun _ (result : Bool × Context) => Stored result.2.responseHeaders) history
      (if decide (context.session.token.length = 0) || context.session.regenerate then
        sessionGenerateToken context
      else .done (true, context)) := by
    split
    · refine ⟨trivial, fun encoded => ?_⟩
      cases encoded with
      | none => exact h
      | some token => exact h
    · exact h
  apply hgenerated.bind
  intro history generated hgenerated
  split
  · exact hgenerated
  · exact sessionStore_stored environment hgenerated history

variable {W : Type*} {environment : Environment} {peer : Peer W} {connection : Connection W}

theorem ceasyPrepareResponse_stored (h : Stored connection.context.responseHeaders) :
    Stored (ceasyPrepareResponse environment peer connection).2.context.responseHeaders := by
  obtain ⟨events, hcommitted⟩ :=
    (sessionCommit_stored environment h []).run peer.serve connection.world
  unfold ceasyPrepareResponse
  dsimp only
  split_ifs
  · exact hcommitted
  · exact contextSetHeaders_stored hcommitted _

theorem headerLine_breakless {header : ResponseHeader} (h : LineFree header.name) :
    Breakless (headerLine header) ↔ Breakless header.value := by
  apply breakless_append
  rw [List.mem_append]
  rintro (hname | hcolon)
  · exact h.1 hname
  · exact absurd hcolon (by decide)

theorem headerLine_ne_nil (header : ResponseHeader) : headerLine header ≠ [] := by
  intro h
  have hlength := congrArg List.length h
  rw [headerLine, List.length_append, List.length_append, List.length_nil] at hlength
  have hcolon : (sv ": ").length = 2 := rfl
  omega

theorem decimal_lineFree (n : ℕ) : LineFree (decimal n) := by
  constructor
  · intro hreturn
    exact absurd (decimal_digit hreturn) (by decide)
  · intro hfeed
    exact absurd (decimal_digit hfeed) (by decide)

theorem ResponseCall.header_lineFree (call : ResponseCall) : LineFree call.header.name := by
  cases call with
  | bytes status contentType body => exact show LineFree (sv "Content-Type") by decide
  | redirect location => exact show LineFree (sv "Location") by decide

theorem ResponseCall.lines_breakless (call : ResponseCall) {stored : List ResponseHeader}
    (h : Stored stored) : (∀ line ∈ call.lines stored, Breakless line) ↔ call.Unbroken := by
  have hstart : Breakless call.statusLine ∧ Breakless (headerLine call.header) ↔ call.Unbroken := by
    rw [headerLine_breakless call.header_lineFree]
    cases call with
    | bytes status contentType body =>
      change Breakless (sv "HTTP/1.1 " ++ status) ∧ Breakless contentType ↔ _
      rw [breakless_append (by decide), breakless_iff, breakless_iff]
      rfl
    | redirect location =>
      change Breakless (sv "HTTP/1.1 303 See Other") ∧ Breakless location ↔ _
      rw [breakless_iff, breakless_iff]
      exact and_iff_right (by decide)
  have hlast : ∀ header ∈ stored ++
      [⟨sv "Content-Length", decimal call.body.length⟩, ⟨sv "Connection", sv "close"⟩],
      Breakless (headerLine header) := by
    intro header hheader
    have hfree : LineFree header.name ∧ LineFree header.value := by
      rcases List.mem_append.mp hheader with hstored | hadded
      · exact h header hstored
      · rcases List.mem_pair.mp hadded with rfl | rfl
        · exact ⟨show LineFree (sv "Content-Length") by decide, decimal_lineFree _⟩
        · decide
    rw [headerLine_breakless hfree.1]
    exact breakless_of_return hfree.2.1
  rw [← hstart, ResponseCall.lines, ResponseCall.headers, List.cons_append, List.map_cons,
    List.forall_mem_cons, List.forall_mem_cons, List.forall_mem_map]
  exact ⟨fun h => ⟨h.1, h.2.1⟩, fun h => ⟨h.1, h.2, hlast⟩⟩

def ResponseCall.start : ResponseCall → Bytes
  | .bytes status contentType _ =>
    sv "HTTP/1.1 " ++ status ++ sv "\r\nContent-Type: " ++ contentType ++ sv "\r\n"
  | .redirect location => sv "HTTP/1.1 303 See Other\r\nLocation: " ++ location ++ sv "\r\n"

theorem ResponseCall.start_eq (call : ResponseCall) :
    call.start = call.statusLine ++ crlf ++ (headerLine call.header ++ crlf) := by
  cases call with
  | bytes status contentType body =>
    rw [ResponseCall.start, show sv "\r\nContent-Type: " = crlf ++ (sv "Content-Type" ++ sv ": ") from rfl]
    simp only [ResponseCall.statusLine, ResponseCall.header, headerLine, List.append_assoc]
    rfl
  | redirect location =>
    rw [ResponseCall.start, show sv "HTTP/1.1 303 See Other\r\nLocation: " =
      sv "HTTP/1.1 303 See Other" ++ (crlf ++ (sv "Location" ++ sv ": ")) from rfl]
    simp only [ResponseCall.statusLine, ResponseCall.header, headerLine, List.append_assoc]
    rfl

/-- The text of a response is its lines, an empty line and the body. -/
theorem ResponseCall.responseText_eq (call : ResponseCall) (stored : List ResponseHeader) :
    responseText call.start stored call.body =
      (call.lines stored).flatMap (fun line => line ++ crlf) ++ (crlf ++ call.body) := by
  rw [responseText, call.start_eq, ResponseCall.lines, ResponseCall.headers,
    show sv "\r\nConnection: close\r\n\r\n" =
      crlf ++ (headerLine ⟨sv "Connection", sv "close"⟩ ++ (crlf ++ crlf)) from rfl]
  simp only [headerLine, List.flatMap_cons, List.flatMap_append, List.map_cons, List.map_append,
    List.cons_append, List.append_assoc, List.flatMap_map, List.flatMap_nil, List.map_nil]
  rfl

/-- A response that was sent is its text behind what was written before. -/
theorem responsePerform_sent {call : ResponseCall}
    (h : (responsePerform environment peer connection call).1 = true) :
    (responsePerform environment peer connection call).2.written = connection.written ++
        responseText call.start
          (responsePerform environment peer connection call).2.context.responseHeaders call.body ∧
      (responsePerform environment peer connection call).2.context =
        (ceasyPrepareResponse environment peer connection).2.context := by
  have hresponse : responsePerform environment peer connection call =
      ceasySendResponse environment peer connection call.start call.body := by
    cases call with
    | bytes status contentType body =>
      simp only [responsePerform, contextSendBytes] at h ⊢
      split_ifs at h ⊢
      rfl
    | redirect location =>
      simp only [responsePerform, contextRedirect] at h ⊢
      split_ifs at h ⊢
      rfl
  rw [hresponse] at h ⊢
  obtain ⟨-, world, hstate⟩ := ceasySendResponse_sent h
  obtain ⟨context, next, hprepared⟩ := ceasyPrepareResponse_frame environment peer connection
  rw [hstate, hprepared]
  exact ⟨rfl, rfl⟩

/-- What is written for a response reads back as it was meant. -/
def Recovered (environment : Environment) (peer : Peer W) (connection : Connection W)
    (call : ResponseCall) : Prop :=
  ∃ text, (responsePerform environment peer connection call).2.written = connection.written ++ text ∧
    readHead text = some
      (call.lines (responsePerform environment peer connection call).2.context.responseHeaders,
        call.body)

theorem recovered_iff {call : ResponseCall} (hstored : Stored connection.context.responseHeaders)
    (hsent : (responsePerform environment peer connection call).1 = true) :
    Recovered environment peer connection call ↔ call.Unbroken := by
  obtain ⟨hwritten, hcontext⟩ := responsePerform_sent hsent
  have hheaders : Stored
      (responsePerform environment peer connection call).2.context.responseHeaders := by
    rw [hcontext]
    exact ceasyPrepareResponse_stored hstored
  rw [call.responseText_eq] at hwritten
  rw [← call.lines_breakless hheaders]
  constructor
  · rintro ⟨text, -, hread⟩
    exact readHead_breakless hread
  · intro hlines
    refine ⟨_, hwritten, readHead_lines (fun line hline => ⟨hlines line hline, ?_⟩) call.body⟩
    rcases List.mem_cons.mp hline with rfl | hheader
    · cases call with
      | bytes status contentType body => exact List.append_ne_nil_of_left_ne_nil (by decide) _
      | redirect location => exact show sv "HTTP/1.1 303 See Other" ≠ [] by decide
    · obtain ⟨header, -, rfl⟩ := List.mem_map.mp hheader
      exact headerLine_ne_nil header

/-- Behind any calls that store headers, a response that is sent reads back as it was meant
exactly where no argument that goes into the head as it is has a line break. -/
theorem responsePerform_recovered_iff (environment : Environment) (peer : Peer W)
    (connection : Connection W) (request : Request) (session : Session) (stored : List StoreCall)
    (call : ResponseCall)
    (hsent : (responsePerform environment peer
      { connection with context := storePerformAll { request := request, session := session } stored }
      call).1 = true) :
    Recovered environment peer
        { connection with context := storePerformAll { request := request, session := session } stored }
        call ↔ call.Unbroken :=
  recovered_iff (storePerformAll_stored (fun _ h => absurd h List.not_mem_nil) stored) hsent

def sinkPeer : Peer Unit where
  serve
    | .select _, world => (none, world)
    | .delete _, world => (false, world)
    | .replace _ _ _ _, world => (false, world)
    | .time, world => (0, world)
    | .randomToken, world => (none, world)
  send data world := (some data.length, world)

theorem sinkPeer_willing : sinkPeer.Willing :=
  fun data _ hdata => ⟨data.length, (), rfl, List.length_pos_iff.mpr hdata⟩

def sinkEnvironment : Environment where
  sessionCookieName := sv "ceasy_session"
  sessionTtlSeconds := 3600
  isProduction := false
  generichash := some

def sinkConnection : Connection Unit where
  context := { request := {} }
  clientFd := 4
  world := ()

def sinkCalls : List StoreCall :=
  [.header (.add (sv "X-Note") (sv "new")), .cookie (sv "theme") (sv "dark") {}]

theorem sinkConnection_redirects (context : Context) (location : Bytes)
    (h : (ceasyPrepareResponse sinkEnvironment sinkPeer
      { sinkConnection with context := context }).1 = true) :
    (responsePerform sinkEnvironment sinkPeer { sinkConnection with context := context }
      (.redirect location)).1 = true :=
  (ceasySendResponse_willing sinkPeer_willing (ResponseCall.redirect location).start []).trans h

theorem responsePerform_recovered_posts :
    Recovered sinkEnvironment sinkPeer
      { sinkConnection with
        context := storePerformAll { request := {}, session := {} } sinkCalls }
      (.redirect (sv "/posts")) :=
  (responsePerform_recovered_iff sinkEnvironment sinkPeer sinkConnection {} {} sinkCalls
    (.redirect (sv "/posts")) (sinkConnection_redirects _ _ (by decide +kernel))).mpr
    (by decide +kernel)

/-- A location with a line break adds a header of its own. -/
theorem contextRedirect_splits :
    (responsePerform sinkEnvironment sinkPeer sinkConnection
        (.redirect (sv "/posts\r\nSet-Cookie: admin=1"))).1 = true ∧
      ¬ Recovered sinkEnvironment sinkPeer sinkConnection
        (.redirect (sv "/posts\r\nSet-Cookie: admin=1")) := by
  have hsent : (responsePerform sinkEnvironment sinkPeer sinkConnection
      (.redirect (sv "/posts\r\nSet-Cookie: admin=1"))).1 = true :=
    sinkConnection_redirects _ _ (by decide +kernel)
  refine ⟨hsent, fun h => ?_⟩
  have hunbroken := (recovered_iff (fun _ h => absurd h List.not_mem_nil) hsent).mp h
  exact absurd hunbroken (by decide +kernel)

end Ceasy.Responses
