import Ceasy.Response
import Ceasy.SessionConfig

set_option autoImplicit false

/-!
# When a response can be prepared

A session that is to be stored has to fit, and there has to be room in the table for its cookie and
for the headers that every response has. This is all that is needed while the database, libsodium
and the socket do what they are asked.
-/
namespace Ceasy.Sessions
open StringView

theorem LineFree.append {first second : Bytes} (h : LineFree first) (h' : LineFree second) :
    LineFree (first ++ second) :=
  ⟨fun hmem => (List.mem_append.mp hmem).elim h.1 h'.1, fun hmem => (List.mem_append.mp hmem).elim h.2 h'.2⟩

theorem LineFree.ite {p : Prop} [Decidable p] {text : Bytes} (h : LineFree text) :
    LineFree (if p then text else []) := by
  split_ifs
  · exact h
  · exact ⟨List.not_mem_nil, List.not_mem_nil⟩

theorem lineFree_printable {text : Bytes} (h : Printable text) : LineFree text :=
  lineFree_iff.mp h.valid

theorem cookieText_lineFree {name value : Bytes} {options : CookieOptions} (hname : LineFree name)
    (hvalue : LineFree value) (hpath : LineFree options.path) (hdomain : LineFree options.domain) :
    LineFree (cookieText name value options) := by
  have hage := lineFree_printable (signedDecimal_printable options.maxAge)
  have hequals : LineFree [ch '='] := by decide
  have hliteral : LineFree (sv "; Path=") ∧ LineFree (sv "; Domain=") ∧ LineFree (sv "; Max-Age=") ∧
      LineFree (sv "; HttpOnly") ∧ LineFree (sv "; Secure") := by decide +kernel
  unfold cookieText
  refine (((((((hname.append hequals).append hvalue).append (hliteral.1.append hpath).ite).append
    (hliteral.2.1.append hdomain).ite).append (hliteral.2.2.1.append hage).ite).append
    hliteral.2.2.2.1.ite).append hliteral.2.2.2.2.ite).append ?_
  cases options.sameSite <;> decide +kernel

theorem tokenText_lineFree {token : Bytes} (h : TokenText token) : LineFree token :=
  ⟨tokenText_without h (by decide), tokenText_without h (by decide)⟩

theorem tokenText_ne_nil {token : Bytes} (h : TokenText token) : token ≠ [] := by
  obtain ⟨bytes, hlength, rfl⟩ := h
  obtain ⟨a, b, c, rest, rfl⟩ : ∃ a b c rest, bytes = a :: b :: c :: rest := by
    rcases bytes with _ | ⟨a, _ | ⟨b, _ | ⟨c, rest⟩⟩⟩
    · cases hlength
    · cases hlength
    · cases hlength
    · exact ⟨a, b, c, rest, rfl⟩
  rw [sodiumBin2base64]
  exact List.cons_ne_nil _ _

/-- A cookie is set if its name is one, its value has no line break and there is room. -/
theorem contextSetCookie_iff {context : Context} {name value : Bytes} {options : CookieOptions}
    (hpath : LineFree options.path) (hdomain : LineFree options.domain) :
    (contextSetCookie context name value options).1 = true ↔
      cookieToken name = true ∧ LineFree value ∧
        context.responseHeaders.length < CEASY_MAX_RESPONSE_HEADERS := by
  have hlines : ∀ {text : Bytes}, LineFree text ↔
      stringvContains text (sv "\r") = false ∧ stringvContains text (sv "\n") = false := by
    intro text
    rw [← lineFree_iff, contextHeaderValueValid, Bool.and_eq_true, Bool.not_eq_true', Bool.not_eq_true']
  unfold contextSetCookie
  rw [(hlines.mp hpath).1, (hlines.mp hpath).2, (hlines.mp hdomain).1, (hlines.mp hdomain).2,
    Bool.or_false, Bool.or_false, Bool.or_false, Bool.or_false]
  by_cases hchecked : cookieToken name = true ∧ LineFree value
  · have htext := cookieText_lineFree (cookieToken_valid hchecked.1) hchecked.2 hpath hdomain
    have hne : cookieText name value options ≠ [] := by simp [cookieText]
    have hname : sv "Set-Cookie" ≠ [] ∧ LineFree (sv "Set-Cookie") := by decide
    rw [hchecked.1, (hlines.mp hchecked.2).1, (hlines.mp hchecked.2).2, if_neg (by decide),
      contextAddHeader_eq]
    by_cases hroom : context.responseHeaders.length < CEASY_MAX_RESPONSE_HEADERS
    · rw [if_pos ⟨⟨hname.1, hname.2, htext, hroom⟩, hne⟩]
      exact iff_of_true rfl ⟨rfl, hchecked.2, hroom⟩
    · rw [if_neg fun h => hroom h.1.room]
      exact iff_of_false Bool.false_ne_true fun h => hroom h.2.2
  · rw [if_pos]
    · exact iff_of_false Bool.false_ne_true fun h => hchecked ⟨h.1, h.2.1⟩
    · by_contra hpassed
      rw [Bool.or_eq_true, Bool.or_eq_true, Bool.not_eq_true', not_or, not_or, Bool.not_eq_false,
        Bool.not_eq_true, Bool.not_eq_true] at hpassed
      exact hchecked ⟨hpassed.1.1, hlines.mpr ⟨hpassed.1.2, hpassed.2⟩⟩

end Ceasy.Sessions

namespace Ceasy.Responses
open StringView Sessions

variable {W : Type*}

/-- The calls of a request succeed; tokens are the texts that `session_generate_token` makes. -/
structure Peer.Works (peer : Peer W) (environment : Environment) : Prop where
  willing : peer.Willing
  deletes : ∀ digest world, (peer.serve (.delete digest) world).1 = true
  replaces : ∀ digest data now expiresAt world,
    (peer.serve (.replace digest data now expiresAt) world).1 = true
  issues : ∀ world, ∃ token, (peer.serve .randomToken world).1 = some token ∧ TokenText token
  digests : ∀ token, token ≠ [] → ∃ digest, environment.generichash token = some digest

/-- A commit has something to store. -/
def Pending (context : Context) : Prop :=
  context.session.loaded = true ∧ context.session.dirty = true ∧ context.session.destroy = false

instance (context : Context) : Decidable (Pending context) := inferInstanceAs (Decidable (_ ∧ _))

/-- The values fit, and the cookie can be set: only a token that is kept may have a line break. -/
structure Storable (environment : Environment) (context : Context) : Prop where
  fits : ∃ data, sessionSerialize context.session.values = some data ∧ data.length ≤ SESSION_MAX_BYTES
  name : cookieToken environment.sessionCookieName = true
  token : context.session.regenerate = true ∨ context.session.token = [] ∨
    LineFree context.session.token
  room : context.responseHeaders.length < CEASY_MAX_RESPONSE_HEADERS

def nameStored (names : List Bytes) (name : Bytes) : Bool :=
  names.any fun stored => stringvEqualIgnoreCase stored name

def missing (names : List Bytes) (headers : List ResponseHeader) : ℕ :=
  headers.countP fun header => !nameStored names header.name

/-- There is room for those of the headers that are not stored. -/
def HasRoom (names : List Bytes) (headers : List ResponseHeader) : Prop :=
  missing names headers = 0 ∨ names.length + missing names headers ≤ CEASY_MAX_RESPONSE_HEADERS

/-- The names of the stored headers, with the cookie's behind them where one is to be set. -/
def namesToSend (context : Context) : List Bytes :=
  context.responseHeaders.map ResponseHeader.name ++
    if Pending context then [sv "Set-Cookie"] else []

/-- What a response needs of the context that it is prepared from. -/
structure Prepares (environment : Environment) (connection : Connection W) : Prop where
  storable : Pending connection.context → Storable environment connection.context
  room : HasRoom (namesToSend connection.context) (preparedHeaders connection.requestId)

/-- A header that can be stored wherever there is room. -/
structure Settable (header : ResponseHeader) : Prop where
  name : header.name ≠ []
  nameLineFree : LineFree header.name
  value : header.value ≠ []
  valueLineFree : LineFree header.value

theorem nameStored_iff {context : Context} {name : Bytes} :
    nameStored (context.responseHeaders.map ResponseHeader.name) name = true ↔
      ∃ header ∈ context.responseHeaders, stringvEqualIgnoreCase header.name name = true := by
  rw [nameStored, List.any_map, List.any_eq_true]
  rfl

theorem contextReplaceHeader_names {name value : Bytes} {headers replaced : List ResponseHeader}
    (h : contextReplaceHeader name value headers = some replaced) :
    replaced.map ResponseHeader.name = headers.map ResponseHeader.name := by
  induction headers generalizing replaced with
  | nil => cases h
  | cons header headers ih =>
    rw [contextReplaceHeader] at h
    split_ifs at h
    · cases h
      rfl
    · rw [Option.map_eq_some_iff] at h
      obtain ⟨others, hothers, rfl⟩ := h
      rw [List.map_cons, List.map_cons, ih hothers]

theorem contextSetHeader_settable {header : ResponseHeader} (h : Settable header) (context : Context) :
    ((contextSetHeader context header.name header.value).1 = true ↔
      nameStored (context.responseHeaders.map ResponseHeader.name) header.name = true ∨
        context.responseHeaders.length < CEASY_MAX_RESPONSE_HEADERS) ∧
    ((contextSetHeader context header.name header.value).1 = true →
      (contextSetHeader context header.name header.value).2.responseHeaders.map ResponseHeader.name =
        context.responseHeaders.map ResponseHeader.name ++
          if nameStored (context.responseHeaders.map ResponseHeader.name) header.name then []
          else [header.name]) := by
  rw [contextSetHeader_eq]
  have hroom : (HeaderCall.set header.name header.value).Acceptable context.responseHeaders ∧
      header.value ≠ [] ↔
      nameStored (context.responseHeaders.map ResponseHeader.name) header.name = true ∨
        context.responseHeaders.length < CEASY_MAX_RESPONSE_HEADERS := by
    rw [nameStored_iff, or_comm]
    exact ⟨fun hboth => hboth.1.room,
      fun hroom => ⟨⟨h.name, h.nameLineFree, h.valueLineFree, hroom⟩, h.value⟩⟩
  rw [← hroom]
  by_cases haccepted : (HeaderCall.set header.name header.value).Acceptable context.responseHeaders ∧
      header.value ≠ []
  · rw [if_pos haccepted]
    refine ⟨iff_of_true rfl haccepted, fun _ => ?_⟩
    dsimp only
    rw [referenceSet]
    by_cases hstored : nameStored (context.responseHeaders.map ResponseHeader.name) header.name = true
    · obtain ⟨replaced, hreplaced⟩ := Option.isSome_iff_exists.mp
        ((@contextReplaceHeader_isSome context.responseHeaders header.name header.value).mpr
          (nameStored_iff.mp hstored))
      rw [if_pos hstored, List.append_nil, hreplaced]
      exact contextReplaceHeader_names hreplaced
    · have hnone : contextReplaceHeader header.name header.value context.responseHeaders = none := by
        rw [← Option.not_isSome_iff_eq_none, contextReplaceHeader_isSome, ← nameStored_iff]
        exact hstored
      rw [if_neg hstored, hnone, Option.getD_none, List.map_append]
      rfl
  · rw [if_neg haccepted]
    exact ⟨iff_of_false Bool.false_ne_true haccepted, fun hdone => absurd hdone Bool.false_ne_true⟩

theorem missing_cons (names : List Bytes) (header : ResponseHeader) (headers : List ResponseHeader) :
    missing names (header :: headers) =
      (if nameStored names header.name then 0 else 1) + missing names headers := by
  unfold missing
  rw [List.countP_cons]
  cases nameStored names header.name <;> simp [Nat.add_comm]

theorem missing_append {names more : List Bytes} {headers : List ResponseHeader}
    (h : ∀ header ∈ headers, nameStored more header.name = false) :
    missing (names ++ more) headers = missing names headers := by
  unfold missing
  apply List.countP_congr
  intro header hheader
  rw [nameStored, List.any_append, ← nameStored, ← nameStored, h header hheader, Bool.or_false]

theorem contextSetHeaders_iff {context : Context} {headers : List ResponseHeader}
    (h : ∀ header ∈ headers, Settable header)
    (hdistinct : headers.Pairwise fun first second =>
      stringvEqualIgnoreCase first.name second.name = false) :
    (contextSetHeaders context headers).1 = true ↔
      HasRoom (context.responseHeaders.map ResponseHeader.name) headers := by
  induction headers generalizing context with
  | nil => exact iff_of_true rfl (.inl rfl)
  | cons header headers ih =>
    obtain ⟨hheader, hrest⟩ := List.forall_mem_cons.mp h
    obtain ⟨hapart, hdistinct⟩ := List.pairwise_cons.mp hdistinct
    obtain ⟨hset, hnames⟩ := contextSetHeader_settable hheader context
    have hother : ∀ other ∈ headers, nameStored [header.name] other.name = false := by
      intro other hmem
      rw [nameStored, List.any_cons, List.any_nil, Bool.or_false]
      exact hapart other hmem
    rw [contextSetHeaders]
    dsimp only
    unfold HasRoom
    rw [missing_cons, List.length_map]
    by_cases hdone : (contextSetHeader context header.name header.value).1 = true
    · rw [if_pos hdone, ih hrest hdistinct, HasRoom, hnames hdone]
      have hroom := hset.mp hdone
      by_cases hstored :
          nameStored (context.responseHeaders.map ResponseHeader.name) header.name = true
      · rw [if_pos hstored, if_pos hstored, List.append_nil, List.length_map, Nat.zero_add]
      · rw [if_neg hstored, if_neg hstored, missing_append hother, List.length_append, List.length_map,
          List.length_singleton]
        have hless := hroom.resolve_left hstored
        omega
    · rw [if_neg hdone]
      rw [hset, not_or, Nat.not_lt] at hdone
      rw [if_neg hdone.1]
      refine iff_of_false Bool.false_ne_true ?_
      omega

section
variable {environment : Environment} {peer : Peer W} {context : Context}

theorem Peer.Works.digest (h : peer.Works environment) {token : Bytes} (htoken : token ≠ []) :
    ∃ digest, sessionDigest environment token = some digest := by
  rw [sessionDigest, if_pos (List.length_pos_iff.mpr htoken)]
  exact h.digests token htoken

theorem sessionDeleteDigest_works (h : peer.Works environment) {token : Bytes} (htoken : token ≠ [])
    (world : W) : ((sessionDeleteDigest environment token).run peer.serve world).1 = true := by
  obtain ⟨digest, hdigest⟩ := h.digest htoken
  rw [sessionDeleteDigest, hdigest]
  exact h.deletes digest world

/-- The end of a commit, with a token to store the values under. -/
theorem sessionStore_works (h : peer.Works environment) (htoken : context.session.token ≠ []) (world : W) :
    (((sessionStore environment context).run peer.serve world).1.1 = true ↔
      (∃ data, sessionSerialize context.session.values = some data ∧ data.length ≤ SESSION_MAX_BYTES) ∧
        cookieToken environment.sessionCookieName = true ∧ LineFree context.session.token ∧
        context.responseHeaders.length < CEASY_MAX_RESPONSE_HEADERS) ∧
    (((sessionStore environment context).run peer.serve world).1.1 = true →
      ((sessionStore environment context).run peer.serve world).1.2.responseHeaders.map
          ResponseHeader.name =
        context.responseHeaders.map ResponseHeader.name ++ [sv "Set-Cookie"]) := by
  obtain ⟨digest, hdigest⟩ := h.digest htoken
  unfold sessionStore
  cases hdata : sessionSerialize context.session.values with
  | none =>
    refine ⟨iff_of_false Bool.false_ne_true ?_, nofun⟩
    rintro ⟨⟨data, hsome, -⟩, -⟩
    cases hsome
  | some data =>
    dsimp only
    by_cases hfits : data.length ≤ SESSION_MAX_BYTES
    · rw [if_neg (Nat.not_lt.mpr hfits), hdigest]
      dsimp only [Dialogue.run]
      rw [h.replaces, Bool.not_true, if_neg Bool.false_ne_true]
      generalize hexpires : (peer.serve .time world).1 + environment.sessionTtlSeconds = expiresAt
      have hset := @contextSetCookie_iff
        { context with session := { context.session with expiresAt := expiresAt } }
        environment.sessionCookieName context.session.token (sessionStoreOptions environment)
        (show LineFree (sv "/") by decide) ⟨List.not_mem_nil, List.not_mem_nil⟩
      have hhere : ∃ other, some data = some other ∧ other.length ≤ SESSION_MAX_BYTES :=
        ⟨data, rfl, hfits⟩
      rw [and_iff_right hhere, ← hset]
      rcases contextSetCookie_cases
        { context with session := { context.session with expiresAt := expiresAt } }
        environment.sessionCookieName context.session.token (sessionStoreOptions environment)
        with hcookie | hcookie
      · rw [hcookie]
        exact ⟨Iff.rfl, nofun⟩
      · rw [hcookie]
        exact ⟨Iff.rfl, fun _ => List.map_append⟩
    · rw [if_pos (Nat.lt_of_not_le hfits)]
      refine ⟨iff_of_false Bool.false_ne_true ?_, nofun⟩
      rintro ⟨⟨other, hother, hless⟩, -⟩
      cases hother
      exact hfits hless

theorem sessionCommit_idle (h : ¬ Pending context) :
    sessionCommit environment context = .done (true, context) := by
  unfold sessionCommit
  dsimp only
  split_ifs with hidle hdestroy
  · rfl
  · rfl
  all_goals
    rw [Bool.or_eq_true, not_or, Bool.not_eq_true', Bool.not_eq_true', Bool.not_eq_false,
      Bool.not_eq_false] at hidle
    exact absurd ⟨hidle.1, hidle.2, Bool.eq_false_iff.mpr hdestroy⟩ h

theorem sessionGeneration_works (h : peer.Works environment) (context : Context) (world : W) :
    ∃ token next, (if decide (context.session.token.length = 0) || context.session.regenerate then
        sessionGenerateToken context else .done (true, context)).run peer.serve world =
        ((true, { context with session := { context.session with token := token } }), next) ∧
      token ≠ [] ∧
      (LineFree token ↔ context.session.regenerate = true ∨ context.session.token = [] ∨
        LineFree context.session.token) := by
  by_cases hissued : context.session.token.length = 0 ∨ context.session.regenerate = true
  · obtain ⟨token, htoken, htext⟩ := h.issues world
    refine ⟨token, (peer.serve .randomToken world).2, ?_, tokenText_ne_nil htext,
      iff_of_true (tokenText_lineFree htext) ?_⟩
    · rw [if_pos (by rw [Bool.or_eq_true, decide_eq_true_eq]; exact hissued), sessionGenerateToken,
        Dialogue.run_call, htoken]
      rfl
    · rcases hissued with hempty | hregenerate
      · exact .inr (.inl (List.length_eq_zero_iff.mp hempty))
      · exact .inl hregenerate
  · rw [not_or, Bool.not_eq_true] at hissued
    have hkept : context.session.token ≠ [] := fun hempty => hissued.1 (by rw [hempty]; rfl)
    refine ⟨context.session.token, world, ?_, hkept, ?_⟩
    · rw [if_neg (by rw [Bool.or_eq_true, decide_eq_true_eq, hissued.2]; simpa using hkept)]
      rfl
    · rw [hissued.2, or_iff_right Bool.false_ne_true, or_iff_right hkept]

theorem sessionCommit_pending (h : peer.Works environment) (hpending : Pending context) (world : W) :
    ∃ token next, (sessionCommit environment context).run peer.serve world =
        (sessionStore environment { context with session := { context.session with token := token } }).run
          peer.serve next ∧ token ≠ [] ∧
      (LineFree token ↔ context.session.regenerate = true ∨ context.session.token = [] ∨
        LineFree context.session.token) := by
  obtain ⟨hloaded, hdirty, hdestroy⟩ := hpending
  unfold sessionCommit
  dsimp only
  rw [if_neg (by rw [hloaded, hdirty]; decide), if_neg (by rw [hdestroy]; decide)]
  have hremoval : ((if context.session.regenerate && decide (0 < context.session.token.length) then
      sessionDeleteDigest environment context.session.token else .done true).run peer.serve world).1 =
      true := by
    split_ifs with hregenerate
    · rw [Bool.and_eq_true, decide_eq_true_eq] at hregenerate
      exact sessionDeleteDigest_works h (List.length_pos_iff.mp hregenerate.2) world
    · rfl
  rw [Dialogue.run_bind, hremoval, Bool.not_true, if_neg Bool.false_ne_true, Dialogue.run_bind]
  obtain ⟨token, next, hgenerated, htoken⟩ := sessionGeneration_works h context
    ((if context.session.regenerate && decide (0 < context.session.token.length) then
      sessionDeleteDigest environment context.session.token else .done true).run peer.serve world).2
  rw [hgenerated]
  exact ⟨token, next, rfl, htoken⟩

theorem sessionCommit_works (h : peer.Works environment) (context : Context) (world : W) :
    (((sessionCommit environment context).run peer.serve world).1.1 = true ↔
      (Pending context → Storable environment context)) ∧
    (((sessionCommit environment context).run peer.serve world).1.1 = true →
      ((sessionCommit environment context).run peer.serve world).1.2.responseHeaders.map
        ResponseHeader.name = namesToSend context) := by
  unfold namesToSend
  by_cases hpending : Pending context
  · obtain ⟨token, next, hrun, htoken, hfree⟩ := sessionCommit_pending h hpending world
    obtain ⟨hstored, hnames⟩ := @sessionStore_works _ environment peer
      { context with session := { context.session with token := token } } h htoken next
    rw [hrun, hstored, if_pos hpending]
    refine ⟨?_, hnames ∘ hstored.mpr⟩
    dsimp only
    rw [hfree]
    exact ⟨fun ⟨hfits, hname, htoken, hroom⟩ _ => ⟨hfits, hname, htoken, hroom⟩,
      fun hstorable => ⟨(hstorable hpending).fits, (hstorable hpending).name,
        (hstorable hpending).token, (hstorable hpending).room⟩⟩
  · rw [sessionCommit_idle hpending, if_neg hpending, List.append_nil]
    exact ⟨iff_of_true rfl fun h => absurd h hpending, fun _ => rfl⟩

theorem preparedHeaders_settable {requestId : Bytes} (h : LineFree requestId) :
    ∀ header ∈ preparedHeaders requestId, Settable header := by
  intro header hheader
  rcases List.mem_append.mp hheader with hfixed | hid
  · rcases List.mem_cons.mp hfixed with rfl | hfixed
    · exact ⟨by decide, by decide, by decide, by decide⟩
    · rcases List.mem_pair.mp hfixed with rfl | rfl
      · exact ⟨by decide, by decide, by decide, by decide⟩
      · exact ⟨by decide, by decide, by decide, by decide⟩
  · split_ifs at hid with hempty
    · exact absurd hid List.not_mem_nil
    · obtain rfl := List.mem_singleton.mp hid
      exact ⟨show sv "X-Request-ID" ≠ [] by decide, show LineFree (sv "X-Request-ID") by decide,
        fun hnil => hempty (List.length_eq_zero_iff.mpr hnil), h⟩

theorem preparedHeaders_distinct (requestId : Bytes) :
    (preparedHeaders requestId).Pairwise fun first second =>
      stringvEqualIgnoreCase first.name second.name = false := by
  have hnames : ∀ names : List Bytes, (preparedHeaders requestId).map ResponseHeader.name = names →
      names.Pairwise (fun first second => stringvEqualIgnoreCase first second = false) →
      (preparedHeaders requestId).Pairwise fun first second =>
        stringvEqualIgnoreCase first.name second.name = false := by
    rintro _ rfl hdistinct
    exact List.pairwise_map.mp hdistinct
  by_cases hempty : requestId.length = 0
  · refine hnames [sv "X-Content-Type-Options", sv "Referrer-Policy", sv "X-Frame-Options"] ?_
      (by decide +kernel)
    rw [preparedHeaders, if_pos hempty]
    rfl
  · refine hnames [sv "X-Content-Type-Options", sv "Referrer-Policy", sv "X-Frame-Options",
      sv "X-Request-ID"] ?_ (by decide +kernel)
    rw [preparedHeaders, if_neg hempty]
    rfl

theorem ceasyPrepareResponse_works {connection : Connection W} (h : peer.Works environment)
    (hid : LineFree connection.requestId) :
    (ceasyPrepareResponse environment peer connection).1 = true ↔ Prepares environment connection := by
  obtain ⟨hcommitted, hnames⟩ := sessionCommit_works h connection.context connection.world
  unfold ceasyPrepareResponse
  dsimp only
  by_cases hdone : ((sessionCommit environment connection.context).run peer.serve
      connection.world).1.1 = true
  · rw [if_neg (by rw [hdone]; decide)]
    dsimp only
    rw [contextSetHeaders_iff (preparedHeaders_settable hid) (preparedHeaders_distinct _), hnames hdone]
    exact ⟨fun hroom => ⟨hcommitted.mp hdone, hroom⟩, fun hprepares => hprepares.room⟩
  · rw [if_pos (by rw [Bool.not_eq_true] at hdone; rw [hdone]; rfl)]
    exact iff_of_false Bool.false_ne_true fun hprepares => hdone (hcommitted.mpr hprepares.storable)

theorem ceasySendResponse_works {connection : Connection W} (h : peer.Works environment)
    (hid : LineFree connection.requestId) (start body : Bytes) :
    (ceasySendResponse environment peer connection start body).1 = true ↔
      Prepares environment connection := by
  rw [ceasySendResponse_willing h.willing, ceasyPrepareResponse_works h hid]

end

end Ceasy.Responses
