import Ceasy.Config
import Ceasy.CookieRoundTrip
import Ceasy.SessionAtomicity

set_option autoImplicit false

/-!
# Sessions under a configuration

The name of the session's cookie and the time a session lives are checked once, when the
configuration is read, and used by every commit. The sum of two `int64_t` is undefined
where it has no place in one.
-/
namespace Ceasy.Sessions
open StringView Collection Dialogue Configs RequestParse

def configEnvironment (config : CeasyConfig) (generichash : Bytes → Option Bytes) : Environment where
  sessionCookieName := ceasySessionCookieName config
  sessionTtlSeconds := ceasySessionTtlSeconds config
  isProduction := ceasyIsProduction config
  generichash := generichash

/-- Between the semicolons of a client's header stands the cookie, with spaces around it, and no
cookie of that name before it. -/
structure Carries (name value header : Bytes) (before after : List Bytes) (piece : Bytes) : Prop where
  header : header = [ch ';'].intercalate (before ++ piece :: after)
  plain : ∀ other ∈ before ++ piece :: after, ch ';' ∉ other
  cookie : stringvTrim piece = name ++ ch '=' :: value
  first : ∀ other ∈ before, ∀ text rest, other = text ++ ch '=' :: rest → ch '=' ∉ text →
    stringvTrim text ≠ name
  few : (before ++ piece :: after).length ≤ CEASY_MAX_REQUEST_COOKIES

/-- The cookie of every token is set where there is room, and the token comes back from a
client, whatever else it sends. -/
structure CookiesWork (environment : Environment) : Prop where
  sets : ∀ context token, TokenText token →
    context.responseHeaders.length < CEASY_MAX_RESPONSE_HEADERS →
      (contextSetCookie context environment.sessionCookieName token (sessionStoreOptions environment)).1 = true
  returns : ∀ context token before after piece, TokenText token →
    Carries environment.sessionCookieName token (requestHeader context.request (sv "Cookie")) before after
      piece →
    contextCookie context environment.sessionCookieName = token

/-- The sum of two `int64_t`, where it is defined. -/
def int64Add (a b : ℤ) : Option ℤ := if INT64_MIN ≤ a + b ∧ a + b ≤ INT64_MAX then some (a + b) else none

/-- The session of a context has been committed at a time, and the table is as that left it. -/
def CommittedAt (environment : Environment) (now : ℤ) (final : Context) (world : SessionWorld) : Prop :=
  ∃ context before events, Leads (sessionCommit environment context) events (.done (true, final)) ∧
    Serves SessionAnswers before events world ∧ ⟨.time, now⟩ ∈ events

/-- The session that a later request has loaded is the one that was committed. -/
structure SameSession (loaded committed : Session) : Prop where
  existing : loaded.existing = true
  token : loaded.token = committed.token
  contents : loaded.values.contents = committed.values.contents

/-- A request with the token, at any time: the session is loaded up to its last second, and is then
not loaded. -/
structure ExpiresAt (environment : Environment) (expiry : ℤ) (final : Context) (world : SessionWorld)
    (digest : Bytes) : Prop where
  accepted : ∀ loader t, loader.session = {} →
    contextCookie loader environment.sessionCookieName = final.session.token → t < expiry →
      ∃ loaded, Leads (sessionLoad environment loader)
        [⟨.select digest, some (world.table digest)⟩, ⟨.time, t⟩] (.done (true, loaded)) ∧
          SameSession loaded.session final.session
  rejected : ∀ loader t, loader.session = {} →
    contextCookie loader environment.sessionCookieName = final.session.token → expiry ≤ t →
      ∀ deleted, ∃ loaded, Leads (sessionLoad environment loader)
        [⟨.select digest, some (world.table digest)⟩, ⟨.time, t⟩, ⟨.delete digest, deleted⟩]
          (.done (true, loaded)) ∧ loaded.session = { loaded := true }

/-- The sum of a commit is defined, and its session lives until then. -/
structure ExpirySafe (environment : Environment) (now : ℤ) : Prop where
  sum : int64Add now environment.sessionTtlSeconds = some (now + environment.sessionTtlSeconds)
  expires : ∀ final world, CommittedAt environment now final world →
    ∃ digest, sessionDigest environment final.session.token = some digest ∧
      ExpiresAt environment (now + environment.sessionTtlSeconds) final world digest

variable {environment : Environment} {context final : Context} {world next : SessionWorld}
  {events : List SessionEvent} {getenv : Bytes → Option CString} {config : CeasyConfig}

theorem base64Digit_plain : ∀ n : Fin 64, cookieToken [base64Digit n] = true := by decide +kernel

def TokenByte (c : UInt8) : Prop := cookieToken [c] = true

theorem tokenByte_base64 {n : ℕ} (h : n < 64) : TokenByte (base64Digit n) := base64Digit_plain ⟨n, h⟩

theorem sodiumBin2base64_plain (bytes : Bytes) : ∀ c ∈ sodiumBin2base64 bytes, TokenByte c := by
  have hfour : ∀ c : UInt8, c.toNat / 4 < 64 := fun c => by have := c.toNat_lt; omega
  have htwo : ∀ c : UInt8, c.toNat / 16 < 16 := fun c => by have := c.toNat_lt; omega
  have hsix : ∀ c : UInt8, c.toNat / 64 < 4 := fun c => by have := c.toNat_lt; omega
  induction bytes using sodiumBin2base64.induct with
  | case1 a b c rest ih =>
    have hb := htwo b
    have hc := hsix c
    rw [sodiumBin2base64]
    simp only [List.forall_mem_cons]
    exact ⟨tokenByte_base64 (hfour a), tokenByte_base64 (by omega), tokenByte_base64 (by omega),
      tokenByte_base64 (by omega), ih⟩
  | case2 a b =>
    have hb := htwo b
    rw [sodiumBin2base64]
    simp only [List.forall_mem_cons]
    exact ⟨tokenByte_base64 (hfour a), tokenByte_base64 (by omega), tokenByte_base64 (by omega),
      List.forall_mem_nil _⟩
  | case3 a =>
    rw [sodiumBin2base64]
    simp only [List.forall_mem_cons]
    exact ⟨tokenByte_base64 (hfour a), tokenByte_base64 (by omega), List.forall_mem_nil _⟩
  | case4 => exact List.forall_mem_nil _

theorem tokenText_plain {token : Bytes} (h : TokenText token) : ∀ c ∈ token, TokenByte c := by
  obtain ⟨bytes, -, rfl⟩ := h
  exact sodiumBin2base64_plain bytes

theorem TokenByte.ne {c d : UInt8} (h : TokenByte c) (hd : cookieToken [d] = false) : c ≠ d := by
  rintro rfl
  exact Bool.false_ne_true (hd.symm.trans h)

theorem tokenText_without {token : Bytes} (h : TokenText token) {d : UInt8}
    (hd : cookieToken [d] = false) : d ∉ token :=
  fun hmem => (tokenText_plain h d hmem).ne hd rfl

theorem TokenByte.noSpace {c : UInt8} (h : TokenByte c) : stringvAsciiSpace c = false := by
  by_contra hspace
  rw [Bool.not_eq_false] at hspace
  simp only [stringvAsciiSpace, Bool.or_eq_true, decide_eq_true_eq] at hspace
  rcases hspace with ((((rfl | rfl) | rfl) | rfl) | rfl) | rfl <;> exact absurd h (by unfold TokenByte; decide)

theorem tokenText_trim {token : Bytes} (h : TokenText token) : stringvTrim token = token :=
  stringvTrim_noSpace fun c hc => (tokenText_plain h c hc).noSpace

theorem zeroToken_text : TokenText (sodiumBin2base64 (List.replicate SESSION_TOKEN_BYTES 0)) :=
  ⟨_, List.length_replicate, rfl⟩

def Printable (text : Bytes) : Prop := ∀ c ∈ text, 0x20 ≤ c

theorem Printable.append {first second : Bytes} (h : Printable first) (h' : Printable second) :
    Printable (first ++ second) :=
  List.forall_mem_append.mpr ⟨h, h'⟩

theorem Printable.ite {p : Prop} [Decidable p] {text : Bytes} (h : Printable text) :
    Printable (if p then text else []) := by
  split_ifs
  · exact h
  · exact List.forall_mem_nil _

theorem Printable.valid {text : Bytes} (h : Printable text) : contextHeaderValueValid text = true :=
  contextHeaderValueValid_iff.mpr ⟨fun hc => absurd (h _ hc) (by decide), fun hc => absurd (h _ hc) (by decide)⟩

theorem TokenByte.printable {c : UInt8} (h : TokenByte c) : 0x20 ≤ c := by
  by_contra hlow
  have hle : c ≤ 0x20 := UInt8.le_of_lt (UInt8.not_le.mp hlow)
  simp [TokenByte, cookieToken, hle] at h

theorem signedDecimal_printable (n : ℤ) : Printable (signedDecimal n) := by
  have hdecimal : Printable (decimal n.natAbs) := fun c hc =>
    UInt8.le_trans (show (0x20 : UInt8) ≤ ch '0' by decide) (decimal_digit hc).1
  unfold signedDecimal
  split_ifs
  · exact List.forall_mem_cons.mpr ⟨by decide, hdecimal⟩
  · exact hdecimal

theorem cookieText_printable {name value : Bytes} {options : CookieOptions} (hname : Printable name)
    (hvalue : Printable value) (hpath : Printable options.path) (hdomain : Printable options.domain) :
    Printable (cookieText name value options) := by
  have hequals : Printable [ch '='] := by unfold Printable; decide +kernel
  have hliteral : Printable (sv "; Path=") ∧ Printable (sv "; Domain=") ∧ Printable (sv "; Max-Age=") ∧
      Printable (sv "; HttpOnly") ∧ Printable (sv "; Secure") := by
    unfold Printable
    decide +kernel
  unfold cookieText
  refine (((((((hname.append hequals).append hvalue).append (hliteral.1.append hpath).ite).append
    (hliteral.2.1.append hdomain).ite).append (hliteral.2.2.1.append (signedDecimal_printable _)).ite).append
    hliteral.2.2.2.1.ite).append hliteral.2.2.2.2.ite).append ?_
  cases options.sameSite <;> (unfold Printable; decide +kernel)

theorem cookieToken_iff {name : Bytes} : cookieToken name = true ↔ name ≠ [] ∧ ∀ c ∈ name, TokenByte c := by
  unfold TokenByte
  simp only [cookieToken, Bool.and_eq_true, decide_eq_true_eq, List.length_pos_iff, List.all_eq_true,
    List.length_singleton, Nat.one_pos, decide_true, Bool.true_and, List.all_cons, List.all_nil, Bool.and_true]

/-- With a text that has no control characters, a cookie is set wherever its name is one and
there is room for a header. -/
theorem contextSetCookie_fst_eq {value : Bytes} (name : Bytes) (hvalue : Printable value)
    (hroom : context.responseHeaders.length < CEASY_MAX_RESPONSE_HEADERS) :
    (contextSetCookie context name value (sessionStoreOptions environment)).1 = cookieToken name := by
  cases hname : cookieToken name with
  | false =>
    by_contra hset
    rw [Bool.not_eq_false] at hset
    exact Bool.false_ne_true (hname.symm.trans (contextSetCookie_name hset))
  | true =>
    have hprintable : Printable name := fun c hc => ((cookieToken_iff.mp hname).2 c hc).printable
    have hslash : Printable (sv "/") := by unfold Printable; decide +kernel
    have htext := (@cookieText_printable name value (sessionStoreOptions environment) hprintable hvalue
      hslash (List.forall_mem_nil _)).valid
    have hlines := hvalue.valid
    rw [contextHeaderValueValid, Bool.and_eq_true, Bool.not_eq_true', Bool.not_eq_true'] at hlines
    have hpath : (sessionStoreOptions environment).path = sv "/" := rfl
    have hdomain : (sessionStoreOptions environment).domain = [] := rfl
    have hfull : ¬ CEASY_MAX_RESPONSE_HEADERS ≤ context.responseHeaders.length := Nat.not_le.mpr hroom
    unfold contextSetCookie contextAddHeader
    rw [hname, hlines.1, hlines.2, hpath, hdomain, if_neg (by decide), htext, decide_eq_false hfull,
      if_neg (by decide), if_neg (by simp [cookieText])]

theorem tokenByte_iff {c : UInt8} (hequals : c ≠ ch '=') (hsemicolon : c ≠ ch ';') :
    TokenByte c ↔ 0x20 < c ∧ c < 0x80 := by
  have hlow : (0x20 < c) = ¬ c ≤ 0x20 := propext UInt8.not_le.symm
  have hhigh : (c < 0x80) = ¬ 0x80 ≤ c := propext UInt8.not_le.symm
  rw [hlow, hhigh]
  unfold TokenByte cookieToken
  simp only [List.length_singleton, Nat.one_pos, decide_true, Bool.true_and, List.all_cons, List.all_nil,
    Bool.and_true, Bool.not_eq_true', Bool.or_eq_false_iff, decide_eq_false_iff_not, beq_eq_false_iff_ne]
  refine ⟨fun h => h.1.1.1.1, fun h => ⟨⟨⟨⟨h, hsemicolon⟩, hequals⟩, ?_⟩, ?_⟩⟩
  · rintro rfl
    exact h.1 (by decide)
  · rintro rfl
    exact h.1 (by decide)

theorem configName_token_iff (h : AcceptedConfig getenv config) :
    cookieToken (ceasySessionCookieName config) = true ↔
      ∀ c ∈ sessionCookieText getenv, 0x20 < c ∧ c < 0x80 := by
  have hname := h.cookieName
  have hequals := h.cookieEquals
  have hsemicolon := h.cookieSemicolon
  have hsome := h.cookieSome
  rw [hname] at hequals hsemicolon hsome
  rw [h.cookieName_eq, cookieToken_iff, and_iff_right hsome]
  refine forall₂_congr fun c hc => tokenByte_iff ?_ ?_
  · rintro rfl
    exact hequals hc
  · rintro rfl
    exact hsemicolon hc

/-- A pair in a piece is a pair of the piece without the spaces around it. -/
theorem cookieOf_pair {piece : Bytes} {cookie : CookieParam} (h : cookieOf piece = some cookie) :
    ∃ text rest, piece = text ++ ch '=' :: rest ∧ ch '=' ∉ text ∧ stringvTrim text = cookie.name := by
  obtain ⟨before, after, hbefore, -, hpiece⟩ := stringvTrim_split piece
  obtain ⟨⟨name, value⟩, hsplit, hcookie⟩ := Option.bind_eq_some_iff.mp h
  obtain ⟨htrimmed, hname⟩ := stringvSplitOnceChar_some.mp hsplit
  split_ifs at hcookie
  obtain rfl := Option.some.inj hcookie
  have htrim := stringvTrim_blanks hbefore Blank.nil name
  rw [List.append_nil] at htrim
  refine ⟨before ++ name, value ++ after, ?_, ?_, htrim⟩
  · rw [htrimmed] at hpiece
    simpa using hpiece
  · rw [List.mem_append, not_or]
    refine ⟨fun hequals => ?_, hname⟩
    exact absurd (hbefore _ hequals) (by decide)

theorem contextCookie_carried {context : Context} {name value piece : Bytes} {before after : List Bytes}
    (hname : cookieToken name = true) (hvalue : stringvTrim value = value)
    (h : Carries name value (requestHeader context.request (sv "Cookie")) before after piece) :
    contextCookie context name = value := by
  have hparse : cookieParse context = (true, (before ++ piece :: after).filterMap cookieOf) := by
    have hpieces := @cookieParseLoop_pieces _ [] h.plain (by rw [List.length_nil, Nat.zero_add]; exact h.few)
    rw [cookieParse, h.header, hpieces, List.nil_append]
  have hother : ((before.filterMap cookieOf).find? fun cookie => stringvEqual cookie.name name) = none := by
    refine List.find?_eq_none.mpr fun cookie hcookie hequal => ?_
    obtain ⟨other, hmem, hpair⟩ := List.mem_filterMap.mp hcookie
    obtain ⟨text, rest, hsplit, hequals, htrim⟩ := cookieOf_pair hpair
    exact h.first other hmem text rest hsplit hequals (htrim.trans (beq_iff_eq.mp hequal))
  have htoken := (cookieToken_iff.mp hname).2
  have hcookie : cookieOf piece = some ⟨name, value⟩ := by
    rw [cookieOf, h.cookie,
      stringvSplitOnceChar_some.mpr ⟨rfl, fun hc => (htoken _ hc).ne (by decide) rfl⟩, Option.bind_some]
    dsimp only
    rw [stringvTrim_noSpace fun c hc => (htoken c hc).noSpace, hvalue, if_pos hname]
  rw [contextCookie, hparse]
  dsimp only
  rw [if_pos rfl, List.filterMap_append, List.find?_append, hother, Option.none_or,
    List.filterMap_cons, hcookie]
  dsimp only
  have hequal : stringvEqual name name = true := beq_self_eq_true name
  rw [List.find?_cons, hequal]
  rfl

/-- A name that was accepted makes sessions work exactly where all of its bytes are above the
space and below 0x80: a space, a control character and a byte that is negative are accepted. -/
theorem sessionCookie_works_iff (generichash : Bytes → Option Bytes)
    (h : ceasyConfigInit getenv = (true, config)) :
    CookiesWork (configEnvironment config generichash) ↔
      ∀ c ∈ sessionCookieText getenv, 0x20 < c ∧ c < 0x80 := by
  have haccepted := ceasyConfigInit_accepted h
  have hsets : ∀ context : Context, ∀ token, TokenText token →
      context.responseHeaders.length < CEASY_MAX_RESPONSE_HEADERS →
        (contextSetCookie context (ceasySessionCookieName config) token
          (sessionStoreOptions (configEnvironment config generichash))).1 =
            cookieToken (ceasySessionCookieName config) := by
    intro context token htoken hroom
    exact contextSetCookie_fst_eq _ (fun c hc => (tokenText_plain htoken c hc).printable) hroom
  rw [← configName_token_iff haccepted]
  constructor
  · intro hworks
    rw [← hsets { request := {} } _ zeroToken_text (by decide)]
    exact hworks.sets _ _ zeroToken_text (by decide)
  · intro hname
    refine ⟨fun context token htoken hroom => (hsets context token htoken hroom).trans hname, ?_⟩
    intro context token before after piece htoken hcarries
    exact contextCookie_carried hname (tokenText_trim htoken) hcarries

def oneVariable (name value : Bytes) (hvalue : 0 ∉ value) : Bytes → Option CString :=
  fun other => if other = name then some ⟨value, hvalue⟩ else none

theorem sessionCookie_works_default :
    ∃ config, ceasyConfigInit (fun _ => none) = (true, config) ∧
      CookiesWork (configEnvironment config fun _ => none) := by
  have h : ceasyConfigInit (fun _ => none) = (true, (ceasyConfigInit fun _ => none).2) := by decide +kernel
  exact ⟨_, h, (sessionCookie_works_iff (fun _ => none) h).mpr (by decide +kernel)⟩

/-- A name with a space in it is accepted. -/
theorem sessionCookie_space :
    ∃ config, ceasyConfigInit (oneVariable (sv "CEASY_SESSION_COOKIE") (sv "my session") (by decide)) =
        (true, config) ∧ ¬ CookiesWork (configEnvironment config fun _ => none) := by
  refine ⟨(ceasyConfigInit (oneVariable (sv "CEASY_SESSION_COOKIE") (sv "my session") (by decide))).2,
    by decide +kernel, fun hworks => ?_⟩
  have hset := hworks.sets { request := {} } _ zeroToken_text (by decide)
  exact absurd (contextSetCookie_name hset) (by decide +kernel)

/-- What a commit that has asked for the time has left in the table. -/
structure LeftRow (environment : Environment) (now : ℤ) (final : Context) (world : SessionWorld)
    (digest : Bytes) (row : SessionRow) : Prop where
  found : world.table digest = some row
  digest : sessionDigest environment final.session.token = some digest
  data : sessionSerialize final.session.values = some row.data
  expiresAt : row.expiresAt = now + environment.sessionTtlSeconds

theorem commitResult (h : Leads (sessionCommit environment context) events (.done (true, final))) :
    CommitResult environment context events (true, final) := by
  have hkeeps := @sessionCommit_keeps environment context (fun _ _ => True) (fun _ _ _ => trivial) []
    fun _ _ _ _ _ _ _ _ _ _ => trivial
  obtain ⟨later, hlater, hresult⟩ := hkeeps.leads h
  rw [List.nil_append, List.nil_append] at hlater
  rwa [hlater]

theorem RemovalResult.noTime {deleted : Bool} (h : RemovalResult environment context events deleted)
    (now : ℤ) : (⟨.time, now⟩ : SessionEvent) ∉ events := by
  cases h with
  | kept => exact List.not_mem_nil
  | removed _ hdelete => cases hdelete <;> simp

theorem GenerationResult.noTime {result : Bool × Context} (h : GenerationResult context events result)
    (now : ℤ) : (⟨.time, now⟩ : SessionEvent) ∉ events := by
  cases h <;> simp

theorem StoreResult.leftRow {before : SessionWorld} {now : ℤ}
    (h : StoreResult environment context events (true, final)) (htime : ⟨.time, now⟩ ∈ events)
    (hserves : Serves SessionAnswers before events world) :
    ∃ digest row, LeftRow environment now final world digest row := by
  cases h with
  | @stored digest data hdata hdigest _ clock =>
    obtain rfl : now = clock := by simpa using htime
    obtain ⟨middle, -, hreplace⟩ := serves_cons.mp hserves
    obtain ⟨last, hanswer, hnil⟩ := serves_cons.mp hreplace
    rw [serves_nil.mp hnil]
    cases hanswer with
    | replace => exact ⟨digest, _, ⟨Function.update_self .., hdigest, hdata, rfl⟩⟩

theorem CommittedAt.leftRow {now : ℤ} (h : CommittedAt environment now final world) :
    ∃ digest row, LeftRow environment now final world digest row := by
  obtain ⟨context, before, events, hleads, hserves, htime⟩ := h
  cases commitResult hleads with
  | idle => cases htime
  | @ended removal generation storing generated _ _ _ hremoval hgeneration hstore =>
    obtain ⟨middle, -, hserves⟩ := serves_append.mp hserves
    obtain ⟨last, -, hserves⟩ := serves_append.mp hserves
    rw [List.mem_append, List.mem_append] at htime
    rcases htime with htime | htime | htime
    · exact absurd htime (hremoval.noTime now)
    · exact absurd htime (hgeneration.noTime now)
    · exact hstore.leftRow htime hserves

/-- The row of a session that was committed is accepted until it expires. -/
theorem LeftRow.expires {now : ℤ} {digest : Bytes} {row : SessionRow}
    (h : LeftRow environment now final world digest row) :
    ExpiresAt environment (now + environment.sessionTtlSeconds) final world digest := by
  refine ⟨fun loader t hfresh hcookie ht => ?_, fun loader t hfresh hcookie ht deleted => ?_⟩
  · obtain ⟨hdecoded, hcontents⟩ := sessionDeserialize_serialize _ _ h.data
    have hvalues : sessionDeserialize loader.session.values row.data =
        (true, (sessionDeserialize .empty row.data).2) := by
      rw [hfresh]
      exact Prod.ext hdecoded rfl
    rw [h.found]
    exact ⟨_, sessionLoad_leads hcookie h.digest (by rw [h.expiresAt]; exact ht) hvalues, rfl, rfl, hcontents⟩
  · refine ⟨loadedContext loader, ?_, by rw [loadedContext, hfresh]⟩
    rw [sessionLoad_eq, hcookie, h.digest, h.found]
    apply Leads.cons
    unfold sessionLoadRow
    apply Leads.cons
    rw [h.expiresAt, if_pos ht, sessionDeleteDigest_eq h.digest]
    exact .cons (.nil _)

/-- A lifetime that was accepted is safe at a time exactly where the number that was written, as
far as it goes into an `int64_t`, does not exceed what is left of one. -/
theorem sessionExpiry_safe_iff (generichash : Bytes → Option Bytes)
    (h : ceasyConfigInit getenv = (true, config)) {now : ℤ} (hnow : 0 ≤ now) :
    ExpirySafe (configEnvironment config generichash) now ↔
      (strtoll (sessionTtlText getenv)).1 ≤ INT64_MAX - now := by
  have haccepted := ceasyConfigInit_accepted h
  have httl : (configEnvironment config generichash).sessionTtlSeconds =
      (strtoll (sessionTtlText getenv)).1 := haccepted.ttlSeconds_eq
  have hpositive := haccepted.ttlPositive
  rw [haccepted.ttl] at hpositive
  constructor
  · intro hsafe
    have hsum := hsafe.sum
    rw [int64Add, httl] at hsum
    split_ifs at hsum with hrange
    omega
  · intro hfits
    refine ⟨?_, fun final world hcommitted => ?_⟩
    · rw [int64Add, httl, if_pos]
      unfold INT64_MIN
      omega
    · obtain ⟨digest, row, hrow⟩ := hcommitted.leftRow
      exact ⟨digest, hrow.digest, hrow.expires⟩

theorem sessionExpiry_safe_week :
    ∃ config, ceasyConfigInit (fun _ => none) = (true, config) ∧
      ExpirySafe (configEnvironment config fun _ => none) 1700000000 := by
  have h : ceasyConfigInit (fun _ => none) = (true, (ceasyConfigInit fun _ => none).2) := by decide +kernel
  exact ⟨_, h, (sessionExpiry_safe_iff (fun _ => none) h (by decide)).mpr (by decide +kernel)⟩

/-- The greatest lifetime that is accepted, from the first second on. -/
theorem sessionExpiry_overflows :
    ∃ config, ceasyConfigInit (oneVariable (sv "CEASY_SESSION_TTL_SECONDS") (sv "9223372036854775807")
        (by decide)) = (true, config) ∧ ¬ ExpirySafe (configEnvironment config fun _ => none) 1 := by
  refine ⟨(ceasyConfigInit (oneVariable (sv "CEASY_SESSION_TTL_SECONDS") (sv "9223372036854775807")
    (by decide))).2, by decide +kernel, fun hsafe => ?_⟩
  exact absurd hsafe.sum (by decide +kernel)

end Ceasy.Sessions
