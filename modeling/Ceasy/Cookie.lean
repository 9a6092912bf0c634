import Ceasy.RequestParse
import Ceasy.SessionValues

set_option autoImplicit false

/-!
# Cookies

The part of a request's context that sessions use: the request, the headers of
the response and the session. Cookies are parsed once per request and kept; the
request does not change, so they are parsed at each use here. A `char` is signed.
-/
namespace Ceasy.Sessions
open StringView RequestParse

def CEASY_MAX_RESPONSE_HEADERS : ℕ := 32

def CEASY_MAX_REQUEST_COOKIES : ℕ := 64

structure ResponseHeader where
  name : Bytes
  value : Bytes
deriving DecidableEq, Repr

/-- The session of a request; `existing` is the field `exists`. -/
structure Session where
  values : SessionValues := .empty
  token : Bytes := []
  loaded : Bool := false
  existing : Bool := false
  dirty : Bool := false
  regenerate : Bool := false
  destroy : Bool := false
  expiresAt : ℤ := 0

structure Context where
  request : Request
  responseHeaders : List ResponseHeader := []
  session : Session := {}

def contextHeaderValueValid (value : Bytes) : Bool :=
  !stringvContains value (sv "\r") && !stringvContains value (sv "\n")

/-- The copy of an empty value is NULL, so an empty value is refused. -/
def contextAddHeader (context : Context) (name value : Bytes) : Bool × Context :=
  if name.length = 0 || !contextHeaderValueValid name || !contextHeaderValueValid value ||
      decide (CEASY_MAX_RESPONSE_HEADERS ≤ context.responseHeaders.length) then (false, context)
  else if value.length = 0 then (false, context)
  else (true, { context with responseHeaders := context.responseHeaders ++ [⟨name, value⟩] })

structure CookieParam where
  name : Bytes
  value : Bytes
deriving DecidableEq, Repr

inductive CookieSameSite where
  | lax | strict | none
deriving DecidableEq, Repr

structure CookieOptions where
  path : Bytes := []
  domain : Bytes := []
  maxAge : ℤ := 0
  httpOnly : Bool := false
  secure : Bool := false
  sameSite : CookieSameSite := .lax

def cookieToken (value : Bytes) : Bool :=
  decide (0 < value.length) && value.all fun c =>
    !(c ≤ 0x20 || 0x80 ≤ c || c == ch ';' || c == ch '=' || c == ch '\r' || c == ch '\n')

def cookiePair (remaining : Bytes) : Bytes × Bytes :=
  (stringvSplitOnceChar remaining (ch ';')).getD (remaining, [])

theorem cookiePair_lt {remaining : Bytes} (h : remaining ≠ []) :
    (cookiePair remaining).2.length < remaining.length := by
  unfold cookiePair
  cases hsplit : stringvSplitOnceChar remaining (ch ';') with
  | none => exact List.length_pos_iff.mpr h
  | some pair =>
    obtain ⟨left, right⟩ := pair
    obtain ⟨rfl, -⟩ := stringvSplitOnceChar_some.mp hsplit
    change right.length < _
    rw [List.length_append, List.length_cons]
    omega

def cookieParseLoop (remaining : Bytes) (cookies : List CookieParam) : Bool × List CookieParam :=
  if _h : remaining ≠ [] then
    match stringvSplitOnceChar (stringvTrim (cookiePair remaining).1) (ch '=') with
    | none => cookieParseLoop (cookiePair remaining).2 cookies
    | some (name, value) =>
      if !cookieToken (stringvTrim name) then cookieParseLoop (cookiePair remaining).2 cookies
      else if CEASY_MAX_REQUEST_COOKIES ≤ cookies.length then (false, cookies)
      else
        cookieParseLoop (cookiePair remaining).2 (cookies ++ [⟨stringvTrim name, stringvTrim value⟩])
  else (true, cookies)
termination_by remaining.length
decreasing_by all_goals exact cookiePair_lt _h

def cookieParse (context : Context) : Bool × List CookieParam :=
  cookieParseLoop (requestHeader context.request (sv "Cookie")) []

def contextCookie (context : Context) (name : Bytes) : Bytes :=
  let (ok, cookies) := cookieParse context
  if ok then ((cookies.find? fun cookie => stringvEqual cookie.name name).map (·.value)).getD []
  else []

/-- The header value that `context_set_cookie` builds. -/
def cookieText (name value : Bytes) (options : CookieOptions) : Bytes :=
  name ++ [ch '='] ++ value ++
    (if 0 < options.path.length then sv "; Path=" ++ options.path else []) ++
    (if 0 < options.domain.length then sv "; Domain=" ++ options.domain else []) ++
    (if 0 ≤ options.maxAge then sv "; Max-Age=" ++ signedDecimal options.maxAge else []) ++
    (if options.httpOnly then sv "; HttpOnly" else []) ++
    (if options.secure then sv "; Secure" else []) ++
    (match options.sameSite with
      | .strict => sv "; SameSite=Strict"
      | .none => sv "; SameSite=None"
      | .lax => sv "; SameSite=Lax")

def contextSetCookie (context : Context) (name value : Bytes) (options : CookieOptions) :
    Bool × Context :=
  if !cookieToken name || stringvContains value (sv "\r") || stringvContains value (sv "\n") ||
      stringvContains options.path (sv "\r") || stringvContains options.path (sv "\n") ||
      stringvContains options.domain (sv "\r") || stringvContains options.domain (sv "\n") then
    (false, context)
  else contextAddHeader context (sv "Set-Cookie") (cookieText name value options)

def contextDeleteCookie (context : Context) (name : Bytes) (options : CookieOptions) :
    Bool × Context :=
  contextSetCookie context name [] { options with maxAge := 0 }

theorem contextHeaderValueValid_iff {value : Bytes} :
    contextHeaderValueValid value = true ↔ ch '\r' ∉ value ∧ ch '\n' ∉ value := by
  have hreturn : stringvContains value (sv "\r") = true ↔ ch '\r' ∈ value := stringvContains_singleton
  have hnewline : stringvContains value (sv "\n") = true ↔ ch '\n' ∈ value := stringvContains_singleton
  rw [contextHeaderValueValid, Bool.and_eq_true, Bool.not_eq_true', Bool.not_eq_true',
    ← Bool.not_eq_true, ← Bool.not_eq_true, hreturn, hnewline]

theorem cookieToken_valid {value : Bytes} (h : cookieToken value = true) :
    ch '\r' ∉ value ∧ ch '\n' ∉ value := by
  unfold cookieToken at h
  rw [Bool.and_eq_true, List.all_eq_true] at h
  constructor
  · intro hmem
    exact absurd (h.2 _ hmem) (by decide)
  · intro hmem
    exact absurd (h.2 _ hmem) (by decide)

/-- Setting a cookie adds its header or leaves the context as it is. -/
theorem contextSetCookie_cases (context : Context) (name value : Bytes) (options : CookieOptions) :
    contextSetCookie context name value options = (false, context) ∨
      contextSetCookie context name value options =
        (true, { context with responseHeaders := context.responseHeaders ++
          [⟨sv "Set-Cookie", cookieText name value options⟩] }) := by
  unfold contextSetCookie contextAddHeader
  split_ifs
  · exact .inl rfl
  · exact .inl rfl
  · exact .inl rfl
  · exact .inr rfl

theorem contextSetCookie_name {context : Context} {name value : Bytes} {options : CookieOptions}
    (h : (contextSetCookie context name value options).1 = true) : cookieToken name = true := by
  unfold contextSetCookie at h
  by_contra hname
  rw [Bool.not_eq_true] at hname
  rw [hname] at h
  cases h

theorem contextSetCookie_session (context : Context) (name value : Bytes) (options : CookieOptions) :
    (contextSetCookie context name value options).2.request = context.request ∧
      (contextSetCookie context name value options).2.session = context.session := by
  rcases contextSetCookie_cases context name value options with h | h
  · rw [h]
    exact ⟨rfl, rfl⟩
  · rw [h]
    exact ⟨rfl, rfl⟩

end Ceasy.Sessions
