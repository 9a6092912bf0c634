import Mathlib.Tactic.SplitIfs
import Ceasy.StringView

set_option autoImplicit false

/-!
# Configuration

What a process is configured with is read from its environment once, and checked. The
environment is a function here, and `strtoll` is written after its documentation: blanks, a sign,
digits, and a result that saturates.
-/
namespace Ceasy.Configs
open StringView

def INT64_MAX : ℤ := 9223372036854775807

def INT64_MIN : ℤ := -9223372036854775808

def isDigit (c : UInt8) : Bool := decide (ch '0' ≤ c ∧ c ≤ ch '9')

def digitsValue (digits : Bytes) : ℕ :=
  digits.foldl (fun value c => 10 * value + (c - ch '0').toNat) 0

/-- The sign of what is behind the blanks, and the text behind it. -/
def strtollSign : Bytes → Bool × Bytes
  | [] => (false, [])
  | c :: behind =>
    if c = ch '-' then (true, behind) else if c = ch '+' then (false, behind) else (false, c :: behind)

/-- The number, and what is behind it; the whole text is behind where there is no number. -/
def strtoll (value : Bytes) : ℤ × Bytes :=
  let (negative, behind) := strtollSign (stringvTrimLeft value)
  let digits := behind.takeWhile isDigit
  if digits = [] then (0, value)
  else
    (max INT64_MIN (min INT64_MAX (if negative then -(digitsValue digits) else digitsValue digits)),
      behind.dropWhile isDigit)

inductive CeasyEnvironment where
  | development | test | production
deriving DecidableEq, Repr

structure CeasyConfig where
  initialized : Bool := false
  valid : Bool := false
  environment : CeasyEnvironment := .development
  port : ℕ := 0
  ttl : ℤ := 0
  databasePath : Bytes := []
  cookieName : Bytes := []
  error : Bytes := []
deriving DecidableEq, Repr

/-- `snprintf` into the 256 bytes of `error`. -/
def CeasyConfig.withError (config : CeasyConfig) (text : Bytes) : CeasyConfig :=
  { config with error := text.take 255 }

variable (getenv : Bytes → Option CString)

def configEnv (name fallback : Bytes) : Bytes :=
  match getenv name with
  | none => fallback
  | some value => if value.bytes = [] then fallback else value.bytes

def configParseEnvironment (value : Bytes) : Option CeasyEnvironment :=
  if value = sv "development" then some .development
  else if value = sv "test" then some .test
  else if value = sv "production" then some .production
  else none

def configParseInteger (name value : Bytes) (minimum maximum : ℤ) : Except Bytes ℤ :=
  if value = [] then .error (name ++ sv " is empty")
  else if (strtoll value).2 = value ∨ (strtoll value).2 ≠ [] ∨ (strtoll value).1 < minimum ∨
      maximum < (strtoll value).1 then
    .error (sv "invalid " ++ name ++ sv ": " ++ value)
  else .ok (strtoll value).1

def ceasyConfigInit : Bool × CeasyConfig :=
  let environment := configEnv getenv (sv "CEASY_ENV") (sv "development")
  let port := configEnv getenv (sv "CEASY_PORT") (sv "3000")
  let databasePath := configEnv getenv (sv "CEASY_DATABASE_PATH") (sv "db/development.sqlite3")
  let cookie := configEnv getenv (sv "CEASY_SESSION_COOKIE") (sv "_ceasy_session")
  let ttl := configEnv getenv (sv "CEASY_SESSION_TTL_SECONDS") (sv "604800")
  let config : CeasyConfig := { initialized := true }
  match configParseEnvironment environment with
  | none => (false, config.withError (sv "invalid CEASY_ENV: " ++ environment))
  | some parsed =>
    let config := { config with environment := parsed }
    match configParseInteger (sv "CEASY_PORT") port 1 65535 with
    | .error text => (false, config.withError text)
    | .ok parsed =>
      let config := { config with port := parsed.toNat }
      match configParseInteger (sv "CEASY_SESSION_TTL_SECONDS") ttl 1 INT64_MAX with
      | .error text => (false, config.withError text)
      | .ok parsed =>
        let config := { config with ttl := parsed }
        if cookie = [] ∨ 128 < cookie.length ∨ ch '=' ∈ cookie ∨ ch ';' ∈ cookie then
          (false, config.withError (sv "invalid CEASY_SESSION_COOKIE"))
        else (true, { config with databasePath := databasePath, cookieName := cookie, valid := true })

def configReady (config : CeasyConfig) : Bool := config.initialized && config.valid

def ceasyEnvironment (config : CeasyConfig) : CeasyEnvironment :=
  if configReady config then config.environment else .development

def ceasyIsProduction (config : CeasyConfig) : Bool := ceasyEnvironment config == .production

def ceasySessionCookieName (config : CeasyConfig) : Bytes :=
  if configReady config then config.cookieName else sv "_ceasy_session"

def ceasySessionTtlSeconds (config : CeasyConfig) : ℤ :=
  if configReady config then config.ttl else 604800

variable {getenv} {config : CeasyConfig}

theorem configParseInteger_ok {name value : Bytes} {minimum maximum parsed : ℤ}
    (h : configParseInteger name value minimum maximum = .ok parsed) :
    parsed = (strtoll value).1 ∧ minimum ≤ parsed ∧ parsed ≤ maximum := by
  unfold configParseInteger at h
  split_ifs at h with hempty hbad
  cases h
  simp only [not_or, Int.not_lt] at hbad
  exact ⟨rfl, hbad.2.2⟩

/-- The text that the environment has for the time a session lives. -/
def sessionTtlText (getenv : Bytes → Option CString) : Bytes :=
  configEnv getenv (sv "CEASY_SESSION_TTL_SECONDS") (sv "604800")

def sessionCookieText (getenv : Bytes → Option CString) : Bytes :=
  configEnv getenv (sv "CEASY_SESSION_COOKIE") (sv "_ceasy_session")

structure AcceptedConfig (getenv : Bytes → Option CString) (config : CeasyConfig) : Prop where
  ready : configReady config = true
  ttl : config.ttl = (strtoll (sessionTtlText getenv)).1
  ttlPositive : 1 ≤ config.ttl
  ttlBound : config.ttl ≤ INT64_MAX
  cookieName : config.cookieName = sessionCookieText getenv
  cookieSome : config.cookieName ≠ []
  cookieLength : config.cookieName.length ≤ 128
  cookieEquals : ch '=' ∉ config.cookieName
  cookieSemicolon : ch ';' ∉ config.cookieName

theorem ceasyConfigInit_accepted (h : ceasyConfigInit getenv = (true, config)) : AcceptedConfig getenv config := by
  unfold ceasyConfigInit at h
  dsimp only at h
  cases henvironment : configParseEnvironment (configEnv getenv (sv "CEASY_ENV") (sv "development")) with
  | none =>
    rw [henvironment] at h
    cases h
  | some environment =>
    rw [henvironment] at h
    dsimp only at h
    cases hport : configParseInteger (sv "CEASY_PORT") (configEnv getenv (sv "CEASY_PORT") (sv "3000")) 1
        65535 with
    | error text =>
      rw [hport] at h
      cases h
    | ok port =>
      rw [hport] at h
      dsimp only at h
      cases httl : configParseInteger (sv "CEASY_SESSION_TTL_SECONDS")
          (configEnv getenv (sv "CEASY_SESSION_TTL_SECONDS") (sv "604800")) 1 INT64_MAX with
      | error text =>
        rw [httl] at h
        cases h
      | ok ttl =>
        rw [httl] at h
        dsimp only at h
        split_ifs at h with hcookie
        · cases h
        · simp only [not_or, Nat.not_lt] at hcookie
          obtain ⟨-, rfl⟩ := Prod.mk.inj h
          have hparsed := configParseInteger_ok httl
          exact ⟨rfl, hparsed.1, hparsed.2.1, hparsed.2.2, rfl, hcookie.1, hcookie.2.1, hcookie.2.2.1,
            hcookie.2.2.2⟩

theorem AcceptedConfig.cookieName_eq (h : AcceptedConfig getenv config) :
    ceasySessionCookieName config = sessionCookieText getenv := by
  rw [ceasySessionCookieName, if_pos h.ready, h.cookieName]

theorem AcceptedConfig.ttlSeconds_eq (h : AcceptedConfig getenv config) :
    ceasySessionTtlSeconds config = (strtoll (sessionTtlText getenv)).1 := by
  rw [ceasySessionTtlSeconds, if_pos h.ready, h.ttl]

end Ceasy.Configs
