import Ceasy.Cookie
import Ceasy.Dialogue
import Ceasy.SessionCodec

set_option autoImplicit false

/-!
# Sessions

A request is a dialogue with the sessions table, the clock and the generator of
random tokens. Each SQL statement is one call and so is atomic; between two
calls a request works on its own copy of the session. The configuration and
libsodium's digest are parameters, and the handler of a request has an arena and
an open database.
-/
namespace Ceasy.Sessions
open StringView Collection

structure Environment where
  sessionCookieName : Bytes
  sessionTtlSeconds : ℤ
  isProduction : Bool
  /-- `crypto_generichash` behind `sodium_init`. -/
  generichash : Bytes → Option Bytes

/-- A row of `ceasy_sessions`, whose key is the token's digest. -/
structure SessionRow where
  data : Bytes
  createdAt : ℤ
  updatedAt : ℤ
  expiresAt : ℤ
deriving DecidableEq, Repr

inductive SessionCall where
  | select (digest : Bytes)
  | delete (digest : Bytes)
  | replace (digest data : Bytes) (now expiresAt : ℤ)
  | time
  | randomToken
deriving DecidableEq, Repr

/-- A statement may fail; a token may not be had. -/
abbrev SessionReply : SessionCall → Type
  | .select _ => Option (Option SessionRow)
  | .delete _ => Bool
  | .replace _ _ _ _ => Bool
  | .time => ℤ
  | .randomToken => Option Bytes

abbrev SessionDialogue (R : Type) := Dialogue SessionCall SessionReply R

abbrev SessionEvent := Event SessionCall SessionReply

def sessionDigest (environment : Environment) (token : Bytes) : Option Bytes :=
  if 0 < token.length then environment.generichash token else none

def sessionGenerateToken (context : Context) : SessionDialogue (Bool × Context) :=
  .call .randomToken fun encoded =>
    match encoded with
    | none => .done (false, context)
    | some token => .done (true, { context with session := { context.session with token := token } })

def sessionDeleteDigest (environment : Environment) (token : Bytes) : SessionDialogue Bool :=
  match sessionDigest environment token with
  | none => .done false
  | some digest => .call (.delete digest) fun success => .done success

/-- The row is dropped when it has expired or cannot be decoded, whether or not
    deleting it succeeds. -/
def sessionLoadRow (environment : Environment) (context : Context) (cookie : Bytes)
    (row : SessionRow) : SessionDialogue (Bool × Context) :=
  .call .time fun now =>
    if row.expiresAt ≤ now then
      (sessionDeleteDigest environment cookie).bind fun _ => .done (true, context)
    else
      let (decoded, values) := sessionDeserialize context.session.values row.data
      if !decoded then
        (sessionDeleteDigest environment cookie).bind fun _ =>
          .done (true, { context with session := { context.session with values := values } })
      else
        .done (true, { context with session := { context.session with
          values := values, token := cookie, expiresAt := row.expiresAt, existing := true } })

def sessionLoad (environment : Environment) (context : Context) : SessionDialogue (Bool × Context) :=
  let context := { context with session := { context.session with loaded := true } }
  let cookie := contextCookie context environment.sessionCookieName
  match sessionDigest environment cookie with
  | none => .done (true, context)
  | some digest =>
    .call (.select digest) fun step =>
      match step with
      | none => .done (false, context)
      | some none => .done (true, context)
      | some (some row) => sessionLoadRow environment context cookie row

def sessionEnsure (environment : Environment) (context : Context) :
    SessionDialogue (Bool × Context) :=
  if context.session.loaded then .done (true, context) else sessionLoad environment context

/-- An operation on the session once it is loaded, refused when that fails. -/
def sessionWith {R : Type} (environment : Environment) (context : Context) (refused : R)
    (operation : Context → R × Context) : SessionDialogue (R × Context) :=
  (sessionEnsure environment context).bind fun loaded =>
    .done (if loaded.1 then operation loaded.2 else (refused, loaded.2))

/-- The end of `session_set_string`, `session_set_int64` and `session_set_bool`. -/
def sessionSet (context : Context) (result : Bool × SessionValues) : Bool × Context :=
  let session := { context.session with values := result.2 }
  if result.1 then
    (true, { context with session := { session with destroy := false, dirty := true } })
  else (false, { context with session := session })

/-- A value without data is refused. -/
def sessionSetString (environment : Environment) (context : Context) (key : Bytes)
    (value : Option Bytes) : SessionDialogue (Bool × Context) :=
  sessionWith environment context false fun context =>
    match value with
    | none => (false, context)
    | some value =>
      if key.length = 0 then (false, context)
      else sessionSet context (context.session.values.setStringView key value)

def sessionGetString (environment : Environment) (context : Context) (key : Bytes) :
    SessionDialogue (Option Bytes × Context) :=
  sessionWith environment context none fun context => (context.session.values.getString key, context)

def sessionSetInt64 (environment : Environment) (context : Context) (key : Bytes) (value : Int64) :
    SessionDialogue (Bool × Context) :=
  sessionWith environment context false fun context =>
    sessionSet context (context.session.values.setValue key (smInt value))

def sessionGetInt64 (environment : Environment) (context : Context) (key : Bytes) :
    SessionDialogue (Option Int64 × Context) :=
  sessionWith environment context none fun context => (context.session.values.getInt key, context)

def sessionSetBool (environment : Environment) (context : Context) (key : Bytes) (value : Bool) :
    SessionDialogue (Bool × Context) :=
  sessionWith environment context false fun context =>
    sessionSet context (context.session.values.setValue key (smBool value))

def sessionGetBool (environment : Environment) (context : Context) (key : Bytes) :
    SessionDialogue (Option Bool × Context) :=
  sessionWith environment context none fun context => (context.session.values.getBool key, context)

def sessionDelete (environment : Environment) (context : Context) (key : Bytes) :
    SessionDialogue (Bool × Context) :=
  sessionWith environment context false fun context =>
    let (removed, values) := context.session.values.remove key
    let session := { context.session with values := values }
    (true, { context with session := { session with dirty := session.dirty || removed } })

def sessionClear (environment : Environment) (context : Context) : SessionDialogue (Bool × Context) :=
  sessionWith environment context false fun context =>
    (true, { context with session := { context.session with
      values := context.session.values.clear, dirty := true } })

def sessionRegenerate (environment : Environment) (context : Context) :
    SessionDialogue (Bool × Context) :=
  sessionWith environment context false fun context =>
    (true, { context with session := { context.session with regenerate := true, dirty := true } })

def sessionEndOptions (environment : Environment) : CookieOptions where
  path := sv "/"
  httpOnly := true
  sameSite := .lax
  secure := environment.isProduction

def sessionStoreOptions (environment : Environment) : CookieOptions :=
  { sessionEndOptions environment with maxAge := environment.sessionTtlSeconds }

/-- The end of `session_destroy`; whether the cookie could be deleted is not asked. -/
def sessionEnd (environment : Environment) (context : Context) : Context :=
  let context := { context with session := { context.session with
    values := context.session.values.clear
    destroy := true
    regenerate := true
    dirty := false
    existing := false } }
  (contextDeleteCookie context environment.sessionCookieName (sessionEndOptions environment)).2

def sessionDestroy (environment : Environment) (context : Context) :
    SessionDialogue (Bool × Context) :=
  (sessionEnsure environment context).bind fun loaded =>
    if !loaded.1 then .done (false, loaded.2)
    else if 0 < loaded.2.session.token.length then
      (sessionDeleteDigest environment loaded.2.session.token).bind fun deleted =>
        .done (if deleted then (true, sessionEnd environment loaded.2) else (false, loaded.2))
    else .done (true, sessionEnd environment loaded.2)

/-- The end of `session_commit`, from the encoding of the values on. -/
def sessionStore (environment : Environment) (context : Context) : SessionDialogue (Bool × Context) :=
  match sessionSerialize context.session.values with
  | none => .done (false, context)
  | some data =>
    if SESSION_MAX_BYTES < data.length then .done (false, context)
    else
      match sessionDigest environment context.session.token with
      | none => .done (false, context)
      | some digest =>
        .call .time fun now =>
          let expiresAt := now + environment.sessionTtlSeconds
          let context := { context with session := { context.session with expiresAt := expiresAt } }
          .call (.replace digest data now expiresAt) fun success =>
            if !success then .done (false, context)
            else
              let (added, context) := contextSetCookie context environment.sessionCookieName
                context.session.token (sessionStoreOptions environment)
              if !added then .done (false, context)
              else
                .done (true, { context with session := { context.session with
                  existing := true, dirty := false, regenerate := false } })

def sessionCommit (environment : Environment) (context : Context) : SessionDialogue (Bool × Context) :=
  let session := context.session
  if !session.loaded || !session.dirty then .done (true, context)
  else if session.destroy then .done (true, context)
  else
    (if session.regenerate && decide (0 < session.token.length) then
      sessionDeleteDigest environment session.token
    else .done true).bind fun deleted =>
      if !deleted then .done (false, context)
      else
        (if decide (session.token.length = 0) || session.regenerate then sessionGenerateToken context
        else .done (true, context)).bind fun generated =>
          if !generated.1 then .done (false, generated.2)
          else sessionStore environment generated.2

def AUTH_USER_KEY : Bytes := sv "__ceasy.auth.user_id"

def authLogin (environment : Environment) (context : Context) (userId : Int64) :
    SessionDialogue (Bool × Context) :=
  if userId ≤ 0 then .done (false, context)
  else
    (sessionRegenerate environment context).bind fun regenerated =>
      if !regenerated.1 then .done (false, regenerated.2)
      else sessionSetInt64 environment regenerated.2 AUTH_USER_KEY userId

def authLogout (environment : Environment) (context : Context) : SessionDialogue (Bool × Context) :=
  sessionDestroy environment context

def authUserId (environment : Environment) (context : Context) :
    SessionDialogue (Option Int64 × Context) :=
  (sessionGetInt64 environment context AUTH_USER_KEY).bind fun found =>
    .done (found.1.filter fun userId => 0 < userId, found.2)

def authSignedIn (environment : Environment) (context : Context) :
    SessionDialogue (Bool × Context) :=
  (authUserId environment context).bind fun found => .done (found.1.isSome, found.2)

inductive SessionOperation where
  | setString (key : Bytes) (value : Option Bytes)
  | setInt64 (key : Bytes) (value : Int64)
  | setBool (key : Bytes) (value : Bool)
  | getString (key : Bytes)
  | getInt64 (key : Bytes)
  | getBool (key : Bytes)
  | delete (key : Bytes)
  | clear
  | regenerate
  | destroy
  | login (userId : Int64)
  | logout
  | userId
  | signedIn
  | commit
deriving DecidableEq, Repr

inductive SessionAnswer where
  | done (ok : Bool)
  | string (value : Option Bytes)
  | int64 (value : Option Int64)
  | bool (value : Option Bool)
deriving DecidableEq, Repr

def answered {R : Type} (answer : R → SessionAnswer) (d : SessionDialogue (R × Context)) :
    SessionDialogue (SessionAnswer × Context) :=
  d.bind fun result => .done (answer result.1, result.2)

def sessionPerform (environment : Environment) (context : Context) :
    SessionOperation → SessionDialogue (SessionAnswer × Context)
  | .setString key value => answered .done (sessionSetString environment context key value)
  | .setInt64 key value => answered .done (sessionSetInt64 environment context key value)
  | .setBool key value => answered .done (sessionSetBool environment context key value)
  | .getString key => answered .string (sessionGetString environment context key)
  | .getInt64 key => answered .int64 (sessionGetInt64 environment context key)
  | .getBool key => answered .bool (sessionGetBool environment context key)
  | .delete key => answered .done (sessionDelete environment context key)
  | .clear => answered .done (sessionClear environment context)
  | .regenerate => answered .done (sessionRegenerate environment context)
  | .destroy => answered .done (sessionDestroy environment context)
  | .login userId => answered .done (authLogin environment context userId)
  | .logout => answered .done (authLogout environment context)
  | .userId => answered .int64 (authUserId environment context)
  | .signedIn => answered .done (authSignedIn environment context)
  | .commit => answered .done (sessionCommit environment context)

def sessionPerformAll (environment : Environment) :
    List SessionOperation → Context → SessionDialogue (List SessionAnswer × Context)
  | [], context => .done ([], context)
  | operation :: operations, context =>
    (sessionPerform environment context operation).bind fun first =>
      (sessionPerformAll environment operations first.2).bind fun rest =>
        .done (first.1 :: rest.1, rest.2)

structure SessionWorld where
  table : Bytes → Option SessionRow
  issued : List Bytes

/-- `INSERT OR REPLACE` keeps the time at which the row was created. -/
def tableReplace (table : Bytes → Option SessionRow) (digest data : Bytes) (now expiresAt : ℤ) :
    Bytes → Option SessionRow :=
  Function.update table digest (some
    { data := data
      createdAt := ((table digest).map (·.createdAt)).getD now
      updatedAt := now
      expiresAt := expiresAt })

def tableDelete (table : Bytes → Option SessionRow) (digest : Bytes) : Bytes → Option SessionRow :=
  Function.update table digest none

/-- How calls may be answered: a statement works on the table or fails without a trace,
    and a token that is issued is fresh. -/
inductive SessionAnswers (world : SessionWorld) : (c : SessionCall) → SessionReply c → SessionWorld → Prop where
  | select (digest : Bytes) : SessionAnswers world (.select digest) (some (world.table digest)) world
  | selectFailed (digest : Bytes) : SessionAnswers world (.select digest) none world
  | delete (digest : Bytes) :
    SessionAnswers world (.delete digest) true { world with table := tableDelete world.table digest }
  | deleteFailed (digest : Bytes) : SessionAnswers world (.delete digest) false world
  | replace (digest data : Bytes) (now expiresAt : ℤ) :
    SessionAnswers world (.replace digest data now expiresAt) true
      { world with table := tableReplace world.table digest data now expiresAt }
  | replaceFailed (digest data : Bytes) (now expiresAt : ℤ) :
    SessionAnswers world (.replace digest data now expiresAt) false world
  | time (now : ℤ) : SessionAnswers world .time now world
  | token {token : Bytes} (h : token ∉ world.issued) :
    SessionAnswers world .randomToken (some token) { world with issued := token :: world.issued }
  | tokenFailed : SessionAnswers world .randomToken none world

end Ceasy.Sessions
