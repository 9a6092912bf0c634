import Ceasy.Session

set_option autoImplicit false

/-!
# Tokens against forgery and flash messages

Both are strings that the library keeps in the session under keys of its own.
-/
namespace Ceasy.Sessions
open StringView

def CSRF_KEY : Bytes := sv "__ceasy.csrf.token"

/-- The end of `csrf_token`: a token is made and kept. -/
def csrfMake (environment : Environment) (context : Context) :
    SessionDialogue (Option Bytes × Context) :=
  .call .randomToken fun encoded =>
    match encoded with
    | none => .done (none, context)
    | some encoded =>
      (sessionSetString environment context CSRF_KEY (some encoded)).bind fun stored =>
        if !stored.1 then .done (none, stored.2)
        else sessionGetString environment stored.2 CSRF_KEY

def csrfToken (environment : Environment) (context : Context) :
    SessionDialogue (Option Bytes × Context) :=
  (sessionGetString environment context CSRF_KEY).bind fun found =>
    match found.1 with
    | some token => .done (some token, found.2)
    | none => csrfMake environment found.2

/-- A token that could not be had has no length; `sodiumInit` is whether libsodium is ready. -/
def csrfVerify (environment : Environment) (sodiumInit : Bool) (context : Context) (token : Bytes) :
    SessionDialogue (Bool × Context) :=
  (csrfToken environment context).bind fun expected =>
    let text := expected.1.getD []
    .done (decide (text.length = token.length) && decide (0 < text.length) && sodiumInit &&
      decide (text = token), expected.2)

def FLASH_PREFIX : Bytes := sv "__ceasy.flash."

def flashKey (key : Bytes) : Option Bytes :=
  if key.length = 0 || stringvContains key (sv ".") then none else some (FLASH_PREFIX ++ key)

def flashSet (environment : Environment) (context : Context) (key : Bytes)
    (message : Option Bytes) : SessionDialogue (Bool × Context) :=
  match flashKey key with
  | none => .done (false, context)
  | some fullKey => sessionSetString environment context fullKey message

/-- The end of `flash_get`. The copy of an empty message is NULL, so an empty message is not
given, and stays. -/
def flashTake (environment : Environment) (fullKey : Bytes) (found : Option Bytes × Context) :
    SessionDialogue (Option Bytes × Context) :=
  match found.1 with
  | none => .done (none, found.2)
  | some message =>
    if message.length = 0 then .done (none, found.2)
    else (sessionDelete environment found.2 fullKey).bind fun deleted =>
      .done (some message, deleted.2)

def flashGet (environment : Environment) (context : Context) (key : Bytes) :
    SessionDialogue (Option Bytes × Context) :=
  match flashKey key with
  | none => .done (none, context)
  | some fullKey =>
    (sessionGetString environment context fullKey).bind (flashTake environment fullKey)

inductive RequestOperation where
  | session (operation : SessionOperation)
  | csrfToken
  | flashSet (key : Bytes) (message : Option Bytes)
  | flashGet (key : Bytes)
deriving DecidableEq, Repr

def requestPerform (environment : Environment) (context : Context) :
    RequestOperation → SessionDialogue (SessionAnswer × Context)
  | .session operation => sessionPerform environment context operation
  | .csrfToken => answered .string (csrfToken environment context)
  | .flashSet key message => answered .done (flashSet environment context key message)
  | .flashGet key => answered .string (flashGet environment context key)

def requestPerformAll (environment : Environment) :
    List RequestOperation → Context → SessionDialogue (List SessionAnswer × Context)
  | [], context => .done ([], context)
  | operation :: operations, context =>
    (requestPerform environment context operation).bind fun first =>
      (requestPerformAll environment operations first.2).bind fun rest =>
        .done (first.1 :: rest.1, rest.2)

end Ceasy.Sessions
