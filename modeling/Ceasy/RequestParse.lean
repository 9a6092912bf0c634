import Ceasy.StringView

set_option autoImplicit false

/-!
# Parsing an HTTP request

`requestParse` returns the result code together with the request as far as it
has been filled in, since the source clears the request first and leaves partial
fields behind on an error.
-/
namespace Ceasy.RequestParse
open StringView

def CEASY_MAX_HEADER_BYTES : ℕ := 16 * 1024

def CEASY_MAX_REQUEST_BODY : ℕ := 1024 * 1024

def CEASY_MAX_HEADERS : ℕ := 64

inductive HttpMethod where
  | unknown | get | post | patch | put | delete
deriving DecidableEq, Repr

structure RequestHeader where
  name : Bytes
  value : Bytes
deriving DecidableEq, Repr

structure Request where
  method : HttpMethod := .unknown
  path : Bytes := []
  queryString : Bytes := []
  body : Bytes := []
  contentType : Bytes := []
  contentLength : ℕ := 0
  headers : List RequestHeader := []
deriving DecidableEq, Repr

inductive RequestParseResult where
  | ok | incomplete | badRequest | payloadTooLarge | unsupported
deriving DecidableEq, Repr

def crlf : Bytes := [13, 10]

def headerTerminator : Bytes := [13, 10, 13, 10]

def requestFindBytes (value bytes : Bytes) : Option ℕ :=
  if bytes.length = 0 ∨ value.length < bytes.length then none
  else (List.range (value.length - bytes.length + 1)).find? fun position =>
    (value.drop position).take bytes.length == bytes

def requestHeader (request : Request) (name : Bytes) : Bytes :=
  ((request.headers.find? fun header => stringvEqualIgnoreCase header.name name).map
    (·.value)).getD []

def requestHasHeader (request : Request) (name : Bytes) : Bool :=
  request.headers.any fun header => stringvEqualIgnoreCase header.name name

def requestTransferIsChunked (value : Bytes) : Bool :=
  match _hv : value with
  | [] => false
  | _ :: _ =>
    match _hs : stringvSplitOnceChar value (ch ',') with
    | none => stringvEqualIgnoreCase (stringvTrim value) (sv "chunked")
    | some (token, next) =>
      stringvEqualIgnoreCase (stringvTrim token) (sv "chunked") || requestTransferIsChunked next
termination_by value.length
decreasing_by
  obtain ⟨hsplit, -⟩ := stringvSplitOnceChar_some.mp _hs
  rw [← _hv, hsplit, List.length_append, List.length_cons]
  omega

def httpMethodParseView (method : Bytes) : HttpMethod :=
  if stringvEqual method (sv "GET") then .get
  else if stringvEqual method (sv "POST") then .post
  else if stringvEqual method (sv "PATCH") then .patch
  else if stringvEqual method (sv "PUT") then .put
  else if stringvEqual method (sv "DELETE") then .delete
  else .unknown

/-- One line of the header block: the request with the header added, or how the
    loop is left, where `none` is the `break` on an empty line. -/
def requestHeaderLine (request : Request) (line : Bytes) :
    Except (Option RequestParseResult) Request :=
  if line.length = 0 then .error none
  else if CEASY_MAX_HEADERS ≤ request.headers.length then .error (some .badRequest)
  else
    match stringvSplitOnceChar line (ch ':') with
    | none => .error (some .badRequest)
    | some (name, value) =>
      if (stringvTrim name).length = 0 then .error (some .badRequest)
      else .ok { request with headers := request.headers ++ [⟨stringvTrim name, stringvTrim value⟩] }

/-- The header loop of `request_parse_headers`; the cursor is the offset of
    `remaining` in `raw`. A `none` leaves the loop towards the checks below it. -/
def requestParseHeaderLines (raw : Bytes) (headerEnd cursor : ℕ) (request : Request) :
    Option RequestParseResult × Request :=
  if _hloop : stringvFrom raw cursor ≠ [] ∧ cursor < headerEnd then
    match stringvFind (stringvFrom raw cursor) crlf with
    | none => (some .badRequest, request)
    | some relativeEnd =>
      if headerEnd < cursor + relativeEnd then (some .badRequest, request)
      else
        match requestHeaderLine request (stringvSlice (stringvFrom raw cursor) 0 relativeEnd) with
        | .error left => (left, request)
        | .ok request =>
          requestParseHeaderLines raw headerEnd (cursor + relativeEnd + 2) request
  else (none, request)
termination_by headerEnd - cursor

def requestCheckFraming (request : Request) : RequestParseResult × Request :=
  let request := { request with contentType := requestHeader request (sv "Content-Type") }
  if requestTransferIsChunked (requestHeader request (sv "Transfer-Encoding")) then
    (.unsupported, request)
  else if requestHasHeader request (sv "Content-Length") then
    match stringvParseSize (requestHeader request (sv "Content-Length")) with
    | none => (.badRequest, request)
    | some contentLength =>
      let request := { request with contentLength := contentLength }
      if CEASY_MAX_REQUEST_BODY < contentLength then (.payloadTooLarge, request)
      else (.ok, request)
  else (.ok, request)

def requestLine (line : Bytes) : Option (Bytes × Bytes) :=
  match stringvSplitOnceChar line (ch ' ') with
  | none => none
  | some (method, requestLineRest) =>
    match stringvSplitOnceChar requestLineRest (ch ' ') with
    | none => none
    | some (target, version) =>
      if stringvEqual version (sv "HTTP/1.1") && target.head? == some (ch '/') then
        some (method, target)
      else none

def requestSetTarget (request : Request) (method target : Bytes) : Request :=
  match stringvFindChar target (ch '?') with
  | none => { request with method := httpMethodParseView method, path := target }
  | some queryIndex =>
    { request with
      method := httpMethodParseView method
      path := stringvSlice target 0 queryIndex
      queryString := stringvFrom target (queryIndex + 1) }

def requestParseHeaders (request : Request) (raw : Bytes) (headerEnd : ℕ) :
    RequestParseResult × Request :=
  match stringvFind raw crlf with
  | none => (.incomplete, request)
  | some lineEnd =>
    match requestLine (stringvSlice raw 0 lineEnd) with
    | none => (.badRequest, request)
    | some (method, target) =>
      let request := requestSetTarget request method target
      if request.path.length = 0 then (.badRequest, request)
      else
        match requestParseHeaderLines raw headerEnd (lineEnd + 2) request with
        | (some result, request) => (result, request)
        | (none, request) => requestCheckFraming request

def requestParse (raw : Bytes) : RequestParseResult × Request :=
  match requestFindBytes raw headerTerminator with
  | none =>
    (if CEASY_MAX_HEADER_BYTES ≤ raw.length then .badRequest else .incomplete, {})
  | some headerEnd =>
    if CEASY_MAX_HEADER_BYTES < headerEnd + 4 then (.badRequest, {})
    else
      match requestParseHeaders {} raw headerEnd with
      | (.ok, request) =>
        if raw.length < headerEnd + 4 + request.contentLength then (.incomplete, request)
        else (.ok, { request with body := stringvSlice raw (headerEnd + 4) request.contentLength })
      | (result, request) => (result, request)

end Ceasy.RequestParse
