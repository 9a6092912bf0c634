import Ceasy.RequestFraming
import Ceasy.IntegerParse

set_option autoImplicit false

/-!
# Writing a request and parsing it

A request is written as the request line, one line for each header, an empty line
and the body. What is parsed from the text is what was written, up to the order of
the checks, which a request within the limits passes.
-/
namespace Ceasy.RequestText
open StringView IntegerParse RequestParse RequestStability RequestLines RequestFraming Occurrence

def startLine (method target : Bytes) : Bytes :=
  method ++ ch ' ' :: (target ++ ch ' ' :: sv "HTTP/1.1")

def headerText (field : RequestHeader) : Bytes := field.name ++ ch ':' :: ch ' ' :: field.value

def requestHead (method target : Bytes) (headers : List RequestHeader) : Bytes :=
  startLine method target ++ crlf ++ (headers.flatMap (fun field => headerText field ++ crlf) ++ crlf)

def requestText (method target : Bytes) (headers : List RequestHeader) (body : Bytes) : Bytes :=
  requestHead method target headers ++ body

def NoLineEnd (value : Bytes) : Prop := 13 ∉ value ∧ 10 ∉ value

def DecimalValue (value : Bytes) (n : ℕ) : Prop :=
  value ≠ [] ∧ (∀ c ∈ value, ch '0' ≤ c ∧ c ≤ ch '9') ∧
    value.foldl (fun m c => 10 * m + (c.toNat - (ch '0').toNat)) 0 = n

/-- The length is given once, or it is zero. -/
def LengthGiven (headers : List RequestHeader) (body : Bytes) : Prop :=
  (∀ field ∈ headers, ¬ Named (sv "Content-Length") field) ∧ body = [] ∨
  ∃ before field after, headers = before ++ field :: after ∧ Named (sv "Content-Length") field ∧
    (∀ other ∈ before ++ after, ¬ Named (sv "Content-Length") other) ∧
    DecimalValue field.value body.length

/-- A request that can be written: the separators of the text do not occur where they
would be taken for themselves. -/
structure Writable (method target : Bytes) (headers : List RequestHeader) (body : Bytes) :
    Prop where
  plainMethod : ch ' ' ∉ method ∧ NoLineEnd method
  plainTarget : target.head? = some (ch '/') ∧ ch ' ' ∉ target ∧ NoLineEnd target
  count : headers.length ≤ CEASY_MAX_HEADERS
  plainName : ∀ field ∈ headers, field.name ≠ [] ∧ stringvTrim field.name = field.name ∧
    ch ':' ∉ field.name ∧ NoLineEnd field.name
  plainValue : ∀ field ∈ headers, stringvTrim field.value = field.value ∧ NoLineEnd field.value
  notChunked : ∀ field ∈ headers, Named (sv "Transfer-Encoding") field →
    ¬ ListsChunked field.value
  lengthGiven : LengthGiven headers body
  bodyLimit : body.length ≤ CEASY_MAX_REQUEST_BODY
  headLimit : (requestHead method target headers).length ≤ CEASY_MAX_HEADER_BYTES

theorem stringvFind_crlf_none {value : Bytes} (h : 13 ∉ value) : stringvFind value crlf = none := by
  rw [stringvFind_none (by decide)]
  intro i hocc
  apply h
  have hmem : (13 : UInt8) ∈ value.drop i := hocc.subset (by decide)
  exact List.mem_of_mem_drop hmem

/-- The lines with the end of each before it instead of behind it. -/
theorem line_ends_before (lines : List Bytes) :
    crlf ++ lines.flatMap (fun line => line ++ crlf) =
      lines.flatMap (fun line => crlf ++ line) ++ crlf := by
  induction lines with
  | nil => rfl
  | cons line lines ih =>
    rw [List.flatMap_cons, List.flatMap_cons, List.append_assoc, List.append_assoc, ← ih,
      List.append_assoc]

theorem crlfLines_joined {start : Bytes} {lines : List Bytes} (hstart : 13 ∉ start)
    (hlines : ∀ line ∈ lines, 13 ∉ line) :
    crlfLines (start ++ lines.flatMap (fun line => crlf ++ line)) = start :: lines := by
  induction lines generalizing start with
  | nil =>
    rw [List.flatMap_nil, List.append_nil, crlfLines_none (stringvFind_crlf_none hstart)]
  | cons line lines ih =>
    have hfind := crlf_behind (stringvFind_crlf_none hstart)
      (line ++ lines.flatMap fun line => crlf ++ line)
    rw [List.flatMap_cons, List.append_assoc, crlfLines_some hfind, List.take_left,
      ← List.drop_drop, List.drop_left]
    congr 1
    exact ih (hlines line List.mem_cons_self)
      fun other hother => hlines other (List.mem_cons_of_mem line hother)

/-- A line end inside a line would be one of its bytes. -/
theorem return_mem {start tail : Bytes} {i : ℕ} (hi : i < start.length)
    (h : OccursAt headerTerminator (start ++ tail) i) : 13 ∈ start := by
  have hget := List.prefix_iff_getElem?.mp h 0 (by decide)
  rw [List.getElem?_drop, Nat.add_zero, List.getElem?_append_left hi] at hget
  exact List.mem_of_getElem? hget

/-- The end of a line is not the terminator when another line follows. -/
theorem no_terminator_at_end {line tail : Bytes} (hne : line ≠ []) (hline : 13 ∉ line) {i : ℕ}
    (hi : i < 2) : ¬ OccursAt headerTerminator (crlf ++ (line ++ tail)) i := by
  obtain ⟨c, line, rfl⟩ := List.exists_cons_of_ne_nil hne
  have hc : c ≠ 13 := fun h => hline (h ▸ List.mem_cons_self)
  intro hocc
  have hget := List.prefix_iff_getElem?.mp hocc
  obtain rfl | rfl : i = 0 ∨ i = 1 := by omega
  · exact hc (Option.some.inj (hget 2 (by decide)))
  · have hfeed := hget 0 (by decide)
    cases hfeed

theorem terminator_first {start rest : Bytes} {lines : List Bytes} (hstart : 13 ∉ start)
    (hlines : ∀ line ∈ lines, line ≠ [] ∧ 13 ∉ line) :
    FirstAt headerTerminator
      (start ++ lines.flatMap (fun line => crlf ++ line) ++ (headerTerminator ++ rest))
      (start ++ lines.flatMap (fun line => crlf ++ line)).length := by
  refine ⟨occursAt_of_split _ _ _, ?_⟩
  induction lines generalizing start with
  | nil =>
    intro i hi hocc
    rw [List.flatMap_nil, List.append_nil] at hi hocc
    exact hstart (return_mem hi hocc)
  | cons line lines ih =>
    obtain ⟨hne, hline⟩ := hlines line List.mem_cons_self
    intro i hi hocc
    rw [List.flatMap_cons, List.append_assoc, List.append_assoc] at hocc
    by_cases hinside : i < start.length
    · exact hstart (return_mem hinside hocc)
    rw [List.flatMap_cons, List.length_append, List.length_append, List.length_append] at hi
    have hcrlf : crlf.length = 2 := rfl
    -- the first line ends here: another end does not follow, nor does it begin at the feed
    have hrest := (occursAt_drop _ _ start.length (i - start.length)).mpr
      ((Nat.add_sub_cancel' (Nat.le_of_not_lt hinside)).symm ▸ hocc)
    rw [List.drop_left] at hrest
    by_cases hend : i - start.length < 2
    · rw [List.append_assoc] at hrest
      exact no_terminator_at_end hne hline hend hrest
    · have hlater := ih hline (fun other hother => hlines other (List.mem_cons_of_mem line hother))
        (i - start.length - 2)
      rw [List.length_append] at hlater
      refine hlater (by omega) ?_
      rw [← Nat.add_sub_cancel' (Nat.le_of_not_lt hend), ← occursAt_drop, List.append_assoc]
        at hrest
      rw [List.append_assoc]
      exact hrest

theorem requestText_lines (method target : Bytes) (headers : List RequestHeader) (body : Bytes) :
    requestText method target headers body =
      startLine method target ++ (headers.map headerText).flatMap (fun line => crlf ++ line) ++
        (headerTerminator ++ body) := by
  have hlines : headers.flatMap (fun field => headerText field ++ crlf) =
      (headers.map headerText).flatMap fun line => line ++ crlf := by rw [List.flatMap_map]
  rw [requestText, requestHead, hlines, List.append_assoc, List.append_assoc, List.append_assoc,
    ← List.append_assoc crlf, line_ends_before, List.append_assoc, List.append_assoc]
  rfl

theorem stringvTrim_space (value : Bytes) : stringvTrim (ch ' ' :: value) = stringvTrim value := by
  rw [stringvTrim, stringvTrim, stringvTrimLeft, List.dropWhile_cons_of_pos (by decide),
    stringvTrimLeft]

theorem requestHeaderLine_text {request : Request} {field : RequestHeader}
    (hcount : request.headers.length < CEASY_MAX_HEADERS)
    (hname : field.name ≠ [] ∧ stringvTrim field.name = field.name ∧ ch ':' ∉ field.name)
    (hvalue : stringvTrim field.value = field.value) :
    requestHeaderLine request (headerText field) =
      .ok { request with headers := request.headers ++ [field] } := by
  obtain ⟨hne, htrim, hcolon⟩ := hname
  have hsplit : stringvSplitOnceChar (headerText field) (ch ':') =
      some (field.name, ch ' ' :: field.value) :=
    stringvSplitOnceChar_some.mpr ⟨rfl, hcolon⟩
  have hlength : (headerText field).length ≠ 0 := by
    rw [headerText, List.length_append, List.length_cons]
    omega
  rw [requestHeaderLine, if_neg hlength, if_neg (Nat.not_le.mpr hcount), hsplit]
  dsimp only
  rw [htrim, stringvTrim_space, hvalue, if_neg (by rwa [List.length_eq_zero_iff])]

theorem readLines_text {request : Request} {headers : List RequestHeader}
    (hcount : request.headers.length + headers.length ≤ CEASY_MAX_HEADERS)
    (hname : ∀ field ∈ headers, field.name ≠ [] ∧ stringvTrim field.name = field.name ∧
      ch ':' ∉ field.name)
    (hvalue : ∀ field ∈ headers, stringvTrim field.value = field.value) :
    readLines request (headers.map headerText) =
      (none, { request with headers := request.headers ++ headers }) := by
  induction headers generalizing request with
  | nil => rw [List.append_nil]; rfl
  | cons field headers ih =>
    rw [List.length_cons] at hcount
    rw [List.map_cons, readLines, requestHeaderLine_text (by omega) (hname field List.mem_cons_self)
      (hvalue field List.mem_cons_self)]
    dsimp only
    rw [ih (by rw [List.length_append, List.length_singleton]; omega)
      (fun other hother => hname other (List.mem_cons_of_mem field hother))
      (fun other hother => hvalue other (List.mem_cons_of_mem field hother)), List.append_assoc,
      List.singleton_append]

theorem requestLine_text {method target : Bytes} (hmethod : ch ' ' ∉ method)
    (htarget : target.head? = some (ch '/') ∧ ch ' ' ∉ target) :
    requestLine (startLine method target) = some (method, target) := by
  have hsplit : stringvSplitOnceChar (startLine method target) (ch ' ') =
      some (method, target ++ ch ' ' :: sv "HTTP/1.1") :=
    stringvSplitOnceChar_some.mpr ⟨rfl, hmethod⟩
  have hrest : stringvSplitOnceChar (target ++ ch ' ' :: sv "HTTP/1.1") (ch ' ') =
      some (target, sv "HTTP/1.1") :=
    stringvSplitOnceChar_some.mpr ⟨rfl, htarget.2⟩
  rw [requestLine, hsplit]
  dsimp only
  rw [hrest]
  dsimp only
  rw [if_pos (by rw [htarget.1]; decide)]

theorem DecimalValue.numeral {value : Bytes} {n : ℕ} (h : DecimalValue value n) :
    Numeral value n := by
  obtain ⟨hne, hascii, hvalue⟩ := h
  refine ⟨hne, hascii, ?_⟩
  rw [← BoundedDigits.value_zero, BoundedDigits.value, List.foldl_map]
  exact hvalue

theorem stringvParseSize_value {value : Bytes} {n : ℕ} (h : DecimalValue value n)
    (hfit : n ≤ SIZE_MAX) : stringvParseSize value = some n :=
  stringvParseSize_denotes.mpr ⟨h.numeral, hfit⟩

theorem requestHeader_absent {request : Request} {name : Bytes}
    (h : ∀ field ∈ request.headers, ¬ Named name field) :
    requestHeader request name = [] ∧ requestHasHeader request name = false := by
  constructor
  · have hfind : (request.headers.find? fun header =>
        stringvEqualIgnoreCase header.name name) = none :=
      List.find?_eq_none.mpr fun field hfield => by simpa [Named] using h field hfield
    rw [requestHeader, hfind]
    rfl
  · rw [requestHasHeader, List.any_eq_false]
    exact fun field hfield => by simpa [Named] using h field hfield

theorem framing_not_chunked {request : Request}
    (h : ∀ field ∈ request.headers, Named (sv "Transfer-Encoding") field →
      ¬ ListsChunked field.value) :
    requestTransferIsChunked (requestHeader request (sv "Transfer-Encoding")) = false := by
  rw [← Bool.not_eq_true, requestTransferIsChunked_iff]
  by_cases hpresent : ∃ field ∈ request.headers, Named (sv "Transfer-Encoding") field
  · obtain ⟨field, hfield, hnamed⟩ := hpresent
    obtain ⟨before, first, after, hheaders, hfirst, -, hvalue⟩ := requestHeader_first hfield hnamed
    rw [hvalue]
    exact h first (by simp [hheaders]) hfirst
  · have habsent : ∀ field ∈ request.headers, ¬ Named (sv "Transfer-Encoding") field :=
      fun field hfield hnamed => hpresent ⟨field, hfield, hnamed⟩
    rw [(requestHeader_absent habsent).1, ← requestTransferIsChunked_iff]
    decide +kernel

theorem requestHeader_single {request : Request} {name : Bytes} {field : RequestHeader}
    {before after : List RequestHeader} (hheaders : request.headers = before ++ field :: after)
    (hnamed : Named name field) (hothers : ∀ other ∈ before ++ after, ¬ Named name other) :
    requestHeader request name = field.value ∧ requestHasHeader request name = true := by
  have hmem : field ∈ request.headers := by simp [hheaders]
  have hfind : (request.headers.find? fun header =>
      stringvEqualIgnoreCase header.name name) = some field := by
    rw [List.find?_eq_some_iff_append]
    refine ⟨hnamed, before, after, hheaders, fun other hother => ?_⟩
    have hnot := hothers other (List.mem_append_left _ hother)
    simpa [Named] using hnot
  refine ⟨?_, requestHasHeader_of hmem hnamed⟩
  rw [requestHeader, hfind]
  rfl

theorem requestCheckFraming_text {request : Request} {body : Bytes}
    (hzero : request.contentLength = 0)
    (hchunked : ∀ field ∈ request.headers, Named (sv "Transfer-Encoding") field →
      ¬ ListsChunked field.value)
    (hgiven : LengthGiven request.headers body) (hlimit : body.length ≤ CEASY_MAX_REQUEST_BODY) :
    requestCheckFraming request = (.ok, { request with
      contentType := requestHeader request (sv "Content-Type")
      contentLength := body.length }) := by
  have hlookup : ∀ name, requestHeader { request with
      contentType := requestHeader request (sv "Content-Type") } name =
        requestHeader request name := fun name => rfl
  have hhas : ∀ name, requestHasHeader { request with
      contentType := requestHeader request (sv "Content-Type") } name =
        requestHasHeader request name := fun name => rfl
  unfold requestCheckFraming
  dsimp only
  rw [hlookup, hhas, hlookup, framing_not_chunked hchunked, if_neg (by decide)]
  rcases hgiven with ⟨habsent, rfl⟩ | ⟨before, field, after, hheaders, hnamed, hothers, hvalue⟩
  · rw [(requestHeader_absent habsent).2, if_neg (by decide), hzero]
    rfl
  · obtain ⟨hheader, hpresent⟩ := requestHeader_single hheaders hnamed hothers
    have hsize : CEASY_MAX_REQUEST_BODY ≤ SIZE_MAX := by decide
    rw [hpresent, if_pos rfl, hheader, stringvParseSize_value hvalue (Nat.le_trans hlimit hsize)]
    dsimp only
    rw [if_neg (Nat.not_lt.mpr hlimit)]

def methodName : HttpMethod → Option Bytes
  | .unknown => none
  | .get => some (sv "GET")
  | .post => some (sv "POST")
  | .patch => some (sv "PATCH")
  | .put => some (sv "PUT")
  | .delete => some (sv "DELETE")

theorem httpMethodParseView_iff {known : HttpMethod} {name : Bytes}
    (h : methodName known = some name) (method : Bytes) :
    httpMethodParseView method = known ↔ method = name := by
  constructor
  · intro hparse
    unfold httpMethodParseView stringvEqual at hparse
    split_ifs at hparse with hget hpost hpatch hput hdelete
    all_goals
      subst hparse
      cases h
    all_goals exact eq_of_beq ‹_›
  · rintro rfl
    cases known with
    | unknown => cases h
    | get | post | patch | put | delete =>
      cases h
      decide

theorem requestSetTarget_split (method target : Bytes) :
    requestSetTarget {} method target =
      { method := httpMethodParseView method
        path := target.takeWhile (· != ch '?')
        queryString := (target.dropWhile (· != ch '?')).drop 1 } := by
  rw [requestSetTarget]
  cases hfind : stringvFindChar target (ch '?') with
  | none =>
    have hplain : ∀ c ∈ target, (c != ch '?') = true := by
      intro c hc
      rw [bne_iff_ne]
      rintro rfl
      exact stringvFindChar_none.mp hfind hc
    rw [List.takeWhile_eq_self_iff.mpr hplain, List.dropWhile_eq_nil_iff.mpr hplain]
    rfl
  | some index =>
    obtain ⟨before, after, rfl, hbefore, rfl⟩ := stringvFindChar_some.mp hfind
    have hplain : ∀ c ∈ before, (c != ch '?') = true := by
      intro c hc
      rw [bne_iff_ne]
      rintro rfl
      exact hbefore hc
    have htake : (ch '?' :: after).takeWhile (· != ch '?') = [] := by simp
    have hdrop : (ch '?' :: after).dropWhile (· != ch '?') = ch '?' :: after := by simp
    dsimp only
    rw [stringvSlice, List.drop_zero, List.take_left, stringvFrom, ← List.drop_drop, List.drop_left,
      List.takeWhile_append_of_pos hplain, List.dropWhile_append_of_pos hplain, htake, hdrop,
      List.append_nil]

/-- What is parsed from the text of a request is the request. -/
theorem requestParse_text {method target body : Bytes} {headers : List RequestHeader}
    (h : Writable method target headers body) :
    ∃ request, requestParse (requestText method target headers body) = (.ok, request) ∧
      (∀ known name, methodName known = some name → (request.method = known ↔ method = name)) ∧
      request.path = target.takeWhile (· != ch '?') ∧
      request.queryString = (target.dropWhile (· != ch '?')).drop 1 ∧
      request.headers = headers ∧ request.body = body := by
  have hfeed : ∀ field ∈ headers, 13 ∉ headerText field := by
    intro field hfield
    rw [headerText, List.mem_append, List.mem_cons, List.mem_cons]
    obtain ⟨-, -, -, hname, -⟩ := h.plainName field hfield
    rintro (hin | hin | hin | hin)
    · exact hname hin
    · exact absurd hin (by decide)
    · exact absurd hin (by decide)
    · exact (h.plainValue field hfield).2.1 hin
  have hlines : ∀ line ∈ headers.map headerText, line ≠ [] ∧ 13 ∉ line := by
    intro line hline
    obtain ⟨field, hfield, rfl⟩ := List.mem_map.mp hline
    exact ⟨by simp [headerText], hfeed field hfield⟩
  have hstart : 13 ∉ startLine method target := by
    rw [startLine, List.mem_append, List.mem_cons, List.mem_append, List.mem_cons]
    rintro (hin | hin | hin | hin | hin)
    · exact h.plainMethod.2.1 hin
    · exact absurd hin (by decide)
    · exact h.plainTarget.2.2.1 hin
    · exact absurd hin (by decide)
    · exact absurd hin (by decide)
  have hlimit : (startLine method target ++
      (headers.map headerText).flatMap fun line => crlf ++ line).length + 4 ≤
        CEASY_MAX_HEADER_BYTES := by
    have hhead := requestText_lines method target headers []
    rw [requestText, List.append_nil, List.append_nil] at hhead
    have hlength := h.headLimit
    rw [hhead, List.length_append] at hlength
    exact hlength
  have hparse := requestParse_head (@terminator_first _ body _ hstart hlines)
    (crlfLines_joined hstart fun line hline => (hlines line hline).2) hlimit
  rw [← requestText_lines, requestOfLines, headOfLines,
    requestLine_text h.plainMethod.1 ⟨h.plainTarget.1, h.plainTarget.2.1⟩] at hparse
  dsimp only at hparse
  rw [requestSetTarget_split] at hparse
  have hpath : (target.takeWhile (· != ch '?')).length ≠ 0 := by
    obtain ⟨rest, rfl⟩ := List.head?_eq_some_iff.mp h.plainTarget.1
    rw [List.takeWhile_cons_of_pos (by decide)]
    exact Nat.succ_ne_zero _
  rw [if_neg hpath, readLines_text (by simpa using h.count)
    (fun field hfield => ⟨(h.plainName field hfield).1, (h.plainName field hfield).2.1,
      (h.plainName field hfield).2.2.1⟩) fun field hfield => (h.plainValue field hfield).1] at hparse
  dsimp only at hparse
  rw [@requestCheckFraming_text _ body rfl (by simpa using h.notChunked)
    (by simpa using h.lengthGiven) h.bodyLimit] at hparse
  dsimp only at hparse
  rw [if_neg (Nat.lt_irrefl _), List.take_length] at hparse
  exact ⟨_, hparse, fun known name hknown => httpMethodParseView_iff hknown method, rfl, rfl,
    List.nil_append _, rfl⟩

def postHeaders : List RequestHeader :=
  [⟨sv "Host", sv "localhost"⟩, ⟨sv "Content-Length", sv "6"⟩]

def postBody : Bytes := sv "a\r\n\r\nb"

theorem postWritable : Writable (sv "POST") (sv "/posts?draft=1") postHeaders postBody where
  plainMethod := ⟨by decide, by decide, by decide⟩
  plainTarget := ⟨by decide, by decide, by decide, by decide⟩
  count := by decide
  plainName := by
    unfold NoLineEnd
    decide
  plainValue := by
    unfold NoLineEnd
    decide
  notChunked := fun field hfield hnamed =>
    absurd hnamed ((show ∀ field ∈ postHeaders, ¬ Named (sv "Transfer-Encoding") field by decide)
      field hfield)
  lengthGiven := .inr ⟨[⟨sv "Host", sv "localhost"⟩], ⟨sv "Content-Length", sv "6"⟩, [], rfl,
    by decide, by decide, by decide, List.forall_mem_singleton.mpr (by decide), by decide⟩
  bodyLimit := by decide
  headLimit := by decide

theorem requestParse_text_post :
    ∃ request, requestParse (requestText (sv "POST") (sv "/posts?draft=1") postHeaders postBody) =
        (.ok, request) ∧
      (∀ known name, methodName known = some name →
        (request.method = known ↔ sv "POST" = name)) ∧
      request.path = (sv "/posts?draft=1").takeWhile (· != ch '?') ∧
      request.queryString = ((sv "/posts?draft=1").dropWhile (· != ch '?')).drop 1 ∧
      request.headers = postHeaders ∧ request.body = postBody :=
  requestParse_text postWritable

end Ceasy.RequestText
