import Ceasy.RequestLines

set_option autoImplicit false

/-!
# The framing of a request

How long the body is, and whether there is one, is decided by the first header of
each name. Another header of the name is stored and not looked at.
-/
namespace Ceasy.RequestFraming
open StringView RequestParse RequestStability RequestLines Occurrence

def headerLines (raw : Bytes) : List Bytes :=
  match requestFindBytes raw headerTerminator with
  | none => []
  | some headerEnd => (crlfLines (raw.take headerEnd)).tail

def headerField (line : Bytes) : RequestHeader :=
  match stringvSplitOnceChar line (ch ':') with
  | none => ⟨stringvTrim line, []⟩
  | some (name, value) => ⟨stringvTrim name, stringvTrim value⟩

def Named (name : Bytes) (field : RequestHeader) : Prop :=
  stringvEqualIgnoreCase field.name name = true

instance (name : Bytes) (field : RequestHeader) : Decidable (Named name field) :=
  inferInstanceAs (Decidable (_ = true))

/-- One of the comma-separated tokens is `chunked`. -/
def ListsChunked (value : Bytes) : Prop :=
  ∃ token ∈ value.splitOn (ch ','), stringvEqualIgnoreCase (stringvTrim token) (sv "chunked") = true

/-- Every header that bears on the framing says what the framing is. -/
structure Framed (request : Request) : Prop where
  transfer : ∀ field ∈ request.headers, Named (sv "Transfer-Encoding") field →
    ¬ ListsChunked field.value
  length : ∀ field ∈ request.headers, Named (sv "Content-Length") field →
    stringvParseSize field.value = some request.contentLength
  body : request.contentLength = request.body.length

/-- The repeated headers of a name say nothing that the first one does not say. -/
structure RepeatsAgree (fields : List RequestHeader) : Prop where
  transfer : ∀ before first between field after,
    fields = before ++ first :: (between ++ field :: after) →
    Named (sv "Transfer-Encoding") first → Named (sv "Transfer-Encoding") field →
    ListsChunked field.value → ListsChunked first.value
  length : ∀ before first between field after,
    fields = before ++ first :: (between ++ field :: after) →
    Named (sv "Content-Length") first → Named (sv "Content-Length") field →
    stringvParseSize field.value = stringvParseSize first.value

theorem requestTransferIsChunked_iff (value : Bytes) :
    requestTransferIsChunked value = true ↔ ListsChunked value := by
  induction hlength : value.length using Nat.strong_induction_on generalizing value with
  | _ length ih =>
    rw [requestTransferIsChunked.eq_def]
    split
    · refine iff_of_false (by decide) ?_
      rintro ⟨token, htoken, hchunked⟩
      rw [List.splitOn_nil, List.mem_singleton] at htoken
      subst htoken
      exact absurd hchunked (by decide)
    · next c rest =>
      split
      · next hsplit =>
        rw [ListsChunked, List.splitOn_eq_singleton (stringvSplitOnceChar_none.mp hsplit)]
        simp
      · next token next hsplit =>
        obtain ⟨hvalue, htoken⟩ := stringvSplitOnceChar_some.mp hsplit
        have hshorter : next.length < length := by
          rw [← hlength, hvalue, List.length_append, List.length_cons]
          omega
        rw [Bool.or_eq_true, ih next.length hshorter next rfl, hvalue, ListsChunked, ListsChunked,
          List.splitOn_append_cons_self_of_not_mem htoken]
        simp

theorem requestHeaderLine_field {request next : Request} {line : Bytes}
    (h : requestHeaderLine request line = .ok next) :
    next = { request with headers := request.headers ++ [headerField line] } := by
  unfold requestHeaderLine at h
  unfold headerField
  split at h
  · cases h
  split at h
  · cases h
  cases hsplit : stringvSplitOnceChar line (ch ':') with
  | none =>
    rw [hsplit] at h
    cases h
  | some field =>
    rw [hsplit] at h
    dsimp only at h ⊢
    split at h
    · cases h
    · cases h
      rfl

theorem requestHeaderLine_break {request : Request} {line : Bytes}
    (h : requestHeaderLine request line = .error none) : line = [] := by
  unfold requestHeaderLine at h
  split at h
  · next hempty => exact List.length_eq_zero_iff.mp hempty
  split at h
  · cases h
  split at h
  · cases h
  split at h <;> cases h

theorem readLines_fields {request last : Request} {lines : List Bytes}
    (hlines : ∀ line ∈ lines, line ≠ []) (h : readLines request lines = (none, last)) :
    last = { request with headers := request.headers ++ lines.map headerField } := by
  induction lines generalizing request with
  | nil =>
    cases h
    rw [List.map_nil, List.append_nil]
  | cons line lines ih =>
    rw [readLines] at h
    split at h
    · next left hline =>
      cases h
      exact absurd (requestHeaderLine_break hline) (hlines line List.mem_cons_self)
    · next next hline =>
      have hlast := ih (fun other hother => hlines other (List.mem_cons_of_mem line hother)) h
      rw [hlast, requestHeaderLine_field hline, List.map_cons, List.append_assoc,
        List.singleton_append]

theorem crlf_at_start {value : Bytes} (h : (crlfLines value).head? = some []) :
    value = [] ∨ OccursAt crlf value 0 := by
  cases hfind : stringvFind value crlf with
  | none =>
    rw [crlfLines_none hfind] at h
    exact .inl (Option.some.inj h)
  | some lineEnd =>
    rw [crlfLines_some hfind, List.head?_cons, Option.some.injEq, List.take_eq_nil_iff] at h
    have hocc := ((stringvFind_some (by decide)).mp hfind).1
    rcases h with rfl | rfl
    · exact .inr hocc
    · exact .inl rfl

/-- A line end with nothing before the next one ends the head. -/
theorem terminator_at {before after : Bytes}
    (h : (crlfLines after).head? = some []) :
    OccursAt headerTerminator (before ++ (crlf ++ after) ++ headerTerminator) before.length := by
  rw [List.append_assoc, List.append_assoc, OccursAt, List.drop_left,
    show headerTerminator = crlf ++ crlf from rfl, List.prefix_append_right_inj]
  rcases crlf_at_start h with rfl | hcrlf
  · exact List.prefix_append _ _
  · exact (List.IsPrefix.trans hcrlf (List.prefix_append _ _))

/-- Below the first line no line of a head is empty: its end would be the terminator. -/
theorem headerLines_ne_nil {head : Bytes}
    (h : ∀ i < head.length, ¬ OccursAt headerTerminator (head ++ headerTerminator) i) :
    ∀ line ∈ (crlfLines head).tail, line ≠ [] := by
  induction hlength : head.length using Nat.strong_induction_on generalizing head with
  | _ length ih =>
    subst hlength
    cases hfind : stringvFind head crlf with
    | none =>
      rw [crlfLines_none hfind]
      exact fun line hline => absurd hline List.not_mem_nil
    | some lineEnd =>
      have hinside := crlf_inside hfind
      have hsplit := occursAt_split ((stringvFind_some (by decide)).mp hfind).1
      have hbefore : (head.take lineEnd).length = lineEnd := by
        rw [List.length_take]
        omega
      have hafter : ∀ i < (head.drop (lineEnd + 2)).length,
          ¬ OccursAt headerTerminator (head.drop (lineEnd + 2) ++ headerTerminator) i := by
        intro i hi hocc
        rw [List.length_drop] at hi
        apply h (lineEnd + 2 + i) (by omega)
        rwa [← occursAt_drop, List.drop_append_of_le_length hinside]
      rw [crlfLines_some hfind, List.tail_cons]
      intro line hline hempty
      cases hlines : crlfLines (head.drop (lineEnd + 2)) with
      | nil =>
        rw [hlines] at hline
        cases hline
      | cons first lines =>
        rw [hlines] at hline
        rcases List.mem_cons.mp hline with hfirst | hlater
        · have hocc := @terminator_at (head.take lineEnd) (head.drop (lineEnd + 2))
            (by rw [hlines, ← hfirst, hempty, List.head?_cons])
          rw [hbefore, show head.take lineEnd ++ (crlf ++ head.drop (lineEnd + 2)) = head from
            hsplit.symm] at hocc
          exact h lineEnd (by omega) hocc
        · have htail := ih _ (by rw [List.length_drop]; omega) hafter rfl
          rw [hlines, List.tail_cons] at htail
          exact htail line hlater hempty

/-- The first header of a name decides what a lookup of the name finds. -/
theorem requestHeader_first {request : Request} {name : Bytes} {field : RequestHeader}
    (hfield : field ∈ request.headers) (hnamed : Named name field) :
    ∃ before first after, request.headers = before ++ first :: after ∧ Named name first ∧
      (∀ other ∈ before, ¬ Named name other) ∧ requestHeader request name = first.value := by
  cases hfind : request.headers.find? fun header => stringvEqualIgnoreCase header.name name with
  | none => exact absurd hnamed (by simpa [Named] using List.find?_eq_none.mp hfind field hfield)
  | some first =>
    obtain ⟨hfirst, before, after, hheaders, hbefore⟩ := List.find?_eq_some_iff_append.mp hfind
    refine ⟨before, first, after, hheaders, hfirst, fun other hother => ?_, ?_⟩
    · simpa [Named] using hbefore other hother
    · rw [requestHeader, hfind]
      rfl

theorem first_or_later {name : Bytes} {fields before after : List RequestHeader}
    {first field : RequestHeader} (hfields : fields = before ++ first :: after)
    (hfield : field ∈ fields) (hbefore : ∀ other ∈ before, ¬ Named name other)
    (hnamed : Named name field) :
    field = first ∨ ∃ between rest, after = between ++ field :: rest := by
  rw [hfields, List.mem_append, List.mem_cons] at hfield
  rcases hfield with hearlier | rfl | hlater
  · exact absurd hnamed (hbefore field hearlier)
  · exact .inl rfl
  · exact .inr (List.append_of_mem hlater)

/-- What the checks behind the header loop have established when they accept. -/
theorem requestCheckFraming_ok {request last : Request}
    (h : requestCheckFraming request = (.ok, last)) :
    last = { request with
      contentType := requestHeader request (sv "Content-Type")
      contentLength := last.contentLength } ∧
    ¬ ListsChunked (requestHeader request (sv "Transfer-Encoding")) ∧
    (requestHasHeader request (sv "Content-Length") = true →
      stringvParseSize (requestHeader request (sv "Content-Length")) = some last.contentLength) := by
  unfold requestCheckFraming at h
  dsimp only at h
  split at h
  · cases h
  next hchunked =>
  rw [requestTransferIsChunked_iff] at hchunked
  split at h
  · split at h
    · cases h
    · next hsize =>
      split at h
      · cases h
      · cases h
        exact ⟨rfl, hchunked, fun _ => hsize⟩
  · next hhas =>
    cases h
    exact ⟨rfl, hchunked, fun hpresent => absurd hpresent hhas⟩

theorem requestHasHeader_of {request : Request} {name : Bytes} {field : RequestHeader}
    (hfield : field ∈ request.headers) (hnamed : Named name field) :
    requestHasHeader request name = true :=
  List.any_eq_true.mpr ⟨field, hfield, hnamed⟩

/-- An accepted request has the fields of its header lines and the checked framing. -/
theorem requestParse_fields {raw : Bytes} {request : Request}
    (h : requestParse raw = (.ok, request)) :
    request.headers = (headerLines raw).map headerField ∧
      ¬ ListsChunked (requestHeader request (sv "Transfer-Encoding")) ∧
      (requestHasHeader request (sv "Content-Length") = true →
        stringvParseSize (requestHeader request (sv "Content-Length")) =
          some request.contentLength) ∧
      request.contentLength = request.body.length := by
  obtain ⟨head, rest, rfl, hfirst, hlimit⟩ := requestParse_accepted h
  have htail : headerLines (head ++ (headerTerminator ++ rest)) = (crlfLines head).tail := by
    rw [headerLines, requestParse_found hfirst]
    dsimp only
    rw [List.take_left]
  have hnonempty : ∀ line ∈ (crlfLines head).tail, line ≠ [] := by
    refine headerLines_ne_nil fun i hi hocc => hfirst.2 i hi ?_
    rw [← List.append_assoc]
    refine occursAt_append hocc ?_ rest
    rw [List.length_append]
    omega
  cases hlines : crlfLines head with
  | nil =>
    rw [crlfLines] at hlines
    split at hlines <;> cases hlines
  | cons start lines =>
    rw [hlines, List.tail_cons] at hnonempty
    rw [htail, hlines, List.tail_cons]
    rw [requestParse_head hfirst hlines hlimit] at h
    obtain ⟨method, target, filled, checked, -, hread, hframing, hlength, rfl⟩ :=
      requestOfLines_ok h
    obtain ⟨hchecked, hchunked, hsize⟩ := requestCheckFraming_ok hframing
    have hfields : filled.headers = lines.map headerField := by
      rw [readLines_fields hnonempty hread]
      unfold requestSetTarget
      split <;> exact List.nil_append _
    have hheaders : checked.headers = filled.headers := by rw [hchecked]
    refine ⟨hheaders.trans hfields, ?_, ?_, ?_⟩
    · rwa [requestHeader, hheaders]
    · rw [requestHeader, requestHasHeader, hheaders]
      exact hsize
    · exact (List.length_take_of_le hlength).symm

/-- The framing of an accepted request is unambiguous exactly when the repeated headers
of its text agree with each other. -/
theorem requestParse_framed (raw : Bytes) (request : Request)
    (h : requestParse raw = (.ok, request)) :
    Framed request ↔ RepeatsAgree ((headerLines raw).map headerField) := by
  obtain ⟨hfields, hchunked, hsize, hbody⟩ := requestParse_fields h
  rw [← hfields]
  constructor
  · intro hframed
    constructor
    · intro before first between field after hheaders hfirst hfield hlists
      refine absurd hlists (hframed.transfer field ?_ hfield)
      simp [hheaders]
    · intro before first between field after hheaders hfirst hfield
      rw [hframed.length field (by simp [hheaders]) hfield,
        hframed.length first (by simp [hheaders]) hfirst]
  · intro hagree
    constructor
    · intro field hfield hnamed hlists
      obtain ⟨before, first, after, hheaders, hfirst, hbefore, hvalue⟩ :=
        requestHeader_first hfield hnamed
      rw [hvalue] at hchunked
      rcases first_or_later hheaders hfield hbefore hnamed with rfl | ⟨between, rest, rfl⟩
      · exact hchunked hlists
      · exact hchunked (hagree.transfer before first between field rest hheaders hfirst hnamed hlists)
    · intro field hfield hnamed
      obtain ⟨before, first, after, hheaders, hfirst, hbefore, hvalue⟩ :=
        requestHeader_first hfield hnamed
      have hparsed := hsize (requestHasHeader_of hfield hnamed)
      rw [hvalue] at hparsed
      rcases first_or_later hheaders hfield hbefore hnamed with rfl | ⟨between, rest, rfl⟩
      · exact hparsed
      · rw [hagree.length before first between field rest hheaders hfirst hnamed, hparsed]
    · exact hbody

def postedTitle : Bytes := sv "POST /posts HTTP/1.1\r\ncontent-length: 5\r\n\r\nHello"

theorem requestParse_framed_posted :
    Framed (requestParse postedTitle).2 ↔ RepeatsAgree ((headerLines postedTitle).map headerField) :=
  requestParse_framed postedTitle _ (Prod.ext (by decide +kernel) rfl)

/-- An encoding in two headers, of which the second is `chunked`. -/
def smuggledEncoding : Bytes :=
  sv "POST / HTTP/1.1\r\nTransfer-Encoding: gzip\r\nTransfer-Encoding: chunked\r\n\r\n"

def smuggledLength : Bytes :=
  sv "POST / HTTP/1.1\r\nContent-Length: 1\r\ncontent-length: 5\r\n\r\nx"

theorem requestParse_smuggled :
    (∃ request, requestParse smuggledEncoding = (.ok, request) ∧ ¬ Framed request) ∧
      ∃ request, requestParse smuggledLength = (.ok, request) ∧ ¬ Framed request := by
  constructor
  · refine ⟨{ method := .post, path := sv "/", headers :=
        [⟨sv "Transfer-Encoding", sv "gzip"⟩, ⟨sv "Transfer-Encoding", sv "chunked"⟩] }, ?_,
      fun hframed => ?_⟩
    · decide +kernel
    · refine hframed.transfer ⟨sv "Transfer-Encoding", sv "chunked"⟩ (by decide) (by decide) ?_
      exact (requestTransferIsChunked_iff _).mp (by decide +kernel)
  · refine ⟨{ method := .post, path := sv "/", body := sv "x", contentLength := 1, headers :=
        [⟨sv "Content-Length", sv "1"⟩, ⟨sv "content-length", sv "5"⟩] }, ?_, fun hframed => ?_⟩
    · decide +kernel
    · have hlength := hframed.length ⟨sv "content-length", sv "5"⟩ (by decide) (by decide)
      exact absurd hlength (by decide)

end Ceasy.RequestFraming
