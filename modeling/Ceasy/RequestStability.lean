import Ceasy.RequestParse

set_option autoImplicit false

/-!
# Request parsing under extension of the input

A verdict other than `incomplete` depends only on the bytes up to the end of the
header block and of the declared body, so more input does not change it. The
reader that calls the parser after every `recv` therefore does not see how the
stream was cut.
-/
namespace Ceasy.RequestStability
open StringView RequestParse Occurrence

theorem requestFindBytes_eq {bytes : Bytes} (h : bytes ≠ []) (value : Bytes) :
    requestFindBytes value bytes = stringvFind value bytes := by
  have hpos := List.length_pos_iff.mpr h
  have hz : bytes.length ≠ 0 := by omega
  simp only [requestFindBytes, stringvFind, hz, false_or, if_false]

theorem crlf_of_terminator {raw : Bytes} {headerEnd : ℕ}
    (h : OccursAt headerTerminator raw headerEnd) : OccursAt crlf raw headerEnd :=
  List.IsPrefix.trans (by decide) h

theorem slice_append {value tail : Bytes} {start length : ℕ} (h : start + length ≤ value.length) :
    stringvSlice (value ++ tail) start length = stringvSlice value start length := by
  unfold stringvSlice
  rw [List.drop_append_of_le_length (by omega), List.take_append_of_le_length]
  rw [List.length_drop]
  omega

/-- Inside the header block every line ends at or before the terminator. -/
theorem line_found {raw : Bytes} {headerEnd cursor : ℕ}
    (h : OccursAt headerTerminator raw headerEnd) (hc : cursor ≤ headerEnd) :
    ∃ relativeEnd, stringvFind (stringvFrom raw cursor) crlf = some relativeEnd ∧
      cursor + relativeEnd ≤ headerEnd := by
  have hocc : OccursAt crlf (raw.drop cursor) (headerEnd - cursor) := by
    rw [occursAt_drop, Nat.add_sub_cancel' hc]
    exact crlf_of_terminator h
  obtain ⟨j, hj, hfirst⟩ := firstAt_exists hocc
  exact ⟨j, (stringvFind_some (by decide)).mpr hfirst, by omega⟩

theorem requestParseHeaderLines_step {raw : Bytes} {headerEnd cursor : ℕ}
    (h : OccursAt headerTerminator raw headerEnd) (hc : cursor < headerEnd) (request : Request) :
    ∃ relativeEnd, cursor + relativeEnd ≤ headerEnd ∧ ∀ tail,
      requestParseHeaderLines (raw ++ tail) headerEnd cursor request =
        match requestHeaderLine request (stringvSlice (stringvFrom raw cursor) 0 relativeEnd) with
        | .error left => (left, request)
        | .ok request =>
          requestParseHeaderLines (raw ++ tail) headerEnd (cursor + relativeEnd + 2) request := by
  have hbound := occursAt_bound h (by decide)
  have hlen : headerTerminator.length = 4 := rfl
  obtain ⟨relativeEnd, hfind, hend⟩ := line_found h hc.le
  refine ⟨relativeEnd, hend, fun tail => ?_⟩
  have hdrop : stringvFrom (raw ++ tail) cursor = stringvFrom raw cursor ++ tail :=
    List.drop_append_of_le_length (by omega)
  have hne : stringvFrom raw cursor ++ tail ≠ [] := by
    refine List.append_ne_nil_of_left_ne_nil ?_ tail
    rw [stringvFrom, ne_eq, List.drop_eq_nil_iff]
    omega
  have hfind' := stringvFind_append (by decide) hfind tail
  have hline : stringvSlice (stringvFrom raw cursor ++ tail) 0 relativeEnd =
      stringvSlice (stringvFrom raw cursor) 0 relativeEnd :=
    slice_append (by rw [stringvFrom, List.length_drop]; omega)
  rw [requestParseHeaderLines, hdrop, dif_pos ⟨hne, hc⟩, hfind']
  dsimp only
  rw [if_neg (by omega)]
  cases hrequest : requestHeaderLine request (stringvSlice (stringvFrom raw cursor) 0 relativeEnd) <;>
    simp only [hline, hrequest]

theorem requestParseHeaderLines_append {raw : Bytes} {headerEnd : ℕ}
    (h : OccursAt headerTerminator raw headerEnd) (tail : Bytes) (cursor : ℕ) (request : Request) :
    requestParseHeaderLines (raw ++ tail) headerEnd cursor request =
      requestParseHeaderLines raw headerEnd cursor request := by
  induction hm : headerEnd - cursor using Nat.strongRecOn generalizing cursor request with
  | _ m ih =>
    by_cases hc : cursor < headerEnd
    · obtain ⟨relativeEnd, -, hstep⟩ := requestParseHeaderLines_step h hc request
      have hnil := hstep []
      rw [List.append_nil] at hnil
      rw [hstep tail, hnil]
      split
      · rfl
      · exact ih _ (by omega) _ _ rfl
    · rw [requestParseHeaderLines, requestParseHeaderLines, dif_neg (fun hl => hc hl.2),
        dif_neg (fun hl => hc hl.2)]

theorem requestParseHeaders_append {raw : Bytes} {headerEnd : ℕ}
    (h : OccursAt headerTerminator raw headerEnd) (tail : Bytes) (request : Request) :
    requestParseHeaders request (raw ++ tail) headerEnd =
      requestParseHeaders request raw headerEnd := by
  have hbound := occursAt_bound h (by decide)
  have hlen : headerTerminator.length = 4 := rfl
  obtain ⟨lineEnd, hfind, hend⟩ := line_found h (Nat.zero_le headerEnd)
  rw [stringvFrom, List.drop_zero] at hfind
  have hline : stringvSlice (raw ++ tail) 0 lineEnd = stringvSlice raw 0 lineEnd :=
    slice_append (by omega)
  simp only [requestParseHeaders, hfind, stringvFind_append (by decide) hfind tail, hline,
    requestParseHeaderLines_append h tail]

theorem requestHeaderLine_left {request : Request} {line : Bytes} {left : RequestParseResult}
    (h : requestHeaderLine request line = .error (some left)) : left = .badRequest := by
  unfold requestHeaderLine at h
  split at h
  · cases h
  split at h
  · cases h
    rfl
  split at h
  · cases h
    rfl
  split at h
  · cases h
    rfl
  · cases h

theorem requestParseHeaderLines_left {raw : Bytes} {headerEnd cursor : ℕ}
    (h : OccursAt headerTerminator raw headerEnd) {request last : Request}
    {left : RequestParseResult}
    (hleft : requestParseHeaderLines raw headerEnd cursor request = (some left, last)) :
    left = .badRequest := by
  induction hm : headerEnd - cursor using Nat.strongRecOn generalizing cursor request with
  | _ m ih =>
    by_cases hc : cursor < headerEnd
    · obtain ⟨relativeEnd, -, hstep⟩ := requestParseHeaderLines_step h hc request
      have hnil := hstep []
      rw [List.append_nil, hleft] at hnil
      split at hnil
      · rename_i out hline
        cases hnil
        exact requestHeaderLine_left hline
      · exact ih _ (by omega) hnil.symm rfl
    · rw [requestParseHeaderLines, dif_neg (fun hl => hc hl.2)] at hleft
      cases hleft

theorem requestCheckFraming_not_incomplete (request : Request) :
    (requestCheckFraming request).1 ≠ .incomplete := by
  unfold requestCheckFraming
  dsimp only
  split
  · simp
  split
  · split
    · simp
    · split <;> simp
  · simp

theorem requestParseHeaders_not_incomplete {raw : Bytes} {headerEnd : ℕ}
    (h : OccursAt headerTerminator raw headerEnd) (request : Request) :
    (requestParseHeaders request raw headerEnd).1 ≠ .incomplete := by
  obtain ⟨lineEnd, hfind, hend⟩ := line_found h (Nat.zero_le headerEnd)
  rw [stringvFrom, List.drop_zero] at hfind
  rw [requestParseHeaders, hfind]
  dsimp only
  split
  · simp
  split
  · simp
  split
  · rename_i hlines
    rw [requestParseHeaderLines_left h hlines]
    simp
  · exact requestCheckFraming_not_incomplete _

theorem requestParse_found {raw : Bytes} {headerEnd : ℕ}
    (h : FirstAt headerTerminator raw headerEnd) :
    requestFindBytes raw headerTerminator = some headerEnd := by
  rw [requestFindBytes_eq (by decide), stringvFind_some (by decide)]
  exact h

theorem requestParse_missing {raw : Bytes} :
    requestFindBytes raw headerTerminator = none ↔ ∀ i, ¬ OccursAt headerTerminator raw i := by
  rw [requestFindBytes_eq (by decide), stringvFind_none (by decide)]

theorem requestParse_oversized {raw : Bytes}
    (hmiss : ∀ i, ¬ OccursAt headerTerminator raw i) (hlen : CEASY_MAX_HEADER_BYTES ≤ raw.length)
    (tail : Bytes) : requestParse (raw ++ tail) = (.badRequest, {}) := by
  cases hf : requestFindBytes (raw ++ tail) headerTerminator with
  | none =>
    rw [requestParse, hf]
    dsimp only
    rw [if_pos (by rw [List.length_append]; omega)]
  | some headerEnd =>
    have hfirst : FirstAt headerTerminator (raw ++ tail) headerEnd := by
      rwa [requestFindBytes_eq (by decide), stringvFind_some (by decide)] at hf
    have hpast : raw.length < headerEnd + 4 := by
      by_contra hin
      exact hmiss headerEnd (occursAt_of_append hfirst.1 (by change headerEnd + 4 ≤ _; omega))
    rw [requestParse, hf]
    dsimp only
    rw [if_pos (by omega)]

theorem requestParse_append {raw : Bytes} (h : (requestParse raw).1 ≠ .incomplete)
    (tail : Bytes) : requestParse (raw ++ tail) = requestParse raw := by
  cases hf : requestFindBytes raw headerTerminator with
  | none =>
    have hlen : CEASY_MAX_HEADER_BYTES ≤ raw.length := by
      by_contra hlt
      rw [requestParse, hf] at h
      dsimp only at h
      rw [if_neg hlt] at h
      exact h rfl
    have hmiss := requestParse_missing.mp hf
    have hnil := requestParse_oversized hmiss hlen []
    rw [List.append_nil] at hnil
    rw [hnil, requestParse_oversized hmiss hlen tail]
  | some headerEnd =>
    have hfirst : FirstAt headerTerminator raw headerEnd := by
      rwa [requestFindBytes_eq (by decide), stringvFind_some (by decide)] at hf
    have hf' := requestParse_found (firstAt_append hfirst (by decide) tail)
    have hbound := occursAt_bound hfirst.1 (by decide)
    have hfour : headerTerminator.length = 4 := rfl
    rw [requestParse, hf] at h
    rw [requestParse, requestParse, hf, hf']
    dsimp only at h ⊢
    rw [requestParseHeaders_append hfirst.1]
    split
    · rfl
    rename_i hlimit
    rw [if_neg hlimit] at h
    split
    · rename_i request hheaders
      rw [hheaders] at h
      dsimp only at h
      -- the body is complete in the shorter input, hence in the longer one
      have hbody : ¬ raw.length < headerEnd + 4 + request.contentLength := by
        intro hlt
        rw [if_pos hlt] at h
        exact h rfl
      rw [if_neg hbody, if_neg (by rw [List.length_append]; omega), slice_append (by omega)]
    · rfl

theorem requestParse_prefix {p q : Bytes} (h : (requestParse p).1 ≠ .incomplete) (hpq : p <+: q) :
    requestParse q = requestParse p := by
  obtain ⟨tail, rfl⟩ := hpq
  exact requestParse_append h tail

theorem requestHeaderLine_length {request next : Request} {line : Bytes}
    (h : requestHeaderLine request line = .ok next) :
    next.contentLength = request.contentLength := by
  unfold requestHeaderLine at h
  split at h
  · cases h
  split at h
  · cases h
  split at h
  · cases h
  split at h
  · cases h
  · cases h
    rfl

theorem requestParseHeaderLines_length {raw : Bytes} {headerEnd : ℕ}
    (h : OccursAt headerTerminator raw headerEnd) (cursor : ℕ) (request : Request) :
    (requestParseHeaderLines raw headerEnd cursor request).2.contentLength =
      request.contentLength := by
  induction hm : headerEnd - cursor using Nat.strongRecOn generalizing cursor request with
  | _ m ih =>
    by_cases hc : cursor < headerEnd
    · obtain ⟨relativeEnd, -, hstep⟩ := requestParseHeaderLines_step h hc request
      have hnil := hstep []
      rw [List.append_nil] at hnil
      rw [hnil]
      split
      · rfl
      · rename_i next hline
        rw [ih _ (by omega) _ _ rfl, requestHeaderLine_length hline]
    · rw [requestParseHeaderLines, dif_neg (fun hl => hc hl.2)]

theorem requestCheckFraming_length {request : Request} (hz : request.contentLength = 0)
    (h : (requestCheckFraming request).1 = .ok) :
    (requestCheckFraming request).2.contentLength ≤ CEASY_MAX_REQUEST_BODY := by
  unfold requestCheckFraming at h ⊢
  dsimp only at h ⊢
  split at h
  · cases h
  rename_i hchunked
  rw [if_neg hchunked]
  split at h
  · rename_i hhas
    rw [if_pos hhas]
    split at h
    · cases h
    · rename_i hsize
      split at h
      · cases h
      · rename_i hmax
        rw [if_neg hmax]
        exact Nat.le_of_not_lt hmax
  · rename_i hhas
    rw [if_neg hhas, hz]
    exact Nat.zero_le _

theorem requestSetTarget_length (request : Request) (method target : Bytes) :
    (requestSetTarget request method target).contentLength = request.contentLength := by
  unfold requestSetTarget
  split <;> rfl

theorem requestParseHeaders_length {raw : Bytes} {headerEnd : ℕ}
    (h : OccursAt headerTerminator raw headerEnd) {request : Request}
    (hok : requestParseHeaders {} raw headerEnd = (.ok, request)) :
    request.contentLength ≤ CEASY_MAX_REQUEST_BODY := by
  unfold requestParseHeaders at hok
  split at hok
  · cases hok
  rename_i lineEnd _
  split at hok
  · cases hok
  rename_i method target _
  dsimp only at hok
  split at hok
  · cases hok
  split at hok
  · rename_i hlines
    cases hok
    cases requestParseHeaderLines_left h hlines
  · rename_i filled hlines
    have hz : filled.contentLength = 0 := by
      have hl := requestParseHeaderLines_length h (lineEnd + 2) (requestSetTarget {} method target)
      rw [hlines, requestSetTarget_length] at hl
      exact hl
    have hb := requestCheckFraming_length hz (by rw [hok])
    rw [hok] at hb
    exact hb

theorem requestParse_full {raw : Bytes}
    (h : CEASY_MAX_HEADER_BYTES + CEASY_MAX_REQUEST_BODY ≤ raw.length) :
    (requestParse raw).1 ≠ .incomplete := by
  cases hf : requestFindBytes raw headerTerminator with
  | none =>
    rw [requestParse, hf]
    dsimp only
    rw [if_pos (by omega)]
    simp
  | some headerEnd =>
    have hfirst : FirstAt headerTerminator raw headerEnd := by
      rwa [requestFindBytes_eq (by decide), stringvFind_some (by decide)] at hf
    rw [requestParse, hf]
    dsimp only
    split
    · simp
    split
    · rename_i request hheaders
      have hlen := requestParseHeaders_length hfirst.1 hheaders
      rw [if_neg (by omega)]
      simp
    · rename_i result request hresult hheaders
      intro hinc
      have hne := requestParseHeaders_not_incomplete hfirst.1 {}
      rw [hheaders] at hne
      exact hne hinc

/-- How `ceasy_read_request` leaves its receive loop. -/
inductive ReadOutcome where
  | returned (result : RequestParseResult) (request : Request)
  | bufferFull (request : Request)

/-- The bytes the client sends before it closes, and how much each `recv` asks
    of them: call `n` delivers `chunk n + 1` bytes, or as many as fit or are left.
    A `recv` that fails ends the stream like a close. -/
def ceasyReadLoop (stream : Bytes) (chunk : ℕ → ℕ) (call received : ℕ) (request : Request) :
    ReadOutcome :=
  if _hroom : received < CEASY_MAX_HEADER_BYTES + CEASY_MAX_REQUEST_BODY then
    let result := min (chunk call + 1) (min (CEASY_MAX_HEADER_BYTES + CEASY_MAX_REQUEST_BODY -
      received) (stream.length - received))
    if _hclosed : result = 0 then .returned .badRequest request
    else
      match requestParse (stream.take (received + result)) with
      | (.incomplete, request) => ceasyReadLoop stream chunk (call + 1) (received + result) request
      | (parsed, request) => .returned parsed request
  else .bufferFull request
termination_by CEASY_MAX_HEADER_BYTES + CEASY_MAX_REQUEST_BODY - received

def ceasyReadRequest (stream : Bytes) (chunk : ℕ → ℕ) : RequestParseResult × Request :=
  match ceasyReadLoop stream chunk 0 0 {} with
  | .returned result request => (result, request)
  | .bufferFull request => (.payloadTooLarge, request)

def readCapacity : ℕ := CEASY_MAX_HEADER_BYTES + CEASY_MAX_REQUEST_BODY

/-- The answer as a function of the stream alone. -/
def readAnswer (stream : Bytes) : RequestParseResult × Request :=
  if stream = [] then (.badRequest, {})
  else
    match requestParse (stream.take readCapacity) with
    | (.incomplete, request) => (.badRequest, request)
    | answer => answer

/-- What the loop knows before each `recv`: the bytes so far were not enough. -/
def ReadSoFar (stream : Bytes) (received : ℕ) (request : Request) : Prop :=
  received ≤ stream.length ∧ received ≤ readCapacity ∧
    (received = 0 ∧ request = {} ∨
      0 < received ∧ requestParse (stream.take received) = (.incomplete, request))

theorem readAnswer_of_parsed {stream : Bytes} {received : ℕ} (hpos : 0 < received)
    (hlen : received ≤ stream.length) (hcap : received ≤ readCapacity)
    (h : (requestParse (stream.take received)).1 ≠ .incomplete) :
    readAnswer stream = requestParse (stream.take received) := by
  have hne : stream ≠ [] := List.ne_nil_of_length_pos (by omega)
  have hpre : stream.take received <+: stream.take readCapacity :=
    List.take_prefix_take_left hcap
  rw [readAnswer, if_neg hne, requestParse_prefix h hpre]
  split
  · rename_i hinc
    rw [hinc] at h
    exact absurd rfl h
  · rfl

theorem readAnswer_of_closed {stream : Bytes} {request : Request}
    (h : ReadSoFar stream stream.length request) : readAnswer stream = (.badRequest, request) := by
  obtain ⟨-, hcap, hsofar⟩ := h
  rw [readAnswer, List.take_of_length_le hcap]
  rcases hsofar with ⟨hz, rfl⟩ | ⟨hpos, hparse⟩
  · rw [if_pos (List.length_eq_zero_iff.mp hz)]
  · rw [List.take_length] at hparse
    rw [if_neg (List.ne_nil_of_length_pos hpos), hparse]

/-- Whatever the chunks are, the loop returns the answer of the stream and is
    never left with a full buffer. -/
theorem ceasyReadLoop_answer (stream : Bytes) (chunk : ℕ → ℕ) (call received : ℕ)
    (request : Request) (h : ReadSoFar stream received request) :
    ceasyReadLoop stream chunk call received request =
      .returned (readAnswer stream).1 (readAnswer stream).2 := by
  induction hm : readCapacity - received using Nat.strongRecOn generalizing call received request
    with
  | _ m ih =>
    obtain ⟨hlen, hcap, hsofar⟩ := h
    rw [ceasyReadLoop]
    by_cases hroom : received < CEASY_MAX_HEADER_BYTES + CEASY_MAX_REQUEST_BODY
    · rw [dif_pos hroom]
      dsimp only
      generalize hres : min (chunk call + 1) (min (CEASY_MAX_HEADER_BYTES +
        CEASY_MAX_REQUEST_BODY - received) (stream.length - received)) = result
      by_cases hclosed : result = 0
      · have heq : received = stream.length := by omega
        rw [dif_pos hclosed]
        subst heq
        rw [readAnswer_of_closed ⟨hlen, hcap, hsofar⟩]
      · rw [dif_neg hclosed]
        have hlen' : received + result ≤ stream.length := by omega
        have hcap' : received + result ≤ readCapacity := by unfold readCapacity; omega
        split
        · rename_i next hparse
          exact ih _ (by omega) _ _ _ ⟨hlen', hcap', .inr ⟨by omega, hparse⟩⟩ rfl
        · rename_i parsed next hdone hparse
          rw [readAnswer_of_parsed (by omega) hlen' hcap' (by rw [hparse]; exact hdone), hparse]
    · -- the buffer is full, and a full buffer is never incomplete
      have heq : received = readCapacity := by unfold readCapacity at hcap ⊢; omega
      rcases hsofar with ⟨hz, -⟩ | ⟨-, hparse⟩
      · exact absurd hroom (by rw [hz]; decide)
      · have hfull := @requestParse_full (stream.take received)
          (by rw [List.length_take]; unfold readCapacity at heq; omega)
        rw [hparse] at hfull
        exact absurd rfl hfull

/-- Parsing is stable under extension, and so the reader's answer does not
    depend on how the stream is cut and its buffer never fills up undecided. -/
theorem requestParse_stable :
    (∀ p q : Bytes, p <+: q → (requestParse p).1 ≠ .incomplete →
      requestParse q = requestParse p) ∧
    (∀ (stream : Bytes) (chunk chunk' : ℕ → ℕ),
      ceasyReadRequest stream chunk = ceasyReadRequest stream chunk') ∧
    (∀ (stream : Bytes) (chunk : ℕ → ℕ) (request : Request),
      ceasyReadLoop stream chunk 0 0 {} ≠ .bufferFull request) := by
  have hstart : ∀ stream, ReadSoFar stream 0 {} := fun stream =>
    ⟨Nat.zero_le _, Nat.zero_le _, .inl ⟨rfl, rfl⟩⟩
  refine ⟨fun p q hpq h => requestParse_prefix h hpq, fun stream chunk chunk' => ?_,
    fun stream chunk request hfull => ?_⟩
  · rw [ceasyReadRequest, ceasyReadRequest, ceasyReadLoop_answer stream chunk 0 0 {} (hstart stream),
      ceasyReadLoop_answer stream chunk' 0 0 {} (hstart stream)]
  · rw [ceasyReadLoop_answer stream chunk 0 0 {} (hstart stream)] at hfull
    cases hfull

end Ceasy.RequestStability
