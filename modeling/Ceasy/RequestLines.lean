import Ceasy.RequestStability

set_option autoImplicit false

/-!
# A request as lines

The parser walks over the received bytes with offsets. Here its answer is given by
the lines of the header block: the first is the request line, the others are read in
order, and the body is cut from what follows the empty line.
-/
namespace Ceasy.RequestLines
open StringView RequestParse RequestStability Occurrence

/-- The lines of a text, with the end of each cut off. -/
def crlfLines (value : Bytes) : List Bytes :=
  match _h : stringvFind value crlf with
  | none => [value]
  | some lineEnd => value.take lineEnd :: crlfLines (value.drop (lineEnd + 2))
termination_by value.length
decreasing_by
  have hbound := occursAt_bound ((stringvFind_some (by decide)).mp _h).1 (by decide)
  have hlength : crlf.length = 2 := rfl
  rw [List.length_drop]
  omega

theorem crlfLines_none {value : Bytes} (h : stringvFind value crlf = none) :
    crlfLines value = [value] := by
  rw [crlfLines]
  split
  · rfl
  · next hsome => rw [h] at hsome; cases hsome

theorem crlfLines_some {value : Bytes} {lineEnd : ℕ} (h : stringvFind value crlf = some lineEnd) :
    crlfLines value = value.take lineEnd :: crlfLines (value.drop (lineEnd + 2)) := by
  rw [crlfLines]
  split
  · next hnone => rw [h] at hnone; cases hnone
  · next hsome =>
    rw [h] at hsome
    cases hsome
    rfl

def readLines (request : Request) : List Bytes → Option RequestParseResult × Request
  | [] => (none, request)
  | line :: lines =>
    match requestHeaderLine request line with
    | .error left => (left, request)
    | .ok request => readLines request lines

def headOfLines (start : Bytes) (lines : List Bytes) : RequestParseResult × Request :=
  match requestLine start with
  | none => (.badRequest, {})
  | some (method, target) =>
    let request := requestSetTarget {} method target
    if request.path.length = 0 then (.badRequest, request)
    else
      match readLines request lines with
      | (some result, request) => (result, request)
      | (none, request) => requestCheckFraming request

/-- The answer to a head of these lines with these bytes behind it. -/
def requestOfLines (start : Bytes) (lines : List Bytes) (rest : Bytes) :
    RequestParseResult × Request :=
  match headOfLines start lines with
  | (.ok, request) =>
    if rest.length < request.contentLength then (.incomplete, request)
    else (.ok, { request with body := rest.take request.contentLength })
  | (result, request) => (result, request)

theorem crlfLines_nil : crlfLines [] = [[]] := crlfLines_none rfl

/-- A line end behind a text that has none is the first one. -/
theorem crlf_behind {value : Bytes} (h : stringvFind value crlf = none) (tail : Bytes) :
    stringvFind (value ++ (crlf ++ tail)) crlf = some value.length := by
  have habsent := (stringvFind_none (by decide)).mp h
  have hlength : crlf.length = 2 := rfl
  rw [stringvFind_some (by decide)]
  refine ⟨occursAt_of_split value crlf tail, fun j hj hocc => ?_⟩
  by_cases hinside : j + crlf.length ≤ value.length
  · exact habsent j (occursAt_of_append hocc hinside)
  · -- the text ends in a return, which a feed would have to follow
    have hlast : j + 1 = value.length := by omega
    have hfeed : (value ++ (crlf ++ tail))[j + 1]? = some 10 := by
      have hget := List.prefix_iff_getElem?.mp hocc 1 (by decide)
      rwa [List.getElem?_drop] at hget
    rw [hlast, List.getElem?_append_right (Nat.le_refl _), Nat.sub_self] at hfeed
    cases hfeed

theorem crlf_inside {value : Bytes} {lineEnd : ℕ} (h : stringvFind value crlf = some lineEnd) :
    lineEnd + 2 ≤ value.length :=
  occursAt_bound ((stringvFind_some (by decide)).mp h).1 (by decide)

theorem requestParseHeaderLines_head (head rest : Bytes) (cursor : ℕ) (request : Request)
    (hcursor : cursor ≤ head.length) :
    requestParseHeaderLines (head ++ (headerTerminator ++ rest)) head.length cursor request =
      readLines request (crlfLines (head.drop cursor)) := by
  induction hleft : head.length - cursor using Nat.strongRecOn generalizing cursor request with
  | _ left ih =>
    rw [requestParseHeaderLines]
    by_cases hend : cursor = head.length
    · rw [dif_neg (by omega), hend, List.drop_length, crlfLines_nil]
      rfl
    have hfrom : stringvFrom (head ++ (headerTerminator ++ rest)) cursor =
        head.drop cursor ++ (headerTerminator ++ rest) :=
      List.drop_append_of_le_length hcursor
    have hlength : (head.drop cursor).length = head.length - cursor := List.length_drop
    have hne : head.drop cursor ++ (headerTerminator ++ rest) ≠ [] := by
      intro hnil
      have hempty := congrArg List.length hnil
      rw [List.length_append, hlength, List.length_nil] at hempty
      omega
    rw [hfrom, dif_pos ⟨hne, by omega⟩]
    cases hfind : stringvFind (head.drop cursor) crlf with
    | none =>
      have hline : stringvFind (head.drop cursor ++ (headerTerminator ++ rest)) crlf =
          some (head.length - cursor) := by
        rw [← hlength]
        exact crlf_behind hfind (crlf ++ rest)
      have hslice : stringvSlice (head.drop cursor ++ (headerTerminator ++ rest)) 0
          (head.length - cursor) = head.drop cursor := by
        rw [stringvSlice, List.drop_zero, ← hlength, List.take_left]
      rw [hline, crlfLines_none hfind]
      dsimp only
      rw [if_neg (by omega), hslice, readLines]
      cases hread : requestHeaderLine request (head.drop cursor) with
      | error left => rfl
      | ok next =>
        dsimp only
        rw [requestParseHeaderLines, dif_neg (by omega)]
        rfl
    | some lineEnd =>
      have hinside := crlf_inside hfind
      rw [stringvFind_append (by decide) hfind, crlfLines_some hfind]
      dsimp only
      have hslice : stringvSlice (head.drop cursor ++ (headerTerminator ++ rest)) 0 lineEnd =
          (head.drop cursor).take lineEnd := by
        rw [slice_append (by omega), stringvSlice, List.drop_zero]
      rw [if_neg (by omega), hslice, readLines]
      cases hread : requestHeaderLine request ((head.drop cursor).take lineEnd) with
      | error left => rfl
      | ok next =>
        dsimp only
        rw [ih _ (by omega) (cursor + lineEnd + 2) next (by omega) rfl, List.drop_drop,
          Nat.add_assoc]

theorem requestParseHeaders_head {head start : Bytes} {lines : List Bytes}
    (hlines : crlfLines head = start :: lines) (rest : Bytes) :
    requestParseHeaders {} (head ++ (headerTerminator ++ rest)) head.length =
      headOfLines start lines := by
  have hloop : ∃ lineEnd, stringvFind (head ++ (headerTerminator ++ rest)) crlf = some lineEnd ∧
      stringvSlice (head ++ (headerTerminator ++ rest)) 0 lineEnd = start ∧
      ∀ request, requestParseHeaderLines (head ++ (headerTerminator ++ rest)) head.length
        (lineEnd + 2) request = readLines request lines := by
    cases hfind : stringvFind head crlf with
    | none =>
      rw [crlfLines_none hfind] at hlines
      obtain ⟨rfl, rfl⟩ := List.cons.inj hlines
      refine ⟨head.length, crlf_behind hfind (crlf ++ rest), ?_, fun request => ?_⟩
      · rw [stringvSlice, List.drop_zero, List.take_left]
      · rw [requestParseHeaderLines, dif_neg (by omega)]
        rfl
    | some lineEnd =>
      rw [crlfLines_some hfind] at hlines
      obtain ⟨rfl, rfl⟩ := List.cons.inj hlines
      have hinside := crlf_inside hfind
      refine ⟨lineEnd, stringvFind_append (by decide) hfind _, ?_, fun request => ?_⟩
      · rw [slice_append (by omega), stringvSlice, List.drop_zero]
      · exact requestParseHeaderLines_head head rest _ request hinside
  obtain ⟨lineEnd, hfind, hstart, hread⟩ := hloop
  rw [requestParseHeaders, hfind]
  dsimp only
  rw [hstart, headOfLines]
  cases requestLine start with
  | none => rfl
  | some parts =>
    obtain ⟨method, target⟩ := parts
    rcases hlines : readLines (requestSetTarget {} method target) lines with ⟨left, request⟩
    cases left <;> simp only [hread, hlines]

/-- The parser's answer to a head that is found, by its lines. -/
theorem requestParse_head {head rest start : Bytes} {lines : List Bytes}
    (hfirst : FirstAt headerTerminator (head ++ (headerTerminator ++ rest)) head.length)
    (hlines : crlfLines head = start :: lines) (hlimit : head.length + 4 ≤ CEASY_MAX_HEADER_BYTES) :
    requestParse (head ++ (headerTerminator ++ rest)) = requestOfLines start lines rest := by
  have hlength : (head ++ (headerTerminator ++ rest)).length = head.length + 4 + rest.length := by
    rw [List.length_append, List.length_append, ← Nat.add_assoc]
    rfl
  have hbody : ∀ count, stringvSlice (head ++ (headerTerminator ++ rest)) (head.length + 4) count =
      rest.take count := by
    intro count
    rw [stringvSlice, ← List.drop_drop, List.drop_left]
    rfl
  have hless : ∀ count, (head ++ (headerTerminator ++ rest)).length < head.length + 4 + count ↔
      rest.length < count := by
    intro count
    rw [hlength]
    omega
  rw [requestParse, requestParse_found hfirst]
  dsimp only
  rw [if_neg (Nat.not_lt.mpr hlimit), requestParseHeaders_head hlines, requestOfLines]
  rcases headOfLines start lines with ⟨result, request⟩
  cases result with
  | ok =>
    dsimp only
    rw [hbody]
    exact if_congr (hless _) rfl rfl
  | incomplete => rfl
  | badRequest => rfl
  | payloadTooLarge => rfl
  | unsupported => rfl

/-- An accepted request has a head of at most the allowed size. -/
theorem requestParse_accepted {raw : Bytes} {request : Request}
    (h : requestParse raw = (.ok, request)) :
    ∃ head rest, raw = head ++ (headerTerminator ++ rest) ∧
      FirstAt headerTerminator raw head.length ∧ head.length + 4 ≤ CEASY_MAX_HEADER_BYTES := by
  unfold requestParse at h
  cases hfind : requestFindBytes raw headerTerminator with
  | none =>
    rw [hfind] at h
    dsimp only at h
    split at h <;> cases h
  | some headerEnd =>
    rw [hfind] at h
    dsimp only at h
    split at h
    · cases h
    · next hlimit =>
      rw [requestFindBytes_eq (by decide), stringvFind_some (by decide)] at hfind
      have hbound := occursAt_bound hfind.1 (by decide)
      have hhead : (raw.take headerEnd).length = headerEnd := by
        rw [List.length_take]
        omega
      refine ⟨raw.take headerEnd, _, occursAt_split hfind.1, ?_, ?_⟩
      · rwa [hhead]
      · rw [hhead]
        exact Nat.le_of_not_lt hlimit

theorem readLines_left {request last : Request} {lines : List Bytes} {left : RequestParseResult}
    (h : readLines request lines = (some left, last)) : left = .badRequest := by
  induction lines generalizing request with
  | nil => cases h
  | cons line lines ih =>
    rw [readLines] at h
    split at h
    · next hline =>
      cases h
      exact requestHeaderLine_left hline
    · exact ih h

theorem requestOfLines_ok {start rest : Bytes} {lines : List Bytes} {request : Request}
    (h : requestOfLines start lines rest = (.ok, request)) :
    ∃ method target filled checked, requestLine start = some (method, target) ∧
      readLines (requestSetTarget {} method target) lines = (none, filled) ∧
      requestCheckFraming filled = (.ok, checked) ∧ checked.contentLength ≤ rest.length ∧
      request = { checked with body := rest.take checked.contentLength } := by
  unfold requestOfLines at h
  split at h
  · next checked hhead =>
    split at h
    · cases h
    · next hbody =>
      cases h
      unfold headOfLines at hhead
      split at hhead
      · cases hhead
      · next method target hline =>
        dsimp only at hhead
        split at hhead
        · cases hhead
        split at hhead
        · next hread =>
          cases hhead
          cases readLines_left hread
        · next filled hread =>
          exact ⟨method, target, filled, checked, hline, hread, hhead, Nat.le_of_not_lt hbody, rfl⟩
  · next hother hhead =>
    cases h
    exact (hother rfl).elim

end Ceasy.RequestLines
