import Ceasy.StringView
import Ceasy.PathEncoding

set_option autoImplicit false

/-!
# Asset paths

The path of a request is decoded into a buffer of the request's arena, and the buffer is
then read again for its segments.
-/
namespace Ceasy.Assets
open StringView UrlEncoding PathEncoding

def assetHexDigit (value : UInt8) : Option UInt8 :=
  if ch '0' ≤ value ∧ value ≤ ch '9' then some (value - ch '0')
  else if ch 'a' ≤ value ∧ value ≤ ch 'f' then some (value - ch 'a' + 10)
  else if ch 'A' ≤ value ∧ value ≤ ch 'F' then some (value - ch 'A' + 10)
  else none

def assetByteRefused (value : UInt8) : Bool := value == 0 || value == ch '\\' || value == ch ':'

/-- The first loop: a byte is looked at when it has been decoded. -/
def assetDecodeLoop (requestPath : Bytes) (index : ℕ) (data : Bytes) : Option Bytes :=
  if _h : index < requestPath.length then
    if requestPath[index] = ch '%' then
      if _hend : requestPath.length ≤ index + 2 then none
      else
        match assetHexDigit requestPath[index + 1], assetHexDigit requestPath[index + 2] with
        | some high, some low =>
          if assetByteRefused (high <<< 4 ||| low) then none
          else assetDecodeLoop requestPath (index + 3) (data ++ [high <<< 4 ||| low])
        | none, _ => none
        | some _, none => none
    else if assetByteRefused requestPath[index] then none
    else assetDecodeLoop requestPath (index + 1) (data ++ [requestPath[index]])
  else some data
termination_by requestPath.length - index

/-- A segment that is empty, `.` or `..`. -/
def assetSegmentRefused (data : Bytes) (index segmentStart : ℕ) : Bool :=
  index == segmentStart ||
    (index - segmentStart == 1 && data[segmentStart]? == some (ch '.')) ||
    (index - segmentStart == 2 && data[segmentStart]? == some (ch '.') &&
      data[segmentStart + 1]? == some (ch '.'))

/-- The second loop, which goes one past the last byte to end the last segment. -/
def assetSegmentLoop (data : Bytes) (index segmentStart : ℕ) : Bool :=
  if _h : index ≤ data.length then
    if index ≠ data.length ∧ data[index]? ≠ some (ch '/') then
      assetSegmentLoop data (index + 1) segmentStart
    else if assetSegmentRefused data index segmentStart then false
    else assetSegmentLoop data (index + 1) (index + 1)
  else true
termination_by data.length + 1 - index

/-- The arena is there or not, and says which sizes it serves. -/
def assetNormalizePath (arena : Option (ℕ → Bool)) (requestPath : Bytes) : Option Bytes :=
  match arena with
  | none => none
  | some arenaAlloc =>
    if requestPath.length < 2 ∨ requestPath[0]? ≠ some (ch '/') ∨ SIZE_MAX - 1 < requestPath.length then
      none
    else if !arenaAlloc (requestPath.length + 1) then none
    else
      match assetDecodeLoop requestPath 0 [] with
      | none => none
      | some data => if assetSegmentLoop data 1 1 then some data else none

theorem assetHexDigit_eq (value : UInt8) : assetHexDigit value = hexValue value := rfl

def Allowed (text : Bytes) : Prop := ∀ c ∈ text, assetByteRefused c = false

theorem allowed_cons {c : UInt8} {text : Bytes} :
    Allowed (c :: text) ↔ assetByteRefused c = false ∧ Allowed text :=
  List.forall_mem_cons

/-- A decoded byte that is allowed goes in front of what is decoded behind it. -/
theorem allowed_push {c : UInt8} (h : assetByteRefused c = false) (code data result : Bytes) :
    (∃ text, unescape code = some text ∧ Allowed text ∧ result = data ++ [c] ++ text) ↔
      ∃ text, (unescape code).map (c :: ·) = some text ∧ Allowed text ∧ result = data ++ text := by
  simp only [Option.map_eq_some_iff]
  constructor
  · rintro ⟨text, htext, hallowed, rfl⟩
    exact ⟨_, ⟨text, htext, rfl⟩, allowed_cons.mpr ⟨h, hallowed⟩, List.append_assoc _ _ _⟩
  · rintro ⟨_, ⟨text, htext, rfl⟩, hallowed, rfl⟩
    exact ⟨text, htext, (allowed_cons.mp hallowed).2, (List.append_assoc data [c] text).symm⟩

theorem not_allowed_push {c : UInt8} (h : assetByteRefused c = true) (code data result : Bytes) :
    ¬ ∃ text, (unescape code).map (c :: ·) = some text ∧ Allowed text ∧ result = data ++ text := by
  simp only [Option.map_eq_some_iff]
  rintro ⟨_, ⟨text, -, rfl⟩, hallowed, -⟩
  exact Bool.false_ne_true ((allowed_cons.mp hallowed).1.symm.trans h)

/-- The loop appends the decoded bytes, and each of them is allowed. -/
theorem assetDecodeLoop_some (requestPath : Bytes) (index : ℕ) (data result : Bytes) :
    assetDecodeLoop requestPath index data = some result ↔
      ∃ text, unescape (requestPath.drop index) = some text ∧ Allowed text ∧ result = data ++ text := by
  rw [assetDecodeLoop]
  split_ifs with hindex hpercent hend hrefused
  · rw [List.drop_eq_getElem_cons hindex, hpercent, show ch '%' = percent from rfl, unescape_bad]
    · simp
    · rintro ⟨high, low, rest, h, l, hbehind, -, -⟩
      have hlength := congrArg List.length hbehind
      rw [List.length_drop, List.length_cons, List.length_cons] at hlength
      omega
  · have hnext : index + 1 < requestPath.length := by omega
    have hlast : index + 1 + 1 < requestPath.length := by omega
    rw [List.drop_eq_getElem_cons hindex, hpercent, List.drop_eq_getElem_cons hnext,
      List.drop_eq_getElem_cons hlast, show ch '%' = percent from rfl, assetHexDigit_eq, assetHexDigit_eq]
    cases hhigh : hexValue requestPath[index + 1] with
    | none =>
      rw [unescape_bad]
      · simp
      · rintro ⟨high, low, rest, h, l, heq, hdigit, -⟩
        rw [(List.cons.inj heq).1, hexValue_isDigit hdigit] at hhigh
        cases hhigh
    | some high =>
      cases hlow : hexValue requestPath[index + 2] with
      | none =>
        rw [unescape_bad]
        · simp
        · rintro ⟨first, low, rest, h, l, heq, -, hdigit⟩
          rw [(List.cons.inj (List.cons.inj heq).2).1, hexValue_isDigit hdigit] at hlow
          cases hlow
      | some low =>
        rw [unescape_escape hhigh hlow]
        dsimp only
        split_ifs with hrefused
        · exact iff_of_false not_false (not_allowed_push hrefused _ _ _)
        · rw [assetDecodeLoop_some]
          exact allowed_push (Bool.eq_false_iff.mpr hrefused) _ _ _
  · rw [List.drop_eq_getElem_cons hindex, unescape_literal hpercent]
    exact iff_of_false not_false (not_allowed_push hrefused _ _ _)
  · rw [assetDecodeLoop_some, List.drop_eq_getElem_cons hindex, unescape_literal hpercent]
    exact allowed_push (Bool.eq_false_iff.mpr hrefused) _ _ _
  · rw [List.drop_eq_nil_of_le (Nat.not_lt.mp hindex)]
    constructor
    · rintro ⟨⟩
      exact ⟨[], rfl, List.forall_mem_nil _, (List.append_nil _).symm⟩
    · rintro ⟨text, htext, -, rfl⟩
      cases htext
      rw [List.append_nil]
termination_by requestPath.length - index

def SegmentOk (segment : Bytes) : Prop := segment ≠ [] ∧ segment ≠ [dot] ∧ segment ≠ [dot, dot]

theorem assetSegmentRefused_iff (before current rest : Bytes) :
    assetSegmentRefused (before ++ (current ++ rest)) (before.length + current.length) before.length = true ↔
      ¬ SegmentOk current := by
  have hdot : ch '.' = dot := rfl
  have hnext : before.length + 1 - before.length = 1 := by omega
  unfold assetSegmentRefused SegmentOk
  rw [hdot, Nat.add_sub_cancel_left, List.getElem?_append_right (Nat.le_refl _), Nat.sub_self,
    List.getElem?_append_right (Nat.le_add_right _ 1), hnext]
  rcases current with _ | ⟨first, _ | ⟨second, _ | ⟨third, current⟩⟩⟩
  · simp
  · simp
  · simp
  · simp

theorem getElem?_behind (before current rest : Bytes) :
    (before ++ (current ++ rest))[before.length + current.length]? = rest[0]? := by
  rw [← List.append_assoc, List.getElem?_append_right (by rw [List.length_append]), List.length_append,
    Nat.sub_self]

/-- At the end of the buffer or at a slash, the segment that ends there is looked at. -/
theorem assetSegmentLoop_iff (before current rest : Bytes) (h : slash ∉ current) :
    assetSegmentLoop (before ++ (current ++ rest)) (before.length + current.length) before.length = true ↔
      ∀ segment ∈ (current ++ rest).splitOn slash, SegmentOk segment := by
  induction rest generalizing before current with
  | nil =>
    have hrefused := assetSegmentRefused_iff before current []
    have hlength : (before ++ (current ++ [])).length = before.length + current.length := by
      rw [List.append_nil, List.length_append]
    rw [assetSegmentLoop, dif_pos (Nat.le_of_eq hlength.symm), if_neg (fun hno => hno.1 hlength.symm)]
    rw [List.append_nil, List.splitOn_eq_singleton h, List.forall_mem_singleton]
    rw [List.append_nil] at hrefused hlength
    by_cases hok : SegmentOk current
    · rw [if_neg (fun hbad => hrefused.mp hbad hok), assetSegmentLoop, dif_neg (by omega)]
      exact iff_of_true rfl hok
    · rw [if_pos (hrefused.mpr hok)]
      exact iff_of_false Bool.false_ne_true hok
  | cons c rest ih =>
    have hrefused := assetSegmentRefused_iff before current (c :: rest)
    have hlength : (before ++ (current ++ c :: rest)).length =
        before.length + current.length + rest.length + 1 := by
      rw [List.length_append, List.length_append, List.length_cons]
      omega
    rw [assetSegmentLoop, dif_pos (by omega), getElem?_behind, List.getElem?_cons_zero]
    by_cases hc : c = slash
    · subst hc
      rw [if_neg (fun hno => hno.2 rfl), List.splitOn_append_cons_self, List.splitOn_eq_singleton h,
        List.singleton_append, List.forall_mem_cons]
      by_cases hok : SegmentOk current
      · have hnext := ih (before ++ (current ++ [slash])) [] List.not_mem_nil
        have hstart : (before ++ (current ++ [slash])).length = before.length + current.length + 1 := by
          rw [List.length_append, List.length_append, List.length_singleton, Nat.add_assoc]
        have hdata : before ++ (current ++ [slash]) ++ ([] ++ rest) = before ++ (current ++ slash :: rest) := by
          simp
        rw [hdata, hstart, List.length_nil, Nat.add_zero, List.nil_append] at hnext
        rw [if_neg (fun hbad => hrefused.mp hbad hok), hnext]
        exact (and_iff_right hok).symm
      · rw [if_pos (hrefused.mpr hok)]
        exact iff_of_false Bool.false_ne_true fun hall => hok hall.1
    · have hnext := ih before (current ++ [c]) (by simp [h, Ne.symm hc])
      have hdata : current ++ [c] ++ rest = current ++ c :: rest := by simp
      rw [hdata, List.length_append, List.length_singleton, ← Nat.add_assoc] at hnext
      rw [if_pos ⟨by omega, fun hno => hc (Option.some.inj hno)⟩, hnext]

structure AssetSegment (segment : Bytes) : Prop extends Name segment where
  noBackslash : ch '\\' ∉ segment
  noColon : ch ':' ∉ segment
  noNul : 0 ∉ segment

/-- The path has a slash in front of each of one or more segments. -/
structure AssetSegments (path : Bytes) (segments : List Bytes) : Prop where
  joined : path = joined segments
  some : segments ≠ []
  segments : ∀ segment ∈ segments, AssetSegment segment

theorem assetByteRefused_false {c : UInt8} :
    assetByteRefused c = false ↔ c ≠ ch '\\' ∧ c ≠ ch ':' ∧ c ≠ 0 := by
  rw [assetByteRefused]
  simp only [Bool.or_eq_false_iff, beq_eq_false_iff_ne]
  tauto

theorem allowed_iff {text : Bytes} : Allowed text ↔ ch '\\' ∉ text ∧ ch ':' ∉ text ∧ 0 ∉ text := by
  unfold Allowed
  simp only [assetByteRefused_false]
  constructor
  · exact fun h => ⟨fun hc => (h _ hc).1 rfl, fun hc => (h _ hc).2.1 rfl, fun hc => (h _ hc).2.2 rfl⟩
  · exact fun h c hc => ⟨fun heq => h.1 (heq ▸ hc), fun heq => h.2.1 (heq ▸ hc), fun heq => h.2.2 (heq ▸ hc)⟩

theorem assetSegment_iff {segment : Bytes} :
    AssetSegment segment ↔ SegmentOk segment ∧ slash ∉ segment ∧ Allowed segment := by
  rw [allowed_iff]
  constructor
  · exact fun h => ⟨⟨h.some, h.notHere, h.notAbove⟩, h.noSlash, h.noBackslash, h.noColon, h.noNul⟩
  · exact fun h => ⟨⟨h.1.1, h.2.1, h.1.2.1, h.1.2.2⟩, h.2.2.1, h.2.2.2.1, h.2.2.2.2⟩

theorem allowed_joined {segments : List Bytes} :
    Allowed (joined segments) ↔ ∀ segment ∈ segments, Allowed segment := by
  unfold Allowed joined
  simp only [List.mem_flatMap, List.mem_cons]
  constructor
  · exact fun h segment hsegment c hc => h c ⟨segment, hsegment, .inr hc⟩
  · rintro h c ⟨segment, hsegment, rfl | hc⟩
    · decide
    · exact h segment hsegment c hc

/-- The second loop passes what is behind the first slash if each piece of it is a segment. -/
theorem assetSegmentLoop_segments (path : Bytes) (hallowed : Allowed (slash :: path)) :
    assetSegmentLoop (slash :: path) 1 1 = true ↔ ∃ segments, AssetSegments (slash :: path) segments := by
  have hloop := assetSegmentLoop_iff [slash] [] path List.not_mem_nil
  rw [List.nil_append, List.singleton_append, List.length_singleton, List.length_nil] at hloop
  rw [hloop]
  constructor
  · intro h
    have hjoined := joined_splitOn path
    rw [← hjoined] at hallowed
    refine ⟨path.splitOn slash, hjoined.symm, List.splitOn_ne_nil slash path, fun segment hsegment => ?_⟩
    exact assetSegment_iff.mpr ⟨h segment hsegment, splitOn_noSlash path segment hsegment,
      allowed_joined.mp hallowed segment hsegment⟩
  · rintro ⟨segments, hjoined, hsome, hsegments⟩
    have hsplit := splitOn_joined (fun segment hsegment => (hsegments segment hsegment).noSlash) []
    rw [List.nil_append, ← hjoined, ← List.nil_append (slash :: path), List.splitOn_append_cons_self,
      List.splitOn_nil, List.append_cancel_left_eq] at hsplit
    rw [hsplit]
    exact fun segment hsegment => (assetSegment_iff.mp (hsegments segment hsegment)).1

theorem AssetSegments.allowed {path : Bytes} {segments : List Bytes} (h : AssetSegments path segments) :
    Allowed path := by
  rw [h.joined, allowed_joined]
  exact fun segment hsegment => (assetSegment_iff.mp (h.segments segment hsegment)).2.2

theorem AssetSegments.two_le {path : Bytes} {segments : List Bytes} (h : AssetSegments path segments) :
    2 ≤ path.length := by
  obtain ⟨first, rest, rfl⟩ := List.exists_cons_of_ne_nil h.some
  have hfirst := List.length_pos_iff.mpr (h.segments first List.mem_cons_self).some
  rw [h.joined, PathEncoding.joined, List.flatMap_cons, List.length_append, List.length_cons]
  omega

/-- Each check of `asset_normalize_path` at once. -/
theorem assetNormalizePath_some (arenaAlloc : ℕ → Bool) (requestPath normalized : Bytes) :
    assetNormalizePath (some arenaAlloc) requestPath = some normalized ↔
      requestPath.length < SIZE_MAX ∧ arenaAlloc (requestPath.length + 1) = true ∧
        ∃ code segments, requestPath = slash :: code ∧ unescape requestPath = some normalized ∧
          AssetSegments normalized segments := by
  have hslash : slash ≠ percent := by decide
  have hsize : SIZE_MAX = 18446744073709551615 := by decide
  constructor
  · intro h
    rw [assetNormalizePath] at h
    split_ifs at h with hguard halloc
    rw [not_or, not_or, Classical.not_not] at hguard
    obtain ⟨htwo, hfirst, hlong⟩ := hguard
    rw [Bool.not_eq_true', Bool.not_eq_false] at halloc
    obtain ⟨code, rfl⟩ : ∃ code, requestPath = slash :: code := by
      cases requestPath with
      | nil => cases hfirst
      | cons c code => exact ⟨code, congrArg (· :: code) (Option.some.inj hfirst)⟩
    cases hdecode : assetDecodeLoop (slash :: code) 0 [] with
    | none =>
      rw [hdecode] at h
      cases h
    | some data =>
      rw [hdecode] at h
      dsimp only at h
      split_ifs at h with hsegments
      cases h
      obtain ⟨text, htext, hallowed, rfl⟩ := (assetDecodeLoop_some _ _ _ _).mp hdecode
      rw [List.drop_zero] at htext
      have hescaped := htext
      rw [unescape_literal hslash, Option.map_eq_some_iff] at htext
      obtain ⟨path, -, rfl⟩ := htext
      obtain ⟨segments, hsegments⟩ := (assetSegmentLoop_segments path hallowed).mp hsegments
      exact ⟨by omega, halloc, code, segments, rfl, hescaped, hsegments⟩
  · rintro ⟨hlong, halloc, code, segments, rfl, hescaped, hsegments⟩
    have htwo := hsegments.two_le
    have hlength := ((unescape_iff _ _).mp hescaped).length_le
    have hdecode : assetDecodeLoop (slash :: code) 0 [] = some normalized :=
      (assetDecodeLoop_some _ _ _ _).mpr ⟨normalized, by rw [List.drop_zero, hescaped], hsegments.allowed,
        (List.nil_append normalized).symm⟩
    rw [unescape_literal hslash, Option.map_eq_some_iff] at hescaped
    obtain ⟨path, -, rfl⟩ := hescaped
    rw [assetNormalizePath, if_neg (by rintro (h | h | h) <;> first | omega | exact h rfl), halloc, Bool.not_true,
      if_neg Bool.false_ne_true, hdecode]
    dsimp only
    rw [if_pos ((assetSegmentLoop_segments path hsegments.allowed).mpr ⟨segments, hsegments⟩)]

/-- A path that is accepted is decoded once and stays below any root that it is put behind;
and any escaped path of segments is accepted, if it is served, for what it was before. -/
theorem assetNormalizePath_confined :
    (∀ arena requestPath normalized, assetNormalizePath arena requestPath = some normalized →
      unescape requestPath = some normalized ∧ ∃ segments, AssetSegments normalized segments ∧
        ∀ root, resolve (root ++ normalized) = resolve root ++ segments) ∧
    ∀ arenaAlloc path segments code, AssetSegments path segments → Escapes path.tail code →
      (slash :: code).length < SIZE_MAX → arenaAlloc ((slash :: code).length + 1) = true →
        assetNormalizePath (some arenaAlloc) (slash :: code) = some path := by
  refine ⟨fun arena requestPath normalized h => ?_, fun arenaAlloc path segments code hsegments hescapes
    hlong halloc => ?_⟩
  · cases arena with
    | none => cases h
    | some arenaAlloc =>
      obtain ⟨-, -, code, segments, -, hescaped, hsegments⟩ := (assetNormalizePath_some _ _ _).mp h
      refine ⟨hescaped, segments, hsegments, fun root => ?_⟩
      rw [hsegments.joined]
      exact resolve_joined (fun segment hsegment => (hsegments.segments segment hsegment).toName) root
  · refine (assetNormalizePath_some _ _ _).mpr ⟨hlong, halloc, code, segments, rfl, ?_, hsegments⟩
    obtain ⟨first, rest, rfl⟩ := List.exists_cons_of_ne_nil hsegments.some
    have hpath := hsegments.joined
    rw [PathEncoding.joined, List.flatMap_cons, List.cons_append] at hpath
    rw [hpath, List.tail_cons] at hescapes
    rw [unescape_literal (by decide), hescapes.unescape, Option.map_some, hpath]

example : assetNormalizePath (some fun _ => true) (sv "/images/%2e%2E/secret") = none ∧
    assetNormalizePath (some fun _ => true) (sv "/a%20b%2fc") = some (sv "/a b/c") := by
  decide +kernel

end Ceasy.Assets
