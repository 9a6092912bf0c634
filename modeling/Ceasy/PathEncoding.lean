import Ceasy.UrlEncoding

set_option autoImplicit false

/-!
# Percent-encoded paths

A path has a slash in front of each of its segments. A byte of it stands for itself or is
escaped, and the percent sign is always escaped. To resolve a path without looking at
the disk is to follow its segments from the top.
-/
namespace Ceasy.PathEncoding
open UrlEncoding

def slash : UInt8 := 0x2F

def dot : UInt8 := 0x2E

/-- The second text is the first with every percent sign escaped, and any other of its bytes. -/
inductive Escapes : Text → Text → Prop where
  | nil : Escapes [] []
  | literal {c : UInt8} {text code : Text} (h : c ≠ percent) (rest : Escapes text code) :
      Escapes (c :: text) (c :: code)
  | escape {c high low : UInt8} {text code : Text} (hhigh : IsDigit high (c.toNat / 16))
      (hlow : IsDigit low (c.toNat % 16)) (rest : Escapes text code) :
      Escapes (c :: text) (percent :: high :: low :: code)

def unescape : Text → Option Text
  | [] => some []
  | c :: behind =>
    if c = percent then
      match behind with
      | high :: low :: rest =>
        match hexValue high, hexValue low with
        | some h, some l => (unescape rest).map ((h <<< 4 ||| l) :: ·)
        | _, _ => none
      | _ => none
    else (unescape behind).map (c :: ·)

def joined (segments : List Text) : Text := segments.flatMap (slash :: ·)

structure Name (segment : Text) : Prop where
  some : segment ≠ []
  noSlash : slash ∉ segment
  notHere : segment ≠ [dot]
  notAbove : segment ≠ [dot, dot]

def follow (directory : List Text) (segment : Text) : List Text :=
  if segment = [] ∨ segment = [dot] then directory
  else if segment = [dot, dot] then directory.dropLast
  else directory ++ [segment]

def resolve (path : Text) : List Text := (path.splitOn slash).foldl follow []

theorem unescape_literal {c : UInt8} (h : c ≠ percent) (behind : Text) :
    unescape (c :: behind) = (unescape behind).map (c :: ·) := by
  rw [unescape.eq_def]
  dsimp only
  rw [if_neg h]

theorem unescape_escape {high low h l : UInt8} (hhigh : hexValue high = some h)
    (hlow : hexValue low = some l) (rest : Text) :
    unescape (percent :: high :: low :: rest) = (unescape rest).map ((h <<< 4 ||| l) :: ·) := by
  rw [unescape, if_pos rfl, hhigh, hlow]

theorem unescape_bad {behind : Text} (h : ¬ Escape behind) : unescape (percent :: behind) = none := by
  rw [unescape.eq_def]
  dsimp only
  rw [if_pos rfl]
  rcases behind with _ | ⟨high, _ | ⟨low, rest⟩⟩
  · rfl
  · rfl
  · dsimp only
    cases hhigh : hexValue high with
    | none => rfl
    | some v =>
      cases hlow : hexValue low with
      | none => rfl
      | some w => exact absurd ⟨high, low, rest, _, _, rfl, hexValue_some.mp hhigh, hexValue_some.mp hlow⟩ h

theorem join_table : ∀ high low : Fin 16,
    (UInt8.ofNat high <<< 4 ||| UInt8.ofNat low).toNat = 16 * high + low := by
  decide +kernel

theorem join_toNat {h l : UInt8} (hhigh : h.toNat < 16) (hlow : l.toNat < 16) :
    (h <<< 4 ||| l).toNat = 16 * h.toNat + l.toNat := by
  have htable := join_table ⟨h.toNat, hhigh⟩ ⟨l.toNat, hlow⟩
  dsimp only at htable
  rwa [UInt8.ofNat_toNat, UInt8.ofNat_toNat] at htable

theorem Escapes.unescape {text code : Text} (h : Escapes text code) : unescape code = some text := by
  induction h with
  | nil => rfl
  | literal hc _ ih => rw [unescape_literal hc, ih, Option.map_some]
  | escape hhigh hlow _ ih =>
    rw [unescape_escape (hexValue_isDigit hhigh) (hexValue_isDigit hlow), ih, Option.map_some, join_halves]

/-- What is decoded is what was encoded, and nothing else decodes to it. -/
theorem unescape_iff (text code : Text) : unescape code = some text ↔ Escapes text code := by
  refine ⟨fun h => ?_, Escapes.unescape⟩
  induction code using unescape.induct generalizing text with
  | case1 =>
    cases h
    exact .nil
  | case2 high low rest v w hlow hhigh ih =>
    rw [unescape_escape hhigh hlow, Option.map_eq_some_iff] at h
    obtain ⟨decoded, hdecoded, rfl⟩ := h
    have hv := hexValue_some.mp hhigh
    have hw := hexValue_some.mp hlow
    have hnat := join_toNat hv.1 hw.1
    refine .escape ?_ ?_ (ih decoded hdecoded)
    · rwa [hnat, show (16 * v.toNat + w.toNat) / 16 = v.toNat by have := hw.1; omega]
    · rwa [hnat, show (16 * v.toNat + w.toNat) % 16 = w.toNat by have := hw.1; omega]
  | case3 high low rest hno =>
    rw [unescape_bad] at h
    · cases h
    · rintro ⟨_, _, _, v, w, ⟨⟩, hhigh, hlow⟩
      exact hno _ _ (hexValue_isDigit hhigh) (hexValue_isDigit hlow)
  | case4 behind hno =>
    rw [unescape_bad] at h
    · cases h
    · rintro ⟨high, low, rest, v, w, heq, -, -⟩
      exact hno high low rest heq
  | case5 c behind hc ih =>
    rw [unescape_literal hc, Option.map_eq_some_iff] at h
    obtain ⟨decoded, hdecoded, rfl⟩ := h
    exact .literal hc (ih decoded hdecoded)

theorem Escapes.length_le {text code : Text} (h : Escapes text code) : text.length ≤ code.length := by
  induction h with
  | nil => exact Nat.le_refl 0
  | literal _ _ ih => exact Nat.succ_le_succ ih
  | escape _ _ _ ih =>
    simp only [List.length_cons]
    omega

theorem follow_name {segment : Text} (h : Name segment) (directory : List Text) :
    follow directory segment = directory ++ [segment] := by
  rw [follow, if_neg (not_or.mpr ⟨h.some, h.notHere⟩), if_neg h.notAbove]

theorem splitOn_joined {segments : List Text} (h : ∀ segment ∈ segments, slash ∉ segment) (root : Text) :
    (root ++ joined segments).splitOn slash = root.splitOn slash ++ segments := by
  induction segments generalizing root with
  | nil => rw [joined, List.flatMap_nil, List.append_nil, List.append_nil]
  | cons segment segments ih =>
    have hrest := ih (fun other hother => h other (List.mem_cons_of_mem segment hother)) segment
    rw [joined, List.flatMap_cons, List.cons_append, List.splitOn_append_cons_self]
    rw [joined] at hrest
    rw [hrest, List.splitOn_eq_singleton (h segment List.mem_cons_self), List.singleton_append]

theorem foldl_follow {segments : List Text} (h : ∀ segment ∈ segments, Name segment)
    (directory : List Text) : segments.foldl follow directory = directory ++ segments := by
  induction segments generalizing directory with
  | nil => rw [List.foldl_nil, List.append_nil]
  | cons segment segments ih =>
    rw [List.foldl_cons, follow_name (h segment List.mem_cons_self),
      ih fun other hother => h other (List.mem_cons_of_mem segment hother), List.append_assoc,
      List.singleton_append]

theorem resolve_joined {segments : List Text} (h : ∀ segment ∈ segments, Name segment) (root : Text) :
    resolve (root ++ joined segments) = resolve root ++ segments := by
  rw [resolve, splitOn_joined fun segment hsegment => (h segment hsegment).noSlash, List.foldl_append,
    foldl_follow h]
  rfl

theorem joined_splitOn (path : Text) : joined (path.splitOn slash) = slash :: path := by
  induction path with
  | nil => rfl
  | cons c path ih =>
    obtain ⟨first, rest, hsplit⟩ := List.exists_cons_of_ne_nil (List.splitOn_ne_nil slash path)
    rw [hsplit, joined, List.flatMap_cons] at ih
    by_cases hc : c = slash
    · rw [hc, show slash :: path = [] ++ slash :: path from rfl, List.splitOn_append_cons_self, hsplit,
        List.splitOn_nil, List.singleton_append, joined, List.flatMap_cons, List.flatMap_cons, ih]
      rfl
    · rw [List.splitOn_cons_eq_if_modifyHead, if_neg (by simpa using hc), hsplit, List.modifyHead_cons,
        joined, List.flatMap_cons, List.cons_append, List.cons_append]
      rw [List.cons_append, List.cons.injEq] at ih
      rw [ih.2]

theorem splitOn_noSlash (path : Text) : ∀ segment ∈ path.splitOn slash, slash ∉ segment := by
  induction path with
  | nil => exact fun segment hsegment => by rw [List.mem_singleton.mp hsegment]; exact List.not_mem_nil
  | cons c path ih =>
    obtain ⟨first, rest, hsplit⟩ := List.exists_cons_of_ne_nil (List.splitOn_ne_nil slash path)
    rw [List.splitOn_cons_eq_if_modifyHead]
    rw [hsplit, List.forall_mem_cons] at ih
    by_cases hc : (c == slash) = true
    · rw [if_pos hc, hsplit, List.forall_mem_cons, List.forall_mem_cons]
      exact ⟨List.not_mem_nil, ih⟩
    · rw [if_neg hc, hsplit, List.modifyHead_cons, List.forall_mem_cons]
      rw [beq_iff_eq] at hc
      exact ⟨by simp [ih.1, Ne.symm hc], ih.2⟩

end Ceasy.PathEncoding
