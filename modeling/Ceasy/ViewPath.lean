import Ceasy.ViewCompiler

set_option autoImplicit false

/-!
# View paths by their segments

The loops over a path are read as statements about the list of its segments.
-/
namespace Ceasy.ViewPath
open StringView TemplateParse View ViewCompiler

/-- What a loop over segments takes next and what it goes on with. -/
theorem segment_cases (rest : Bytes) :
    (ch '/' ∉ rest ∧ rest.takeWhile (· != ch '/') = rest ∧ rest.dropWhile (· != ch '/') = [] ∧
        rest.splitOn (ch '/') = [rest]) ∨
      ∃ part next, rest = part ++ ch '/' :: next ∧ ch '/' ∉ part ∧
        rest.takeWhile (· != ch '/') = part ∧ rest.dropWhile (· != ch '/') = ch '/' :: next ∧
        rest.splitOn (ch '/') = part :: next.splitOn (ch '/') := by
  cases hslash : stringvFindChar rest (ch '/') with
  | none =>
    have hfree := stringvFindChar_none.mp hslash
    have hall : ∀ c ∈ rest, (c != ch '/') = true := by
      intro c hc
      rw [bne_iff_ne]
      rintro rfl
      exact hfree hc
    exact .inl ⟨hfree, List.takeWhile_eq_self_iff.mpr hall, List.dropWhile_eq_nil_iff.mpr hall,
      List.splitOn_eq_singleton hfree⟩
  | some i =>
    obtain ⟨part, next, rfl, hfree, -⟩ := stringvFindChar_some.mp hslash
    have hall : ∀ c ∈ part, (c != ch '/') = true := by
      intro c hc
      rw [bne_iff_ne]
      rintro rfl
      exact hfree hc
    refine .inr ⟨part, next, rfl, hfree, ?_, ?_,
      List.splitOn_append_cons_self_of_not_mem hfree next⟩
    · rw [List.takeWhile_append_of_pos hall]
      simp
    · rw [List.dropWhile_append_of_pos hall]
      simp

theorem viewPathSegments_iff (rest : Bytes) :
    viewPathSegments rest = true ↔
      ∀ part ∈ rest.splitOn (ch '/'), viewPathSegment part = true := by
  induction hn : rest.length using Nat.strong_induction_on generalizing rest with
  | _ n ih =>
    rw [viewPathSegments]
    rcases segment_cases rest with ⟨-, htake, hdrop, hsplit⟩ | ⟨part, next, hrest, -, htake, hdrop, hsplit⟩
    · rw [htake, hsplit, hdrop]
      simp
    rw [htake, hsplit, List.forall_mem_cons, hdrop]
    by_cases hpart : viewPathSegment part = true
    · rw [if_pos hpart]
      dsimp only
      by_cases hnext : next = []
      · subst hnext
        simp [viewPathSegment]
      · have hshorter : next.length < n := by
          rw [← hn, hrest, List.length_append, List.length_cons]
          omega
        rw [if_neg hnext, ih _ hshorter next rfl]
        exact (and_iff_right hpart).symm
    · rw [if_neg hpart]
      simp [hpart]

theorem viewPathSegment_ne_nil {part : Bytes} (h : viewPathSegment part = true) : part ≠ [] := by
  rintro rfl
  simp [viewPathSegment] at h

theorem viewPathSegment_char {part : Bytes} (h : viewPathSegment part = true) {c : UInt8}
    (hc : c ∈ part) : (asciiLetter c || asciiDigit c || c == ch '_' || c == ch '-') = true := by
  unfold viewPathSegment at h
  rw [Bool.and_eq_true, List.all_eq_true] at h
  exact h.2 c hc

theorem viewPathValid_iff (path : Bytes) :
    viewPathValid path = true ↔
      ∀ part ∈ path.splitOn (ch '/'), viewPathSegment part = true := by
  rw [← viewPathSegments_iff]
  unfold viewPathValid
  split_ifs with hrefused
  · refine iff_of_false nofun fun hvalid => ?_
    have hsegments := (viewPathSegments_iff path).mp hvalid
    obtain ⟨part, tail, others, rfl, hsplit, htail⟩ : ∃ part tail others, path = part ++ tail ∧
        path.splitOn (ch '/') = part :: others ∧ tail.head? ∈ [none, some (ch '/')] := by
      rcases segment_cases path with ⟨-, -, -, hsplit⟩ | ⟨part, next, hpath, -, -, -, hsplit⟩
      · exact ⟨path, [], [], (List.append_nil path).symm, hsplit, by simp⟩
      · exact ⟨part, _, _, hpath, hsplit, by simp⟩
    rw [hsplit, List.forall_mem_cons] at hsegments
    have hword : ∀ c ∈ part, c ≠ ch '\\' ∧ c ≠ ch ':' ∧ c ≠ ch '/' := by
      intro c hc
      have hchar := viewPathSegment_char hsegments.1 hc
      refine ⟨?_, ?_, ?_⟩ <;>
      · rintro rfl
        revert hchar
        decide
    cases part with
    | nil => exact viewPathSegment_ne_nil hsegments.1 rfl
    | cons first rest =>
      have hfirst := hword first List.mem_cons_self
      have hslash : ch '/' ≠ ch ':' := by decide
      cases rest with
      | nil => cases tail <;> simp_all
      | cons second rest =>
        have hsecond := hword second (List.mem_cons_of_mem _ List.mem_cons_self)
        simp [hfirst, hsecond] at hrefused
  · rfl

theorem viewPartialName_plain {path : Bytes} (h : ch '/' ∉ path) :
    viewPartialName path = sv "_" ++ path := by
  have hreverse : stringvFindChar path.reverse (ch '/') = none :=
    stringvFindChar_none.mpr (by rwa [List.mem_reverse])
  unfold viewPartialName stringvRfindChar
  rw [hreverse]
  rfl

theorem viewPartialName_nested (directory last : Bytes) (h : ch '/' ∉ last) :
    viewPartialName (directory ++ ch '/' :: last) = directory ++ ch '/' :: (sv "_" ++ last) := by
  have hreverse : stringvFindChar (directory ++ ch '/' :: last).reverse (ch '/') =
      some last.length := by
    refine stringvFindChar_some.mpr ⟨last.reverse, directory.reverse, ?_, ?_, ?_⟩
    · simp
    · rwa [List.mem_reverse]
    · exact List.length_reverse
  unfold viewPartialName stringvRfindChar
  rw [hreverse]
  have hindex : (directory ++ ch '/' :: last).length - 1 - last.length + 1 =
      (directory ++ [ch '/']).length := by
    simp only [List.length_append, List.length_cons, List.length_nil]
    omega
  have hsplit : directory ++ ch '/' :: last = (directory ++ [ch '/']) ++ last := by simp
  simp only [Option.map_some, stringvSlice, stringvFrom]
  rw [hindex, hsplit, List.drop_left, List.drop_zero, List.take_left]
  simp

/-- A path is one segment, or a directory and a last segment. -/
theorem last_cases (path : Bytes) :
    ch '/' ∉ path ∨ ∃ directory last, path = directory ++ ch '/' :: last ∧ ch '/' ∉ last := by
  by_cases h : ch '/' ∈ path
  · obtain ⟨last, directory, hpath, hlast⟩ :=
      List.eq_append_cons_of_mem (List.mem_reverse.mpr h)
    refine .inr ⟨directory.reverse, last.reverse, ?_, by rwa [List.mem_reverse]⟩
    rw [← List.reverse_reverse path, hpath]
    simp
  · exact .inl h

theorem viewPartialName_length (path : Bytes) :
    (viewPartialName path).length = path.length + 1 := by
  rcases last_cases path with hplain | ⟨directory, last, rfl, hlast⟩
  · rw [viewPartialName_plain hplain]
    rfl
  · rw [viewPartialName_nested _ _ hlast]
    simp only [List.length_append, List.length_cons]
    have : (sv "_").length = 1 := rfl
    omega

end Ceasy.ViewPath
