import Mathlib

set_option autoImplicit false

/-!
# First occurrences of a pattern in a list

A search is specified by the least position at which the pattern is a prefix of
the remaining list. Appending to the list never moves a first occurrence that
has already been found, which is what makes an incremental reader stable.
-/
namespace Occurrence

variable {α : Type*}

/-- The pattern is read in full at position `i`. -/
def OccursAt (needle hay : List α) (i : ℕ) : Prop := needle <+: hay.drop i

/-- The pattern is read at `i` and at no earlier position. -/
def FirstAt (needle hay : List α) (i : ℕ) : Prop :=
  OccursAt needle hay i ∧ ∀ j < i, ¬ OccursAt needle hay j

theorem occursAt_drop (needle hay : List α) (k i : ℕ) :
    OccursAt needle (hay.drop k) i ↔ OccursAt needle hay (k + i) := by
  simp [OccursAt, List.drop_drop]

theorem occursAt_bound {needle hay : List α} {i : ℕ} (h : OccursAt needle hay i)
    (hn : needle ≠ []) : i + needle.length ≤ hay.length := by
  have hl := h.length_le
  have hp := List.length_pos_iff.mpr hn
  rw [List.length_drop] at hl
  omega

theorem occursAt_append {needle hay : List α} {i : ℕ} (h : OccursAt needle hay i)
    (hi : i ≤ hay.length) (tail : List α) : OccursAt needle (hay ++ tail) i := by
  unfold OccursAt at *
  rw [List.drop_append_of_le_length hi]
  exact h.trans (List.prefix_append _ _)

theorem occursAt_of_append {needle hay tail : List α} {i : ℕ}
    (h : OccursAt needle (hay ++ tail) i) (hi : i + needle.length ≤ hay.length) :
    OccursAt needle hay i := by
  unfold OccursAt at *
  rw [List.drop_append_of_le_length (by omega)] at h
  exact List.prefix_of_prefix_length_le h (List.prefix_append _ _)
    (by rw [List.length_drop]; omega)

theorem firstAt_unique {needle hay : List α} {i j : ℕ} (hi : FirstAt needle hay i)
    (hj : FirstAt needle hay j) : i = j := by
  rcases Nat.lt_trichotomy i j with h | h | h
  · exact absurd hi.1 (hj.2 i h)
  · exact h
  · exact absurd hj.1 (hi.2 j h)

/-- A first occurrence stays the first one in every extension of the list. -/
theorem firstAt_append {needle hay : List α} {i : ℕ} (h : FirstAt needle hay i)
    (hn : needle ≠ []) (tail : List α) : FirstAt needle (hay ++ tail) i := by
  have hb := occursAt_bound h.1 hn
  refine ⟨occursAt_append h.1 (by omega) tail, fun j hj hocc => h.2 j hj ?_⟩
  exact occursAt_of_append hocc (by omega)

theorem firstAt_exists {needle hay : List α} {i : ℕ} (h : OccursAt needle hay i) :
    ∃ j ≤ i, FirstAt needle hay j := by
  classical
  have hex : ∃ j, OccursAt needle hay j := ⟨i, h⟩
  exact ⟨Nat.find hex, Nat.find_min' hex h, Nat.find_spec hex, fun j hj => Nat.find_min hex hj⟩

theorem occursAt_split {needle hay : List α} {i : ℕ} (h : OccursAt needle hay i) :
    hay = hay.take i ++ (needle ++ hay.drop (i + needle.length)) := by
  have hp := List.prefix_iff_eq_append.mp h
  rw [List.drop_drop] at hp
  rw [hp, List.take_append_drop]

theorem occursAt_of_split (before needle after : List α) :
    OccursAt needle (before ++ (needle ++ after)) before.length := by
  unfold OccursAt
  rw [List.drop_left]
  exact List.prefix_append _ _

end Occurrence
