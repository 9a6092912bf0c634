import Ceasy.Occurrence

set_option autoImplicit false

/-!
# Replacing the occurrences of a pattern

The first occurrence is replaced, and with it, if all are to be, those in what comes after it.
-/
namespace Occurrence

variable {α : Type*} {search replacement text first second : List α}

/-- The text with every occurrence replaced, each search beginning after the last one. -/
inductive ReplacedAll (search replacement : List α) : List α → List α → Prop
  | done {text : List α} (h : ∀ i, ¬ OccursAt search text i) : ReplacedAll search replacement text text
  | next {text rest : List α} {i : ℕ} (h : FirstAt search text i)
    (hrest : ReplacedAll search replacement (text.drop (i + search.length)) rest) :
    ReplacedAll search replacement text (text.take i ++ (replacement ++ rest))

inductive ReplacedFirst (search replacement text : List α) : List α → Prop
  | done (h : ∀ i, ¬ OccursAt search text i) : ReplacedFirst search replacement text text
  | next {i : ℕ} (h : FirstAt search text i) :
    ReplacedFirst search replacement text
      (text.take i ++ (replacement ++ text.drop (i + search.length)))

theorem ReplacedAll.unique (hfirst : ReplacedAll search replacement text first)
    (hsecond : ReplacedAll search replacement text second) : first = second := by
  induction hfirst generalizing second with
  | done hnone =>
    cases hsecond with
    | done => rfl
    | next hsome => exact absurd hsome.1 (hnone _)
  | next hsome _ ih =>
    cases hsecond with
    | done hnone => exact absurd hsome.1 (hnone _)
    | next hother hrest =>
      obtain rfl := firstAt_unique hsome hother
      rw [ih hrest]

theorem ReplacedAll.exists (hsearch : search ≠ []) (replacement text : List α) :
    ∃ result, ReplacedAll search replacement text result := by
  classical
  induction hlength : text.length using Nat.strong_induction_on generalizing text with
  | _ length ih =>
    by_cases hoccurs : ∃ i, OccursAt search text i
    · obtain ⟨i, hoccurs⟩ := hoccurs
      obtain ⟨j, -, hfirst⟩ := firstAt_exists hoccurs
      have hbound := occursAt_bound hfirst.1 hsearch
      have hpositive := List.length_pos_iff.mpr hsearch
      obtain ⟨rest, hrest⟩ := ih _ (by rw [List.length_drop]; omega)
        (text.drop (j + search.length)) rfl
      exact ⟨_, .next hfirst hrest⟩
    · exact ⟨text, .done (not_exists.mp hoccurs)⟩

theorem ReplacedFirst.unique (hfirst : ReplacedFirst search replacement text first)
    (hsecond : ReplacedFirst search replacement text second) : first = second := by
  cases hfirst with
  | done hnone =>
    cases hsecond with
    | done => rfl
    | next hsome => exact absurd hsome.1 (hnone _)
  | next hsome =>
    cases hsecond with
    | done hnone => exact absurd hsome.1 (hnone _)
    | next hother => rw [firstAt_unique hsome hother]

def Replaced (all : Bool) (search replacement text result : List α) : Prop :=
  if all then ReplacedAll search replacement text result else ReplacedFirst search replacement text result

theorem Replaced.done (all : Bool) (h : ∀ i, ¬ OccursAt search text i) :
    Replaced all search replacement text text := by
  cases all with
  | true => exact ReplacedAll.done h
  | false => exact ReplacedFirst.done h

theorem Replaced.unique {all : Bool} (hfirst : Replaced all search replacement text first)
    (hsecond : Replaced all search replacement text second) : first = second := by
  cases all with
  | true => exact ReplacedAll.unique hfirst hsecond
  | false => exact ReplacedFirst.unique hfirst hsecond

theorem Replaced.iff_eq {all : Bool} (h : Replaced all search replacement text first) (whole : List α) :
    Replaced all search replacement text whole ↔ whole = first :=
  ⟨fun hother => hother.unique h, fun heq => heq ▸ h⟩

end Occurrence
