import Ceasy.StringMapOperations

set_option autoImplicit false

/-!
# The values of a session

A session keeps its values in a string map of the request's arena, which serves
every allocation here. The map comes with its invariant, so every operation
ends and answers.
-/
namespace Ceasy.Sessions
open StringView Allocator Collection

structure SessionValues where
  map : StringMap Unit
  invariant : Invariant map

abbrev SessionContents := Bytes → Option (StringMapData Unit)

namespace SessionValues

def contents (values : SessionValues) : SessionContents := mapContents values.map

def empty : SessionValues := ⟨smInit, invariant_init⟩

/-- What an operation that ends has answered, with the map it leaves. -/
def ofOutcome (result : Option (Outcome Unit)) (h : ∃ out, result = some out ∧ Invariant out.map) :
    Bool × SessionValues :=
  match result, h with
  | some out, h => (out.ok, ⟨out.map, by
      obtain ⟨_, heq, hout⟩ := h
      cases heq
      exact hout⟩)
  | none, h => absurd h (by
      rintro ⟨_, heq, -⟩
      cases heq)

theorem setValue_ends (values : SessionValues) (key : Bytes) (value : StringMapValue Unit) :
    ∃ out, smSetValue allocatorGrants values.map [] key value = some out ∧ Invariant out.map := by
  obtain ⟨out, hout, hspec⟩ := stringMapSetInternal_spec allocatorGrants [] values.invariant key value true
  exact ⟨out, hout, hspec.invariant⟩

theorem setStringView_ends (values : SessionValues) (key value : Bytes) :
    ∃ out, smSetStringView allocatorGrants values.map [] key value = some out ∧
      Invariant out.map := by
  obtain ⟨out, hout, hspec⟩ := smSetStringView_spec allocatorGrants [] values.invariant key value
  exact ⟨out, hout, hspec.invariant⟩

def setValue (values : SessionValues) (key : Bytes) (value : StringMapValue Unit) :
    Bool × SessionValues :=
  ofOutcome (smSetValue allocatorGrants values.map [] key value) (values.setValue_ends key value)

def setStringView (values : SessionValues) (key value : Bytes) : Bool × SessionValues :=
  ofOutcome (smSetStringView allocatorGrants values.map [] key value)
    (values.setStringView_ends key value)

def remove (values : SessionValues) (key : Bytes) : Bool × SessionValues :=
  ((smRemove values.map [] key).ok,
    ⟨(smRemove values.map [] key).map, (smRemove_spec [] values.invariant key).1⟩)

def clear (values : SessionValues) : SessionValues :=
  ⟨(smClear values.map []).1, (smClear_spec [] values.invariant).1⟩

/-- The value under a key, when it has the type asked for. -/
def getString (values : SessionValues) (key : Bytes) : Option Bytes :=
  match smGet values.map key with
  | some ⟨.string string, _, _⟩ => some string
  | _ => none

def getInt (values : SessionValues) (key : Bytes) : Option Int64 :=
  match smGet values.map key with
  | some ⟨.int64 integer, _, _⟩ => some integer
  | _ => none

def getBool (values : SessionValues) (key : Bytes) : Option Bool :=
  match smGet values.map key with
  | some ⟨.bool boolean, _, _⟩ => some boolean
  | _ => none

variable (values : SessionValues) (key : Bytes)

@[simp]
theorem contents_empty : empty.contents = fun _ => none := mapContents_zero rfl

structure Stored (values : SessionValues) (key : Bytes) (data : StringMapData Unit)
    (result : Bool × SessionValues) : Prop where
  done : result.1 = true → result.2.contents = Function.update values.contents key (some data)
  refused : result.1 = false → result.2.contents = values.contents
  served : ¬ AtLimit values.map → result.1 = true
  compact : Compact values.map → Compact result.2.map

theorem ofOutcome_stored {value : StringMapValue Unit} {result : Option (Outcome Unit)}
    (h : ∃ out, result = some out ∧ Invariant out.map)
    (hspec : ∃ out, result = some out ∧ SetSpec allocatorGrants values.map [] key value out)
    (hvalid : stringMapValueInvalid value = false) :
    Stored values key value.data (ofOutcome result h) := by
  obtain ⟨out, rfl, hspec⟩ := hspec
  exact
    { done := fun hok => (hspec.done hok).2
      refused := fun hok => (hspec.refused hok).1
      served := fun hlimit => (setSpec_grants hspec hvalid hlimit).1
      compact := hspec.compact }

theorem setValue_stored (value : StringMapValue Unit) (hvalid : stringMapValueInvalid value = false) :
    Stored values key value.data (values.setValue key value) :=
  ofOutcome_stored values key _
    (stringMapSetInternal_spec allocatorGrants [] values.invariant key value true) hvalid

theorem setStringView_stored (value : Bytes) :
    Stored values key (.string value) (values.setStringView key value) :=
  ofOutcome_stored values key _
    (smSetStringView_spec allocatorGrants [] values.invariant key value) rfl

theorem remove_answer : (values.remove key).1 = (values.contents key).isSome :=
  (smRemove_spec [] values.invariant key).2.1

theorem remove_contents :
    (values.remove key).2.contents = Function.update values.contents key none :=
  (smRemove_spec [] values.invariant key).2.2

@[simp]
theorem clear_contents : values.clear.contents = fun _ => none :=
  (smClear_spec [] values.invariant).2

/-- A map that has only grown and holds few keys is far from its limit. -/
theorem not_atLimit {values : SessionValues} {keys : List Bytes} (hcompact : Compact values.map)
    (hkeys : ∀ key, (values.contents key).isSome → key ∈ keys) (hfew : keys.length < 2 ^ 32) :
    ¬ AtLimit values.map := by
  classical
  have hsub : {key | (mapContents values.map key).isSome} ⊆ (keys.toFinset : Set Bytes) := by
    intro key hkey
    rw [List.coe_toFinset]
    exact hkeys key hkey
  have hcard := Set.ncard_le_ncard hsub (Finset.finite_toSet _)
  rw [mapContents_ncard values.invariant, Set.ncard_coe_finset] at hcard
  have hlength := hcard.trans (List.toFinset_card_le keys)
  unfold AtLimit
  unfold Compact STRING_MAP_INITIAL_CAPACITY at hcompact
  have hlimit : SIZE_MAX / sizeofStringMapSlot = 329406144173384850 := by decide
  omega

end SessionValues
end Ceasy.Sessions
