import Ceasy.GrowingArray
import Ceasy.StringCopy
import Ceasy.View

set_option autoImplicit false

/-!
# Validation errors

The errors of a request are kept in a growing array of the request's arena, a copy of the
field and of the message each. Whether an error was kept is read off the copies' pointers.
-/
namespace Ceasy.Validation
open StringView StringCopy GrowingArray
open View (Record ModelDefinition ViewCollection ViewValue viewModelField)

structure ValidationError where
  field : Option Bytes
  message : Option Bytes
deriving DecidableEq, Repr

structure ValidationErrors where
  arena : Option ArenaAnswers
  array : Growing ValidationError := .empty

/-- Two Strings. -/
def sizeofValidationError : ℕ := 112

def validationCapacityLimit : ℕ := SIZE_MAX / sizeofValidationError

def validationErrorsInit (arena : Option ArenaAnswers) : ValidationErrors := { arena := arena }

/-- NULL is `none`, for the arena and for the data of a view. A block holds what the arena has
left in it. -/
def validationErrorsAdd (fresh : ℕ → ℕ → ValidationError) (errors : ValidationErrors)
    (field message : Option Bytes) : Bool × ValidationErrors :=
  match errors.arena, field, message with
  | some arena, some field, some message =>
    let (served, granted) :=
      if errors.array.Asks 4 validationCapacityLimit then arenaAlloc arena else (true, arena)
    match errors.array.room 4 validationCapacityLimit (by decide) served (fresh arena.requests) with
    | none => (false, { errors with arena := some granted })
    | some ⟨array, hroom⟩ =>
      let (fieldCopy, copied) := stringFromIn granted field
      let (messageCopy, last) := stringFromIn copied message
      if fieldCopy = none ∨ messageCopy = none then
        (false, { errors with arena := some last, array := array })
      else (true, { errors with arena := some last, array := array.put ⟨fieldCopy, messageCopy⟩ hroom })
  | _, _, _ => (false, errors)

def validationErrorsAny (errors : Option ValidationErrors) : Bool :=
  errors.any fun errors => 0 < errors.array.length

def validationErrorsCount (errors : Option ValidationErrors) : ℕ :=
  (errors.map fun errors => errors.array.length).getD 0

def validationErrorFor (errors : Option ValidationErrors) (field : Bytes) : Bytes :=
  ((errors.bind fun errors => errors.array.items.find? fun error =>
    stringvEqual (stringAsView error.field) field).map fun error : ValidationError =>
      stringAsView error.message).getD []

def validationDefinition : ModelDefinition where
  size := sizeofValidationError
  fields := [⟨sv "field", .fieldString, 0⟩, ⟨sv "message", .fieldString, 56⟩]

def slotsRecord (slots : List ValidationError) : Record where
  string offset :=
    match slots[offset / sizeofValidationError]? with
    | none => []
    | some error =>
      if offset % sizeofValidationError = 0 then stringAsView error.field else stringAsView error.message
  int64 _ := 0
  bool _ := false

def validationErrorsView (errors : ValidationErrors) : ViewCollection where
  items := if errors.array.capacity = 0 then none else some (slotsRecord errors.array.slots)
  length := errors.array.length
  definition := some validationDefinition

/-- The calls of `validation_errors_add` one after the other, and what each has answered. -/
def validationErrorsAddAll (fresh : ℕ → ℕ → ValidationError) :
    ValidationErrors → List (Bytes × Bytes) → List Bool × ValidationErrors
  | errors, [] => ([], errors)
  | errors, call :: calls =>
    let (answer, errors) := validationErrorsAdd fresh errors (some call.1) (some call.2)
    let (answers, errors) := validationErrorsAddAll fresh errors calls
    (answer :: answers, errors)

def itemField (collection : ViewCollection) (index : ℕ) (name : Bytes) : Option ViewValue :=
  viewModelField ⟨collection.items.map (·.advance (index * sizeofValidationError)), collection.definition⟩ name

/-- Every error was kept, in the order of the calls. -/
structure Kept (calls : List (Bytes × Bytes)) (answers : List Bool) (errors : ValidationErrors) : Prop where
  answers : answers = calls.map fun _ => true
  count : validationErrorsCount (some errors) = calls.length
  any : validationErrorsAny (some errors) = true ↔ calls ≠ []
  listed : (validationErrorsView errors).length = calls.length ∧ ∀ index call, calls[index]? = some call →
    itemField (validationErrorsView errors) index (sv "field") = some (.string call.1) ∧
      itemField (validationErrorsView errors) index (sv "message") = some (.string call.2)
  messages : ∀ field, validationErrorFor (some errors) field =
    ((calls.find? fun call => call.1 == field).map Prod.snd).getD []

/-- A text whose copy has storage. -/
def Storable (value : Bytes) : Prop := value ≠ [] ∧ value.length < SIZE_MAX

def validationErrorsMost : ℕ := 4 * 2 ^ 55

def servingArena : ArenaAnswers := ⟨fun _ => true, 0⟩

def Serving (arena : ArenaAnswers) : Prop := ∀ request, arena.served request = true

instance (value : Bytes) : Decidable (Storable value) := inferInstanceAs (Decidable (_ ∧ _))

theorem storable_iff {value : Bytes} : Storable value ↔ ¬ (value.length = 0 ∨ SIZE_MAX ≤ value.length) := by
  rw [Storable, not_or, Nat.not_le, List.length_eq_zero_iff]

theorem stringFromIn_serving {arena : ArenaAnswers} (h : Serving arena) (value : Bytes) :
    (stringFromIn arena value).1 = (if Storable value then some value else none) ∧
      Serving (stringFromIn arena value).2 := by
  unfold stringFromIn
  by_cases hvalue : value.length = 0 ∨ SIZE_MAX ≤ value.length
  · rw [if_pos hvalue, if_neg fun hstorable => storable_iff.mp hstorable hvalue]
    exact ⟨rfl, h⟩
  · rw [if_neg hvalue, if_pos (h _), if_pos (storable_iff.mpr hvalue)]
    exact ⟨rfl, h⟩

/-- The invariant of errors whose arena serves every request. -/
structure Served (errors : ValidationErrors) : Prop where
  arena : ∃ arena, errors.arena = some arena ∧ Serving arena
  doubled : errors.array.Doubled 4 validationCapacityLimit

def StorableCall (call : Bytes × Bytes) : Prop := Storable call.1 ∧ Storable call.2

def storedError (call : Bytes × Bytes) : ValidationError := ⟨some call.1, some call.2⟩

variable {fresh : ℕ → ℕ → ValidationError} {errors : ValidationErrors} {call : Bytes × Bytes}
  {calls : List (Bytes × Bytes)}

theorem stuck_iff_most (h : errors.array.Doubled 4 validationCapacityLimit) :
    errors.array.Stuck 4 validationCapacityLimit ↔ errors.array.length = validationErrorsMost :=
  Growing.stuck_iff (by decide) (by decide) (by decide) (by decide) h

theorem served_grant {arena : ArenaAnswers} (h : Serving arena) (p : Prop) [Decidable p] :
    ∃ granted, (if p then arenaAlloc arena else (true, arena)) = (true, granted) ∧ Serving granted := by
  split_ifs
  · exact ⟨arena.next, Prod.ext (h _) rfl, h⟩
  · exact ⟨arena, rfl, h⟩

/-- What a call comes to: it keeps the error, or returns false. -/
theorem validationErrorsAdd_served (h : Served errors) (fresh : ℕ → ℕ → ValidationError)
    (call : Bytes × Bytes) :
    ∃ ok later, validationErrorsAdd fresh errors (some call.1) (some call.2) = (ok, later) ∧
      (ok = true ↔ StorableCall call ∧ errors.array.length ≠ validationErrorsMost) ∧ Served later ∧
      (ok = true → later.array.items = errors.array.items ++ [storedError call]) := by
  obtain ⟨⟨arena, harena, hserving⟩, hdoubled⟩ := h
  obtain ⟨granted, hgrant, hgranted⟩ := served_grant hserving (errors.array.Asks 4 validationCapacityLimit)
  obtain ⟨hfield, hcopied⟩ := stringFromIn_serving hgranted call.1
  obtain ⟨hmessage, hlast⟩ := stringFromIn_serving hcopied call.2
  unfold validationErrorsAdd
  rw [harena]
  dsimp only
  rw [hgrant]
  dsimp only
  cases hroom : errors.array.room 4 validationCapacityLimit (by decide) true (fresh arena.requests) with
  | none =>
    have hstuck : errors.array.length = validationErrorsMost := by
      rcases Growing.room_none.mp hroom with hstuck | ⟨-, hrefused⟩
      · exact (stuck_iff_most hdoubled).mp hstuck
      · cases hrefused
    refine ⟨false, _, rfl, ?_, ⟨⟨granted, rfl, hgranted⟩, hdoubled⟩, fun hfalse => ?_⟩
    · exact iff_of_false Bool.false_ne_true fun hboth => hboth.2 hstuck
    · exact (Bool.false_ne_true hfalse).elim
  | some grown =>
    have hnotStuck : errors.array.length ≠ validationErrorsMost := by
      intro hmost
      rw [Growing.room_none.mpr (.inl ((stuck_iff_most hdoubled).mpr hmost))] at hroom
      cases hroom
    have hgrown := Growing.room_doubled (by decide) hdoubled hroom
    have hitems := Growing.room_items hroom
    obtain ⟨array, hspace⟩ := grown
    dsimp only at hgrown hitems ⊢
    rw [hfield, hmessage]
    by_cases hstorable : StorableCall call
    · rw [if_pos hstorable.1, if_pos hstorable.2, if_neg (by simp)]
      refine ⟨true, _, rfl, iff_of_true rfl ⟨hstorable, hnotStuck⟩,
        ⟨⟨_, rfl, hlast⟩, Growing.put_doubled hgrown _ hspace⟩, fun _ => ?_⟩
      dsimp only
      rw [Growing.put_items, hitems]
      rfl
    · rw [if_pos]
      · exact ⟨false, _, rfl, iff_of_false Bool.false_ne_true fun hboth => hstorable hboth.1,
          ⟨⟨_, rfl, hlast⟩, hgrown⟩, fun hfalse => (Bool.false_ne_true hfalse).elim⟩
      · by_contra hboth
        rw [not_or] at hboth
        exact hstorable ⟨by_contra fun hno => hboth.1 (if_neg hno), by_contra fun hno => hboth.2 (if_neg hno)⟩

/-- The calls all return true exactly where their texts can be stored and the array does not
come to its end; then each error stands behind those before it. -/
theorem validationErrorsAddAll_served (h : Served errors) (fresh : ℕ → ℕ → ValidationError)
    (calls : List (Bytes × Bytes)) (hfits : errors.array.length ≤ validationErrorsMost) :
    ((validationErrorsAddAll fresh errors calls).1 = (calls.map fun _ => true) ↔
      (∀ call ∈ calls, StorableCall call) ∧ errors.array.length + calls.length ≤ validationErrorsMost) ∧
    ((validationErrorsAddAll fresh errors calls).1 = (calls.map fun _ => true) →
      (validationErrorsAddAll fresh errors calls).2.array.items =
        errors.array.items ++ calls.map storedError) := by
  induction calls generalizing errors with
  | nil =>
    rw [validationErrorsAddAll, List.map_nil, List.map_nil, List.append_nil]
    exact ⟨iff_of_true rfl ⟨List.forall_mem_nil _, hfits⟩, fun _ => rfl⟩
  | cons call calls ih =>
    obtain ⟨ok, later, hadd, hok, hlater, hitems⟩ := validationErrorsAdd_served h fresh call
    rw [validationErrorsAddAll, hadd, List.map_cons, List.map_cons, List.length_cons, List.forall_mem_cons]
    dsimp only
    rw [List.cons.injEq]
    cases ok with
    | false =>
      refine ⟨iff_of_false (fun hboth => Bool.false_ne_true hboth.1) fun hboth => ?_,
        fun hboth => (Bool.false_ne_true hboth.1).elim⟩
      exact Bool.false_ne_true (hok.mpr ⟨hboth.1.1, by omega⟩)
    | true =>
      have hnext := hitems rfl
      have hlength : later.array.length = errors.array.length + 1 := by
        rw [← Growing.items_length, hnext, List.length_append, Growing.items_length, List.length_singleton]
      have hroom := (hok.mp rfl).2
      obtain ⟨hiff, hall⟩ := ih hlater (by omega)
      refine ⟨?_, fun hboth => ?_⟩
      · rw [and_iff_right rfl, hiff, and_iff_right (hok.mp rfl).1, hlength]
        refine and_congr_right fun _ => ?_
        omega
      · rw [hall hboth.2, hnext, List.append_assoc]
        rfl

theorem validationErrorFor_stored (hitems : errors.array.items = calls.map storedError) (field : Bytes) :
    validationErrorFor (some errors) field =
      ((calls.find? fun call => call.1 == field).map Prod.snd).getD [] := by
  rw [validationErrorFor, Option.bind_some, hitems, List.find?_map, Option.map_map]
  rfl

theorem itemField_stored (hitems : errors.array.items = calls.map storedError) {index : ℕ}
    (hcall : calls[index]? = some call) :
    itemField (validationErrorsView errors) index (sv "field") = some (.string call.1) ∧
      itemField (validationErrorsView errors) index (sv "message") = some (.string call.2) := by
  have hlength : errors.array.length = calls.length := by
    rw [← Growing.items_length, hitems, List.length_map]
  have hindex : index < errors.array.length := by
    rw [hlength]
    exact (List.getElem?_eq_some_iff.mp hcall).1
  have hslot : errors.array.slots[index]? = some (storedError call) := by
    rw [Growing.slots_getElem? _ hindex, hitems, List.getElem?_map, hcall, Option.map_some]
  have hsome : errors.array.capacity ≠ 0 := by
    have hfits : errors.array.length ≤ errors.array.capacity := errors.array.fits
    omega
  have hoffset : (index * sizeofValidationError + 0) / sizeofValidationError = index ∧
      (index * sizeofValidationError + 56) / sizeofValidationError = index ∧
      (index * sizeofValidationError + 0) % sizeofValidationError = 0 ∧
      (index * sizeofValidationError + 56) % sizeofValidationError = 56 := by
    unfold sizeofValidationError
    omega
  have hrecord : (slotsRecord errors.array.slots).string (index * sizeofValidationError + 0) = call.1 ∧
      (slotsRecord errors.array.slots).string (index * sizeofValidationError + 56) = call.2 := by
    unfold slotsRecord
    dsimp only
    rw [hoffset.1, hoffset.2.1, hoffset.2.2.1, hoffset.2.2.2, hslot]
    exact ⟨rfl, rfl⟩
  unfold itemField validationErrorsView
  rw [if_neg hsome]
  constructor
  · exact congrArg (fun text => some (ViewValue.string text)) hrecord.1
  · exact congrArg (fun text => some (ViewValue.string text)) hrecord.2

theorem kept_of_items {answers : List Bool} (hanswers : answers = calls.map fun _ => true)
    (hitems : errors.array.items = calls.map storedError) : Kept calls answers errors := by
  have hlength : errors.array.length = calls.length := by
    rw [← Growing.items_length, hitems, List.length_map]
  refine ⟨hanswers, hlength, ?_, ⟨hlength, fun index call hcall => itemField_stored hitems hcall⟩,
    validationErrorFor_stored hitems⟩
  rw [validationErrorsAny, Option.any_some, decide_eq_true_eq, hlength]
  exact List.length_pos_iff

/-- With an arena that serves every request, errors are kept exactly where no field and no message
is empty, and as long as the array can grow. -/
theorem validationErrors_kept_iff (fresh : ℕ → ℕ → ValidationError) (calls : List (Bytes × Bytes)) :
    Kept calls (validationErrorsAddAll fresh (validationErrorsInit (some servingArena)) calls).1
        (validationErrorsAddAll fresh (validationErrorsInit (some servingArena)) calls).2 ↔
      (∀ call ∈ calls, Storable call.1 ∧ Storable call.2) ∧ calls.length ≤ validationErrorsMost := by
  have hserved : Served (validationErrorsInit (some servingArena)) :=
    ⟨⟨servingArena, rfl, fun _ => rfl⟩, Growing.empty_doubled _ _⟩
  have hempty : (validationErrorsInit (some servingArena)).array.length = 0 := rfl
  obtain ⟨hiff, hitems⟩ := validationErrorsAddAll_served hserved fresh calls (by rw [hempty]; exact Nat.zero_le _)
  rw [hempty, Nat.zero_add] at hiff
  refine Iff.trans ⟨fun h => h.answers, fun h => kept_of_items h ?_⟩ hiff
  rw [hitems h]
  rfl

/-- An error without a text is dropped. -/
theorem validationErrors_drops_empty :
    ∃ errors, validationErrorsAddAll (fun _ _ => ⟨none, none⟩) (validationErrorsInit (some servingArena))
        [(sv "name", [])] = ([false], errors) ∧ validationErrorsAny (some errors) = false ∧
      ¬ Kept [(sv "name", [])] [false] errors := by
  refine ⟨_, Prod.ext rfl rfl, by decide, fun h => ?_⟩
  exact Bool.false_ne_true (List.cons.inj h.answers).1

end Ceasy.Validation
