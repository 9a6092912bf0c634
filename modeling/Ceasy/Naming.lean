import Ceasy.Model

set_option autoImplicit false

/-!
# Names of models and fields

What the generator makes of a model's name and of its field specifications. A
fixed buffer is a capacity, which counts the terminator.
-/
namespace Ceasy.Generator
open StringView Model

def CEASY_NAME_CAPACITY : ℕ := 128

def CEASY_FIELD_CAPACITY : ℕ := 64

structure Naming where
  typeName : Bytes
  singular : Bytes
  plural : Bytes
  tableName : Bytes
  fileStem : Bytes
  includeGuard : Bytes
deriving DecidableEq, Repr

structure FieldSpec where
  name : Bytes
  type : ModelFieldType
  typeName : Bytes
deriving DecidableEq, Repr

def namingError (errorSize : ℕ) (before value after : Bytes) : Bytes :=
  (before ++ value ++ after).take (errorSize - 1)

def namingCopy (capacity : ℕ) (source : Bytes) : Option Bytes :=
  if capacity < source.length + 1 then none else some source

def reservedWords : List Bytes :=
  ["auto", "break", "case", "char", "const", "continue", "default", "do", "double", "else", "enum",
    "extern", "float", "for", "goto", "if", "inline", "int", "long", "register", "restrict", "return",
    "short", "signed", "sizeof", "static", "struct", "switch", "typedef", "union", "unsigned", "void",
    "volatile", "while", "_Alignas", "_Alignof", "_Atomic", "_Bool", "_Complex", "_Generic",
    "_Imaginary", "_Noreturn", "_Static_assert", "_Thread_local"].map sv

def namingReserved (value : Bytes) : Bool := reservedWords.any (stringvEqual value)

def isupper (c : UInt8) : Bool := ch 'A' ≤ c && c ≤ ch 'Z'

def islower (c : UInt8) : Bool := ch 'a' ≤ c && c ≤ ch 'z'

def isdigit (c : UInt8) : Bool := ch '0' ≤ c && c ≤ ch '9'

def tolower (c : UInt8) : UInt8 := stringvAsciiLower c

def toupper (c : UInt8) : UInt8 := if islower c then c - (ch 'a' - ch 'A') else c

def namingFieldValid (name : Bytes) : Bool :=
  (name.head?.any islower) && name.getLast? != some (ch '_') &&
    (name.all fun c => islower c || isdigit c || c == ch '_') && !namingReserved name

def namingModelValid (name : Bytes) : Bool :=
  name.head?.any isupper && name.all fun c => isupper c || islower c || isdigit c

/-- One character more, while there is room for it and the terminator. -/
def namingPut (capacity : ℕ) (output : Bytes) (c : UInt8) : Option Bytes :=
  if capacity ≤ output.length + 1 then none else some (output ++ [c])

/-- A capital begins a word behind a small letter and before one. -/
def namingSnakeLoop (capacity : ℕ) (previous : Option UInt8) : Bytes → Bytes → Option Bytes
  | [], output => some output
  | c :: rest, output =>
    let boundary := previous.any fun previous =>
      isupper c && (islower previous || rest.head?.any islower)
    ((if boundary then namingPut capacity output (ch '_') else some output).bind fun output =>
      namingPut capacity output (tolower c)).bind fun output =>
        namingSnakeLoop capacity (some c) rest output

def namingSnake (capacity : ℕ) (source : Bytes) : Option Bytes :=
  (namingSnakeLoop capacity none source []).filter fun output => 0 < output.length

def namingPluralize (capacity : ℕ) (singular : Bytes) : Option Bytes :=
  let last := singular.getLast?
  let before := singular.dropLast.getLast?
  let es := last = some (ch 's') ∨ last = some (ch 'x') ∨ last = some (ch 'z') ∨
    before = some (ch 'c') ∧ last = some (ch 'h') ∨ before = some (ch 's') ∧ last = some (ch 'h')
  let yRule := last = some (ch 'y') ∧ before.any fun c => !(sv "aeiou").contains c
  let suffix := if es ∨ yRule then 2 else 1
  if capacity < singular.length + suffix + 1 then none
  else if yRule then some (singular.dropLast ++ sv "ies")
  else if es then some (singular ++ sv "es")
  else some (singular ++ sv "s")

/-- The characters in capitals, and what is left of the buffer for the suffix. -/
def namingGuard (fileStem : Bytes) : Option Bytes :=
  if CEASY_NAME_CAPACITY ≤ fileStem.length then none
  else some (fileStem.map toupper ++
    (sv "_MODEL_H").take (CEASY_NAME_CAPACITY - fileStem.length - 1))

def namingModel (errorSize : ℕ) (modelName : Bytes) : Except (Option Bytes) Naming :=
  if !namingModelValid modelName then
    .error (some (namingError errorSize (sv "invalid model name '") modelName (sv "'")))
  else
    let names := do
      let typeName ← namingCopy CEASY_NAME_CAPACITY modelName
      let singular ← namingSnake CEASY_NAME_CAPACITY modelName
      let plural ← namingPluralize CEASY_NAME_CAPACITY singular
      let tableName ← namingCopy CEASY_NAME_CAPACITY plural
      let fileStem ← namingCopy CEASY_NAME_CAPACITY singular
      return (typeName, singular, plural, tableName, fileStem)
    match names with
    | none =>
      .error (some (namingError errorSize (sv "model name '") modelName (sv "' is too long")))
    | some (typeName, singular, plural, tableName, fileStem) =>
      match namingGuard fileStem with
      | none => .error none
      | some includeGuard =>
        .ok { typeName, singular, plural, tableName, fileStem, includeGuard }

def namingParseType (capacity : ℕ) (name : Bytes) : Option (ModelFieldType × Bytes) :=
  if name = sv "string" ∨ name = sv "text" then (namingCopy capacity name).map fun copy => (.string, copy)
  else if name = sv "int64" ∨ name = sv "integer" then
    (namingCopy capacity name).map fun copy => (.int64, copy)
  else if name = sv "bool" then (namingCopy capacity name).map fun copy => (.bool, copy)
  else none

/-- The buffer of a type's name in `naming_parse_fields`. -/
def TYPE_NAME_CAPACITY : ℕ := 32

def modelReserved (name : Bytes) : Bool :=
  name = sv "id" || name = sv "created_at" || name = sv "updated_at"

/-- One turn of the loop of `naming_parse_fields`, behind the fields that are there. -/
def namingParseField (errorSize : ℕ) (fields : List FieldSpec) (argument : Bytes) :
    Except Bytes FieldSpec :=
  let invalid := namingError errorSize (sv "invalid field specification '") argument (sv "'")
  match stringvSplitOnceChar argument (ch ':') with
  | none => .error invalid
  | some (fieldName, typeName) =>
    if fieldName = [] ∨ typeName = [] ∨ ch ':' ∈ typeName then .error invalid
    else if CEASY_NAME_CAPACITY < fieldName.length + 1 ∨ TYPE_NAME_CAPACITY < typeName.length + 1 then
      .error invalid
    else if !namingFieldValid fieldName then
      .error (namingError errorSize (sv "invalid field name '") fieldName (sv "'"))
    else if modelReserved fieldName then
      .error (namingError errorSize (sv "reserved model field '") fieldName (sv "'"))
    else
      match namingParseType TYPE_NAME_CAPACITY typeName with
      | none => .error (namingError errorSize (sv "unsupported model field type '") typeName (sv "'"))
      | some (type, canonical) =>
        if fields.any fun field => field.name = fieldName then
          .error (namingError errorSize (sv "duplicate model field '") fieldName (sv "'"))
        else if fields.length = CEASY_FIELD_CAPACITY then
          .error (namingError errorSize (sv "too many model fields '") fieldName (sv "'"))
        else .ok { name := fieldName, type := type, typeName := canonical }

def namingParseFieldsLoop (errorSize : ℕ) : List CString → List FieldSpec → Except Bytes (List FieldSpec)
  | [], fields => .ok fields
  | argument :: arguments, fields =>
    match namingParseField errorSize fields argument.bytes with
    | .error message => .error message
    | .ok field => namingParseFieldsLoop errorSize arguments (fields ++ [field])

def namingParseFields (errorSize : ℕ) (arguments : List CString) : Except Bytes (List FieldSpec) :=
  namingParseFieldsLoop errorSize arguments []

/-- Small letters, digits and underscores, and at least one. -/
structure Identifier (name : Bytes) : Prop where
  some : name ≠ []
  small : ∀ c ∈ name, (islower c || isdigit c || c == ch '_') = true

theorem identifier_iff {name : Bytes} :
    Identifier name ↔ name ≠ [] ∧ (name.all fun c => islower c || isdigit c || c == ch '_') = true :=
  ⟨fun h => ⟨h.some, List.all_eq_true.mpr h.small⟩, fun h => ⟨h.1, List.all_eq_true.mp h.2⟩⟩

theorem namingFieldValid_identifier {name : Bytes} (h : namingFieldValid name = true) :
    Identifier name := by
  unfold namingFieldValid at h
  simp only [Bool.and_eq_true, List.all_eq_true] at h
  refine ⟨?_, h.1.2⟩
  rintro rfl
  exact absurd h.1.1.1 (by decide)

/-- What `naming_parse_fields` has made sure of. -/
structure FieldsValid (fields : List FieldSpec) : Prop where
  valid : ∀ field ∈ fields, namingFieldValid field.name = true ∧ modelReserved field.name = false
  distinct : (fields.map FieldSpec.name).Nodup
  few : fields.length ≤ CEASY_FIELD_CAPACITY

theorem namingParseField_ok {errorSize : ℕ} {fields : List FieldSpec} {argument : Bytes}
    {field : FieldSpec} (h : namingParseField errorSize fields argument = .ok field) :
    namingFieldValid field.name = true ∧ modelReserved field.name = false ∧
      (∀ other ∈ fields, other.name ≠ field.name) ∧ fields.length ≠ CEASY_FIELD_CAPACITY := by
  unfold namingParseField at h
  split at h
  · cases h
  · next fieldName typeName _ =>
    split_ifs at h with _ _ hvalid hreserved hduplicate hfull
    · split at h <;> cases h
    · split at h <;> cases h
    · split at h
      · cases h
      · cases h
        rw [Bool.not_eq_true', Bool.not_eq_false] at hvalid
        rw [Bool.not_eq_true] at hreserved
        refine ⟨hvalid, hreserved, fun other hother hname => hduplicate ?_, hfull⟩
        exact List.any_eq_true.mpr ⟨other, hother, decide_eq_true hname⟩

theorem FieldsValid.snoc {fields : List FieldSpec} {errorSize : ℕ} {argument : Bytes} {field : FieldSpec}
    (hfields : FieldsValid fields) (h : namingParseField errorSize fields argument = .ok field) :
    FieldsValid (fields ++ [field]) := by
  obtain ⟨hvalid, hreserved, hdistinct, hfull⟩ := namingParseField_ok h
  refine ⟨?_, ?_, ?_⟩
  · intro other hother
    rcases List.mem_append.mp hother with hother | hother
    · exact hfields.valid other hother
    · rw [List.mem_singleton.mp hother]
      exact ⟨hvalid, hreserved⟩
  · rw [List.map_append, List.nodup_append]
    refine ⟨hfields.distinct, List.nodup_singleton _, ?_⟩
    intro name hname other hother
    obtain ⟨earlier, hearlier, rfl⟩ := List.mem_map.mp hname
    rw [List.mem_singleton.mp hother]
    exact hdistinct earlier hearlier
  · have hfew := hfields.few
    rw [List.length_append, List.length_singleton]
    omega

theorem namingParseFieldsLoop_valid {errorSize : ℕ} {arguments : List CString}
    {before fields : List FieldSpec} (hbefore : FieldsValid before)
    (h : namingParseFieldsLoop errorSize arguments before = .ok fields) : FieldsValid fields := by
  induction arguments generalizing before with
  | nil =>
    cases h
    exact hbefore
  | cons argument arguments ih =>
    rw [namingParseFieldsLoop] at h
    split at h
    · cases h
    · next field hfield => exact ih (hbefore.snoc hfield) h

theorem namingParseFields_valid {errorSize : ℕ} {arguments : List CString} {fields : List FieldSpec}
    (h : namingParseFields errorSize arguments = .ok fields) : FieldsValid fields :=
  namingParseFieldsLoop_valid ⟨fun _ hmem => absurd hmem List.not_mem_nil, List.nodup_nil,
    Nat.zero_le _⟩ h

theorem namingPut_some {capacity : ℕ} {output next : Bytes} {c : UInt8}
    (h : namingPut capacity output c = some next) : next = output ++ [c] := by
  unfold namingPut at h
  split_ifs at h
  exact (Option.some.inj h).symm

theorem tolower_small {c : UInt8} (h : (isupper c || islower c || isdigit c) = true) :
    (islower (tolower c) || isdigit (tolower c) || tolower c == ch '_') = true := by
  revert h
  revert c
  have hall : ∀ n < 256, (isupper (UInt8.ofNat n) || islower (UInt8.ofNat n) ||
      isdigit (UInt8.ofNat n)) = true → (islower (tolower (UInt8.ofNat n)) ||
        isdigit (tolower (UInt8.ofNat n)) || tolower (UInt8.ofNat n) == ch '_') = true := by
    decide +kernel
  intro c h
  have hc := hall c.toNat (UInt8.toNat_lt c)
  rw [UInt8.ofNat_toNat] at hc
  exact hc h

theorem namingSnakeLoop_small {capacity : ℕ} {source output result : Bytes} {previous : Option UInt8}
    (hsource : ∀ c ∈ source, (isupper c || islower c || isdigit c) = true)
    (houtput : ∀ c ∈ output, (islower c || isdigit c || c == ch '_') = true)
    (h : namingSnakeLoop capacity previous source output = some result) :
    ∀ c ∈ result, (islower c || isdigit c || c == ch '_') = true := by
  induction source generalizing previous output with
  | nil =>
    cases h
    exact houtput
  | cons c source ih =>
    rw [namingSnakeLoop, Option.bind_eq_some_iff] at h
    obtain ⟨next, hnext, hloop⟩ := h
    rw [Option.bind_eq_some_iff] at hnext
    obtain ⟨middle, hmiddle, hput⟩ := hnext
    have hmiddle' : ∀ d ∈ middle, (islower d || isdigit d || d == ch '_') = true := by
      split_ifs at hmiddle
      · rw [namingPut_some hmiddle]
        intro d hd
        rcases List.mem_append.mp hd with hd | hd
        · exact houtput d hd
        · rw [List.mem_singleton.mp hd]
          decide
      · rw [← Option.some.inj hmiddle]
        exact houtput
    apply ih (fun d hd => hsource d (List.mem_cons_of_mem c hd)) _ hloop
    rw [namingPut_some hput]
    intro d hd
    rcases List.mem_append.mp hd with hd | hd
    · exact hmiddle' d hd
    · rw [List.mem_singleton.mp hd]
      exact tolower_small (hsource c List.mem_cons_self)

theorem namingSnake_identifier {capacity : ℕ} {source result : Bytes}
    (hsource : ∀ c ∈ source, (isupper c || islower c || isdigit c) = true)
    (h : namingSnake capacity source = some result) : Identifier result := by
  rw [namingSnake, Option.filter_eq_some_iff] at h
  refine ⟨?_, namingSnakeLoop_small hsource (fun _ hmem => absurd hmem List.not_mem_nil) h.1⟩
  rintro rfl
  exact absurd h.2 (by decide)

theorem Identifier.append {name suffix : Bytes} (h : ∀ c ∈ name,
    (islower c || isdigit c || c == ch '_') = true) (hsuffix : Identifier suffix) :
    Identifier (name ++ suffix) := by
  refine ⟨List.append_ne_nil_of_right_ne_nil _ hsuffix.some, fun c hc => ?_⟩
  exact (List.mem_append.mp hc).elim (h c) (hsuffix.small c)

theorem namingPluralize_identifier {capacity : ℕ} {singular plural : Bytes}
    (hsingular : Identifier singular) (h : namingPluralize capacity singular = some plural) :
    Identifier plural := by
  unfold namingPluralize at h
  dsimp only at h
  split_ifs at h
  all_goals rw [← Option.some.inj h]
  all_goals first
    | exact .append (fun c hc => hsingular.small c (List.mem_of_mem_dropLast hc))
        (identifier_iff.mpr (by decide))
    | exact .append hsingular.small (identifier_iff.mpr (by decide))

theorem namingModel_plural {errorSize : ℕ} {modelName : Bytes} {naming : Naming}
    (h : namingModel errorSize modelName = .ok naming) : Identifier naming.plural := by
  unfold namingModel at h
  split_ifs at h with hvalid
  rw [Bool.not_eq_true', Bool.not_eq_false, namingModelValid, Bool.and_eq_true, List.all_eq_true] at hvalid
  dsimp only at h
  split at h
  · cases h
  · next hnames =>
    split at h
    · cases h
    · cases h
      simp only [Option.bind_eq_bind, Option.bind_eq_some_iff, Option.pure_def, Option.some.injEq,
        Prod.mk.injEq] at hnames
      obtain ⟨typeName, -, singular, hsingular, plural, hplural, tableName, -, fileStem, -, -, -, rfl,
        -⟩ := hnames
      exact namingPluralize_identifier (namingSnake_identifier hvalid.2 hsingular) hplural

end Ceasy.Generator
