import Ceasy.Generator

set_option autoImplicit false

/-!
# Legal names

Which of the names that the generator writes as C identifiers are legal. The table of reserved
words is consulted for the fields only, and has none of the macros of `stdbool.h`.
-/
namespace Ceasy.Generator
open StringView Model

def cKeywords : List Bytes :=
  ["auto", "break", "case", "char", "const", "continue", "default", "do", "double", "else", "enum",
    "extern", "float", "for", "goto", "if", "inline", "int", "long", "register", "restrict", "return",
    "short", "signed", "sizeof", "static", "struct", "switch", "typedef", "union", "unsigned", "void",
    "volatile", "while", "_Alignas", "_Alignof", "_Atomic", "_Bool", "_Complex", "_Generic",
    "_Imaginary", "_Noreturn", "_Static_assert", "_Thread_local"].map sv

/-- The macros of `stdbool.h`. -/
def boolMacros : List Bytes := ["bool", "true", "false"].map sv

def isNondigit (c : UInt8) : Bool := isupper c || islower c || c == ch '_'

structure CIdentifier (name : Bytes) : Prop where
  head : name.head?.any isNondigit = true
  all : ∀ c ∈ name, (isNondigit c || isdigit c) = true

/-- An identifier that a program may declare where `stdbool.h` is included. -/
structure LegalName (name : Bytes) : Prop where
  identifier : CIdentifier name
  noKeyword : name ∉ cKeywords
  noMacro : name ∉ boolMacros

def Fits (capacity : ℕ) (name : Bytes) : Prop := name.length + 1 ≤ capacity

instance (capacity : ℕ) (name : Bytes) : Decidable (Fits capacity name) := inferInstanceAs (Decidable (_ ≤ _))

/-- The buffer of a type's name in a `FieldSpec`. -/
def FIELD_TYPE_CAPACITY : ℕ := 16

structure NamesFit (naming : Naming) (fields : List FieldSpec) : Prop where
  ofModel : ∀ name ∈ [naming.typeName, naming.singular, naming.plural, naming.tableName, naming.fileStem,
    naming.includeGuard], Fits CEASY_NAME_CAPACITY name
  ofFields : ∀ field ∈ fields, Fits CEASY_NAME_CAPACITY field.name ∧ Fits FIELD_TYPE_CAPACITY field.typeName

/-- What the generated files need of their names. -/
structure LegalNames (naming : Naming) (fields : List FieldSpec) : Prop where
  typeName : LegalName naming.typeName
  singular : LegalName naming.singular
  plural : LegalName naming.plural
  members : ∀ field ∈ fields, LegalName field.name
  distinct : ((generatedMembers fields).map Prod.fst).Nodup
  fit : NamesFit naming fields

def capitalized : Bytes → Bytes
  | [] => []
  | c :: rest => toupper c :: rest

/-- A reserved word with an initial capital, or in capitals throughout. -/
def ReservedModel (modelName : Bytes) : Prop :=
  ∃ word ∈ cKeywords ++ boolMacros, modelName = capitalized word ∨ modelName = word.map toupper

def namingBoundary (previous : Option UInt8) (c : UInt8) (rest : Bytes) : Bool :=
  previous.any fun previous => isupper c && (islower previous || rest.head?.any islower)

def Unbroken : Option UInt8 → Bytes → Prop
  | _, [] => True
  | previous, c :: rest => namingBoundary previous c rest = false ∧ Unbroken (some c) rest

theorem namingSnakeLoop_cons {capacity : ℕ} {previous : Option UInt8} {c : UInt8} {rest output result : Bytes}
    (h : namingSnakeLoop capacity previous (c :: rest) output = some result) :
    namingSnakeLoop capacity (some c) rest
        (output ++ (if namingBoundary previous c rest then [ch '_'] else []) ++ [tolower c]) = some result ∧
      (output ++ (if namingBoundary previous c rest then [ch '_'] else []) ++ [tolower c]).length + 1 ≤ capacity := by
  rw [namingSnakeLoop, Option.bind_eq_some_iff] at h
  obtain ⟨next, hnext, hloop⟩ := h
  rw [Option.bind_eq_some_iff] at hnext
  obtain ⟨middle, hmiddle, hput⟩ := hnext
  have hboundary : middle = output ++ if namingBoundary previous c rest then [ch '_'] else [] := by
    unfold namingBoundary
    split_ifs at hmiddle ⊢
    · exact namingPut_some hmiddle
    · rw [List.append_nil]
      exact (Option.some.inj hmiddle).symm
  have hlength : next.length + 1 ≤ capacity := by
    unfold namingPut at hput
    split_ifs at hput
    rw [← Option.some.inj hput, List.length_append, List.length_singleton]
    omega
  rw [← hboundary, ← namingPut_some hput]
  exact ⟨hloop, hlength⟩

theorem namingSnakeLoop_begins {capacity : ℕ} {previous : Option UInt8} {source output result : Bytes}
    (h : namingSnakeLoop capacity previous source output = some result)
    (hfits : output.length + 1 ≤ capacity) : output <+: result ∧ result.length + 1 ≤ capacity := by
  induction source generalizing previous output with
  | nil =>
    obtain rfl := Option.some.inj h
    exact ⟨List.prefix_refl _, hfits⟩
  | cons c rest ih =>
    obtain ⟨hloop, hnext⟩ := namingSnakeLoop_cons h
    obtain ⟨hbegins, hlength⟩ := ih hloop hnext
    rw [List.append_assoc] at hbegins
    exact ⟨(List.prefix_append _ _).trans hbegins, hlength⟩

theorem namingSnakeLoop_unbroken {capacity : ℕ} {previous : Option UInt8} {source output result : Bytes}
    (h : namingSnakeLoop capacity previous source output = some result) (hunderscore : ch '_' ∉ result) :
    result = output ++ source.map tolower ∧ Unbroken previous source := by
  induction source generalizing previous output with
  | nil =>
    obtain rfl := Option.some.inj h
    exact ⟨(List.append_nil _).symm, trivial⟩
  | cons c rest ih =>
    obtain ⟨hloop, hfits⟩ := namingSnakeLoop_cons h
    have hboundary : namingBoundary previous c rest = false := by
      by_contra hno
      rw [Bool.not_eq_false] at hno
      rw [hno, if_pos rfl] at hloop hfits
      have hbegins := (namingSnakeLoop_begins hloop hfits).1
      exact hunderscore (hbegins.subset (List.mem_append_left _ (List.mem_append_right _ List.mem_cons_self)))
    rw [hboundary, if_neg Bool.false_ne_true, List.append_nil] at hloop
    obtain ⟨hresult, hrest⟩ := ih hloop
    refine ⟨?_, hboundary, hrest⟩
    rw [hresult, List.append_assoc]
    rfl

theorem tolower_islower : ∀ c : UInt8, islower c = true → tolower c = c := by
  decide +kernel

theorem toupper_tolower : ∀ c : UInt8, isupper c = true → toupper (tolower c) = c := by
  decide +kernel

theorem tolower_letter : ∀ c : UInt8, islower (tolower c) = true → (isupper c || islower c) = true := by
  decide +kernel

theorem tolower_isupper : ∀ c : UInt8, isupper c = true → islower (tolower c) = true := by
  decide +kernel

theorem unbroken_small {previous : UInt8} {rest : Bytes} (h : Unbroken (some previous) rest)
    (hprevious : islower previous = true) (hletters : ∀ c ∈ rest, (isupper c || islower c) = true) :
    ∀ c ∈ rest, islower c = true := by
  induction rest generalizing previous with
  | nil => exact List.forall_mem_nil _
  | cons c rest ih =>
    obtain ⟨hboundary, hrest⟩ := h
    have hc : islower c = true := by
      have hletter := hletters c List.mem_cons_self
      cases hupper : isupper c with
      | false =>
        rw [hupper, Bool.false_or] at hletter
        exact hletter
      | true =>
        rw [namingBoundary, Option.any_some, hupper, hprevious] at hboundary
        cases hboundary
    rw [List.forall_mem_cons]
    exact ⟨hc, ih hrest hc fun d hd => hletters d (List.mem_cons_of_mem c hd)⟩

theorem unbroken_capitals {previous c : UInt8} {rest : Bytes} (h : Unbroken (some previous) (c :: rest))
    (hc : isupper c = true) (hletters : ∀ d ∈ rest, (isupper d || islower d) = true) :
    ∀ d ∈ rest, isupper d = true := by
  induction rest generalizing previous c with
  | nil => exact List.forall_mem_nil _
  | cons d rest ih =>
    obtain ⟨hboundary, hrest⟩ := h
    have hd : isupper d = true := by
      have hletter := hletters d List.mem_cons_self
      cases hupper : isupper d with
      | true => rfl
      | false =>
        rw [hupper, Bool.false_or] at hletter
        rw [namingBoundary, Option.any_some, hc, List.head?_cons, Option.any_some, hletter, Bool.or_true] at hboundary
        cases hboundary
    rw [List.forall_mem_cons]
    exact ⟨hd, ih hrest hd fun e he => hletters e (List.mem_cons_of_mem d he)⟩

/-- A name whose letters are broken nowhere is the word with an initial capital or in capitals. -/
theorem unbroken_cases {modelName word : Bytes} (hhead : modelName.head?.any isupper = true)
    (hunbroken : Unbroken none modelName) (hword : modelName.map tolower = word)
    (hsmall : ∀ c ∈ word, islower c = true) :
    modelName = capitalized word ∨ modelName = word.map toupper := by
  have hletters : ∀ c ∈ modelName, (isupper c || islower c) = true := by
    intro c hc
    refine tolower_letter c (hsmall _ ?_)
    rw [← hword]
    exact List.mem_map_of_mem hc
  have hcapitals : ∀ {text : Bytes}, (∀ c ∈ text, isupper c = true) → (text.map tolower).map toupper = text := by
    intro text htext
    rw [List.map_map]
    exact (List.map_congr_left fun c hc => toupper_tolower c (htext c hc)).trans (List.map_id text)
  cases modelName with
  | nil => cases hhead
  | cons first rest =>
    have hfirst : isupper first = true := hhead
    obtain ⟨-, hrest⟩ := hunbroken
    rw [List.forall_mem_cons] at hletters
    subst hword
    cases rest with
    | nil => exact .inr (hcapitals (by rw [List.forall_mem_cons]; exact ⟨hfirst, List.forall_mem_nil _⟩)).symm
    | cons c rest =>
      have hlater := hletters.2
      rw [List.forall_mem_cons] at hlater
      cases hupper : isupper c with
      | true =>
        right
        refine (hcapitals ?_).symm
        rw [List.forall_mem_cons, List.forall_mem_cons]
        exact ⟨hfirst, hupper, unbroken_capitals hrest hupper hlater.2⟩
      | false =>
        left
        have hc : islower c = true := by
          have hletter := hlater.1
          rwa [hupper, Bool.false_or] at hletter
        have hsame : (c :: rest).map tolower = c :: rest := by
          have htail := unbroken_small hrest.2 hc hlater.2
          refine (List.map_congr_left fun d hd => tolower_islower d ?_).trans (List.map_id _)
          rcases List.mem_cons.mp hd with rfl | hd
          · exact hc
          · exact htail d hd
        rw [List.map_cons, hsame, capitalized, toupper_tolower first hfirst]

theorem namingSnake_spec {capacity : ℕ} {modelName singular : Bytes} (hvalid : namingModelValid modelName = true)
    (h : namingSnake capacity modelName = some singular) :
    Identifier singular ∧ singular.head?.any islower = true ∧ singular.length + 1 ≤ capacity := by
  rw [namingModelValid, Bool.and_eq_true, List.all_eq_true] at hvalid
  refine ⟨namingSnake_identifier hvalid.2 h, ?_⟩
  rw [namingSnake, Option.filter_eq_some_iff] at h
  cases modelName with
  | nil => cases hvalid.1
  | cons first rest =>
    obtain ⟨hloop, hfits⟩ := namingSnakeLoop_cons h.1
    obtain ⟨⟨tail, rfl⟩, hlength⟩ := namingSnakeLoop_begins hloop hfits
    exact ⟨tolower_isupper first hvalid.1, hlength⟩

theorem pluralize_cases {capacity length : ℕ} {es yRule : Prop} [Decidable es] [Decidable yRule]
    {ies with_es with_s plural : Bytes}
    (h : (if capacity < length + (if es ∨ yRule then 2 else 1) + 1 then none
      else if yRule then some ies else if es then some with_es else some with_s) = some plural) :
    plural = ies ∧ yRule ∧ length + 3 ≤ capacity ∨ plural = with_es ∧ length + 3 ≤ capacity ∨
      plural = with_s ∧ length + 2 ≤ capacity := by
  by_cases hy : yRule
  · have hsuffix : (if es ∨ yRule then 2 else 1) = 2 := if_pos (.inr hy)
    rw [hsuffix, if_pos hy] at h
    split_ifs at h
    exact .inl ⟨(Option.some.inj h).symm, hy, by omega⟩
  · rw [if_neg hy] at h
    by_cases hes : es
    · have hsuffix : (if es ∨ yRule then 2 else 1) = 2 := if_pos (.inl hes)
      rw [hsuffix, if_pos hes] at h
      split_ifs at h
      exact .inr (.inl ⟨(Option.some.inj h).symm, by omega⟩)
    · have hsuffix : (if es ∨ yRule then 2 else 1) = 1 := if_neg (not_or.mpr ⟨hes, hy⟩)
      rw [hsuffix, if_neg hes] at h
      split_ifs at h
      exact .inr (.inr ⟨(Option.some.inj h).symm, by omega⟩)

/-- A plural is a stem of the singular and an ending in s. -/
structure PluralOf (singular plural : Bytes) : Prop where
  head : plural.head? = singular.head?
  last : plural.getLast? = some (ch 's')

theorem pluralOf_append {stem singular ending : Bytes} (hstem : stem ≠ []) (hhead : stem.head? = singular.head?)
    (hending : ending.getLast? = some (ch 's')) : PluralOf singular (stem ++ ending) := by
  constructor
  · rw [List.head?_append, hhead, Option.or_of_isSome]
    rw [← hhead]
    exact List.isSome_head?.mpr hstem
  · rw [List.getLast?_append, hending, Option.some_or]

theorem namingPluralize_spec {capacity : ℕ} {singular plural : Bytes} (hsingular : singular ≠ [])
    (h : namingPluralize capacity singular = some plural) :
    PluralOf singular plural ∧ plural.length + 1 ≤ capacity := by
  have hpositive := List.length_pos_iff.mpr hsingular
  rcases pluralize_cases h with ⟨rfl, hy, hfits⟩ | ⟨rfl, hfits⟩ | ⟨rfl, hfits⟩
  · have hstem : singular.dropLast ≠ [] := by
      intro hempty
      rw [hempty] at hy
      cases hy.2
    refine ⟨pluralOf_append hstem ?_ rfl, ?_⟩
    · cases singular with
      | nil => exact absurd rfl hsingular
      | cons first rest =>
        cases rest with
        | nil => exact absurd rfl hstem
        | cons second rest => rfl
    · rw [List.length_append, List.length_dropLast]
      have hending : (sv "ies").length = 3 := rfl
      omega
  · refine ⟨pluralOf_append hsingular rfl rfl, ?_⟩
    rw [List.length_append]
    have hending : (sv "es").length = 2 := rfl
    omega
  · refine ⟨pluralOf_append hsingular rfl rfl, ?_⟩
    rw [List.length_append]
    have hending : (sv "s").length = 1 := rfl
    omega

theorem namingCopy_fits {capacity : ℕ} {source copy : Bytes} (h : namingCopy capacity source = some copy) :
    copy = source ∧ Fits capacity copy := by
  unfold namingCopy at h
  split_ifs at h with hlong
  obtain rfl := Option.some.inj h
  exact ⟨rfl, Nat.not_lt.mp hlong⟩

theorem namingGuard_fits {fileStem includeGuard : Bytes} (h : namingGuard fileStem = some includeGuard) :
    Fits CEASY_NAME_CAPACITY includeGuard := by
  unfold namingGuard at h
  split_ifs at h with hlong
  obtain rfl := Option.some.inj h
  unfold Fits
  rw [List.length_append, List.length_map, List.length_take]
  have hcapacity : CEASY_NAME_CAPACITY = 128 := rfl
  omega

/-- What `naming_model` has made sure of. -/
structure ModelNamed (modelName : Bytes) (naming : Naming) : Prop where
  valid : namingModelValid modelName = true
  typeName : naming.typeName = modelName
  singular : namingSnake CEASY_NAME_CAPACITY modelName = some naming.singular
  plural : namingPluralize CEASY_NAME_CAPACITY naming.singular = some naming.plural
  fit : ∀ name ∈ [naming.typeName, naming.singular, naming.plural, naming.tableName, naming.fileStem,
    naming.includeGuard], Fits CEASY_NAME_CAPACITY name

theorem namingModel_named {errorSize : ℕ} {modelName : Bytes} {naming : Naming}
    (h : namingModel errorSize modelName = .ok naming) : ModelNamed modelName naming := by
  unfold namingModel at h
  split_ifs at h with hvalid
  rw [Bool.not_eq_true', Bool.not_eq_false] at hvalid
  dsimp only at h
  split at h
  · cases h
  · next hnames =>
    split at h
    · cases h
    · next hguard =>
      cases h
      simp only [Option.bind_eq_bind, Option.bind_eq_some_iff, Option.pure_def, Option.some.injEq,
        Prod.mk.injEq] at hnames
      obtain ⟨typeName, htype, singular, hsingular, plural, hplural, tableName, htable, fileStem, hstem, rfl, rfl,
        rfl, rfl, rfl⟩ := hnames
      obtain ⟨htypeName, htypeFits⟩ := namingCopy_fits htype
      have hspec := namingSnake_spec hvalid hsingular
      refine ⟨hvalid, htypeName, hsingular, hplural, ?_⟩
      simp only [List.forall_mem_cons, List.not_mem_nil, false_imp_iff, implies_true, and_true]
      exact ⟨htypeFits, hspec.2.2, (namingPluralize_spec hspec.1.some hplural).2, (namingCopy_fits htable).2,
        (namingCopy_fits hstem).2, namingGuard_fits hguard⟩

theorem small_identifier {name : Bytes} (h : Identifier name) (hhead : name.head?.any islower = true) :
    CIdentifier name := by
  constructor
  · cases name with
    | nil => cases hhead
    | cons first rest =>
      have hfirst : islower first = true := hhead
      rw [List.head?_cons, Option.any_some, isNondigit, hfirst, Bool.or_true, Bool.true_or]
  · intro c hc
    have hsmall := h.small c hc
    revert hsmall
    unfold isNondigit
    cases isupper c <;> cases islower c <;> cases isdigit c <;> cases c == ch '_' <;> decide

theorem reserved_head : ∀ word ∈ cKeywords ++ boolMacros, word.head?.any isupper = false := by
  decide +kernel

/-- Reserved words in small letters, or with a capital or an underscore in front. -/
theorem reserved_small : ∀ word ∈ cKeywords ++ boolMacros, word.head?.any islower = true →
    (∀ c ∈ word, islower c = true) ∧ word.getLast? ≠ some (ch 's') := by
  have hwords : ∀ word ∈ cKeywords ++ boolMacros, word.head?.any islower = true →
      word.all islower = true ∧ word.getLast? ≠ some (ch 's') := by
    decide +kernel
  intro word hword hhead
  obtain ⟨hsmall, hlast⟩ := hwords word hword hhead
  exact ⟨List.all_eq_true.mp hsmall, hlast⟩

/-- What `naming_snake` makes of a reserved word that a model may be called. -/
theorem reserved_snake : ∀ word ∈ cKeywords ++ boolMacros,
    (namingModelValid (capitalized word) = true → namingSnake CEASY_NAME_CAPACITY (capitalized word) = some word) ∧
    (namingModelValid (word.map toupper) = true →
      namingSnake CEASY_NAME_CAPACITY (word.map toupper) = some word) := by
  decide +kernel

theorem legalName_iff {name : Bytes} (h : CIdentifier name) :
    LegalName name ↔ name ∉ cKeywords ++ boolMacros := by
  rw [List.mem_append, not_or]
  exact ⟨fun hlegal => ⟨hlegal.noKeyword, hlegal.noMacro⟩, fun hno => ⟨h, hno.1, hno.2⟩⟩

theorem legalName_type {modelName : Bytes} (h : namingModelValid modelName = true) : LegalName modelName := by
  have hhead : modelName.head?.any isupper = true := by
    rw [namingModelValid, Bool.and_eq_true] at h
    exact h.1
  have hidentifier : CIdentifier modelName := by
    rw [namingModelValid, Bool.and_eq_true, List.all_eq_true] at h
    refine ⟨?_, fun c hc => ?_⟩
    · cases modelName with
      | nil => cases hhead
      | cons first rest =>
        have hfirst : isupper first = true := hhead
        rw [List.head?_cons, Option.any_some, isNondigit, hfirst, Bool.true_or, Bool.true_or]
    · have hc := h.2 c hc
      revert hc
      unfold isNondigit
      cases isupper c <;> cases islower c <;> cases isdigit c <;> cases c == ch '_' <;> decide
  rw [legalName_iff hidentifier]
  intro hreserved
  rw [reserved_head _ hreserved] at hhead
  cases hhead

variable {modelName : Bytes} {naming : Naming}

/-- The singular is legal exactly where the model is not called as a reserved word. -/
theorem ModelNamed.singular_iff (h : ModelNamed modelName naming) :
    LegalName naming.singular ↔ ¬ ReservedModel modelName := by
  obtain ⟨hidentifier, hhead, -⟩ := namingSnake_spec h.valid h.singular
  rw [legalName_iff (small_identifier hidentifier hhead)]
  refine not_congr ⟨fun hreserved => ?_, ?_⟩
  · have hsmall := (reserved_small _ hreserved hhead).1
    have hunderscore : ch '_' ∉ naming.singular := fun hmem => absurd (hsmall _ hmem) (by decide)
    have hsnake := h.singular
    rw [namingSnake, Option.filter_eq_some_iff] at hsnake
    obtain ⟨hletters, hunbroken⟩ := namingSnakeLoop_unbroken hsnake.1 hunderscore
    have hcapital : modelName.head?.any isupper = true := by
      have hvalid := h.valid
      rw [namingModelValid, Bool.and_eq_true] at hvalid
      exact hvalid.1
    exact ⟨naming.singular, hreserved, unbroken_cases hcapital hunbroken hletters.symm hsmall⟩
  · rintro ⟨word, hword, hname⟩
    have hvalid := h.valid
    have hsnake := h.singular
    rcases hname with rfl | rfl
    · rw [(reserved_snake word hword).1 hvalid] at hsnake
      rwa [← Option.some.inj hsnake]
    · rw [(reserved_snake word hword).2 hvalid] at hsnake
      rwa [← Option.some.inj hsnake]

theorem ModelNamed.plural_legal (h : ModelNamed modelName naming) : LegalName naming.plural := by
  obtain ⟨hidentifier, hhead, -⟩ := namingSnake_spec h.valid h.singular
  obtain ⟨hplural, -⟩ := namingPluralize_spec hidentifier.some h.plural
  rw [← hplural.head] at hhead
  rw [legalName_iff (small_identifier (namingPluralize_identifier hidentifier h.plural) hhead)]
  exact fun hreserved => (reserved_small _ hreserved hhead).2 hplural.last

theorem reservedWords_keywords : ∀ word ∈ cKeywords, namingReserved word = true := by
  decide +kernel

theorem namingFieldValid_legal {name : Bytes} (h : namingFieldValid name = true) :
    LegalName name ↔ name ∉ boolMacros := by
  have hidentifier := namingFieldValid_identifier h
  simp only [namingFieldValid, Bool.and_eq_true, Bool.not_eq_true'] at h
  have hkeyword : name ∉ cKeywords := fun hmem => by
    rw [reservedWords_keywords name hmem] at h
    cases h.2
  rw [legalName_iff (small_identifier hidentifier h.1.1.1), List.mem_append, not_or, and_iff_right hkeyword]

theorem namingParseType_fits {capacity : ℕ} {name canonical : Bytes} {type : ModelFieldType}
    (h : namingParseType capacity name = some (type, canonical)) : Fits FIELD_TYPE_CAPACITY canonical := by
  unfold namingParseType at h
  split_ifs at h with hstring hinteger hbool
  all_goals
    obtain ⟨copy, hcopy, hpair⟩ := Option.map_eq_some_iff.mp h
    cases hpair
    rw [(namingCopy_fits hcopy).1]
  · rcases hstring with rfl | rfl <;> decide
  · rcases hinteger with rfl | rfl <;> decide
  · rw [hbool]
    decide

theorem namingParseField_fits {errorSize : ℕ} {fields : List FieldSpec} {argument : Bytes} {field : FieldSpec}
    (h : namingParseField errorSize fields argument = .ok field) :
    Fits CEASY_NAME_CAPACITY field.name ∧ Fits FIELD_TYPE_CAPACITY field.typeName := by
  unfold namingParseField at h
  split at h
  · cases h
  · split_ifs at h with _ hlong
    · split at h <;> cases h
    · split at h <;> cases h
    · split at h
      · cases h
      · next htype =>
        cases h
        rw [not_or, Nat.not_lt, Nat.not_lt] at hlong
        exact ⟨hlong.1, namingParseType_fits htype⟩

theorem namingParseFieldsLoop_fits {errorSize : ℕ} {arguments : List CString} {before fields : List FieldSpec}
    (hbefore : ∀ field ∈ before, Fits CEASY_NAME_CAPACITY field.name ∧ Fits FIELD_TYPE_CAPACITY field.typeName)
    (h : namingParseFieldsLoop errorSize arguments before = .ok fields) :
    ∀ field ∈ fields, Fits CEASY_NAME_CAPACITY field.name ∧ Fits FIELD_TYPE_CAPACITY field.typeName := by
  induction arguments generalizing before with
  | nil =>
    cases h
    exact hbefore
  | cons argument arguments ih =>
    rw [namingParseFieldsLoop] at h
    cases hfield : namingParseField errorSize before argument.bytes with
    | error message =>
      rw [hfield] at h
      cases h
    | ok field =>
      rw [hfield] at h
      refine ih (fun other hother => ?_) h
      rcases List.mem_append.mp hother with hother | hother
      · exact hbefore other hother
      · rw [List.mem_singleton.mp hother]
        exact namingParseField_fits hfield

/-- The fields' names are apart from one another and from the three that every model has. -/
theorem FieldsValid.members_distinct {fields : List FieldSpec} (h : FieldsValid fields) :
    ((generatedMembers fields).map Prod.fst).Nodup := by
  have hreserved : ∀ name ∈ fields.map FieldSpec.name, modelReserved name = false := by
    intro name hname
    obtain ⟨field, hfield, rfl⟩ := List.mem_map.mp hname
    exact (h.valid field hfield).2
  have hnames : (generatedMembers fields).map Prod.fst =
      sv "id" :: (fields.map FieldSpec.name ++ [sv "created_at", sv "updated_at"]) := by
    unfold generatedMembers
    rw [List.cons_append, List.map_cons, List.map_append, List.map_map]
    rfl
  have hnot : ∀ name ∈ fields.map FieldSpec.name, ∀ other ∈ [sv "id", sv "created_at", sv "updated_at"],
      name ≠ other := by
    rintro name hname other hother rfl
    have hfalse := hreserved _ hname
    rw [List.mem_cons, List.mem_cons, List.mem_singleton] at hother
    rcases hother with rfl | rfl | rfl <;> exact absurd hfalse (by decide)
  rw [hnames, List.nodup_cons, List.nodup_append]
  refine ⟨fun hid => ?_, h.distinct, by decide, fun name hname other hother => ?_⟩
  · rcases List.mem_append.mp hid with hid | hid
    · exact hnot _ hid _ List.mem_cons_self rfl
    · revert hid
      decide
  · exact hnot name hname other (List.mem_cons_of_mem _ hother)

/-- The generated names are legal exactly where the model is not called as a reserved word and no
field is called as a macro of `stdbool.h`. -/
theorem generatedNames_legal_iff {errorSize : ℕ} {modelName : Bytes} {naming : Naming}
    {arguments : List CString} {fields : List FieldSpec} (hmodel : namingModel errorSize modelName = .ok naming)
    (hfields : namingParseFields errorSize arguments = .ok fields) :
    LegalNames naming fields ↔ ¬ ReservedModel modelName ∧ ∀ field ∈ fields, field.name ∉ boolMacros := by
  have hnamed := namingModel_named hmodel
  have hvalid := namingParseFields_valid hfields
  constructor
  · intro h
    refine ⟨hnamed.singular_iff.mp h.singular, fun field hfield => ?_⟩
    exact (namingFieldValid_legal (hvalid.valid field hfield).1).mp (h.members field hfield)
  · rintro ⟨hreserved, hmacros⟩
    refine ⟨?_, hnamed.singular_iff.mpr hreserved, hnamed.plural_legal, fun field hfield => ?_,
      hvalid.members_distinct, hnamed.fit, ?_⟩
    · rw [hnamed.typeName]
      exact legalName_type hnamed.valid
    · exact (namingFieldValid_legal (hvalid.valid field hfield).1).mpr (hmacros field hfield)
    · exact namingParseFieldsLoop_fits (fun field hfield => absurd hfield List.not_mem_nil) hfields

/-- Posts with a title. -/
theorem generatedNames_legal_post :
    ∃ naming fields, namingModel 256 (sv "Post") = .ok naming ∧
      namingParseFields 256 [⟨sv "title:string", by decide⟩] = .ok fields ∧ LegalNames naming fields := by
  obtain ⟨naming, hmodel⟩ : ∃ naming, namingModel 256 (sv "Post") = .ok naming := ⟨_, rfl⟩
  obtain ⟨fields, hfields, hmacros⟩ : ∃ fields, namingParseFields 256 [⟨sv "title:string", by decide⟩] = .ok fields ∧
      ∀ field ∈ fields, field.name ∉ boolMacros := ⟨_, rfl, by decide⟩
  refine ⟨naming, fields, hmodel, hfields, (generatedNames_legal_iff hmodel hfields).mpr ⟨?_, hmacros⟩⟩
  have hother : ∀ word ∈ cKeywords ++ boolMacros,
      ¬ (sv "Post" = capitalized word ∨ sv "Post" = word.map toupper) := by
    decide +kernel
  rintro ⟨word, hword, hname⟩
  exact hother word hword hname

/-- A model called `Int` is accepted, and so is a field called `bool`. -/
theorem generatedNames_illegal :
    (∃ naming, namingModel 256 (sv "Int") = .ok naming ∧ naming.singular = sv "int" ∧
      ¬ LegalNames naming []) ∧
    ∃ naming fields, namingModel 256 (sv "Post") = .ok naming ∧
      namingParseFields 256 [⟨sv "bool:bool", by decide⟩] = .ok fields ∧ ¬ LegalNames naming fields := by
  refine ⟨⟨_, rfl, rfl, fun h => ?_⟩, ⟨_, _, rfl, rfl, fun h => ?_⟩⟩
  · exact h.singular.noKeyword (by decide)
  · exact (h.members _ List.mem_cons_self).noMacro (by decide)

end Ceasy.Generator
