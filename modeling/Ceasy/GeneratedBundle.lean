import Ceasy.CData
import Ceasy.Sql
import Ceasy.StringView

set_option autoImplicit false

/-!
# Generated bundles

The views and the assets of a program are compiled to C in the same form: arrays, a table of
structures that refer to them, a bundle with the table and the number of its elements, and a
function that returns the bundle. Reading such a file begins with the function.
-/
namespace Ceasy.GeneratedBundle
open StringView CLiteral CData Transducer

def firstElements {α : Type} (count : ℕ) (elements : List α) : Option (List α) :=
  if count ≤ elements.length then some (elements.take count) else none

def words (texts : List Bytes) : List Token := texts.map .word

/-- An array, with its size in brackets or without. -/
def arrayValue (type : List Token) (name : Bytes) : External → Option Initializer
  | .object head value =>
    let front : List Token := type ++ [.word name, .mark (ch '[')]
    if front.isPrefixOf head then some value else none
  | .function .. => none

def arrayElements (file : List External) (type : List Token) (name : Bytes) : Option (List Initializer) :=
  (file.findSome? (arrayValue type name)).bind Initializer.elements

def arrayOf (file : List External) (type : List Token) (name : Bytes) (count : ℕ) : Option (List Initializer) :=
  (arrayElements file type name).bind (firstElements count)

/-- A `StringView`, given what its pointer points to. -/
def stringViewOf (pointee : Initializer → Option Bytes) (value : Initializer) : Option Bytes := do
  let data ← (value.member (sv "data")).bind pointee
  let length ← (value.member (sv "length")).bind Initializer.number
  firstElements length data

/-- The names of a bundle: its type, its members, the table and the function that returns it. -/
structure BundleNames where
  type : Bytes
  items : Bytes
  count : Bytes
  table : Bytes
  function : Bytes

/-- `const TYPE *FUNCTION(void)`. -/
def BundleNames.declarator (names : BundleNames) : List Token :=
  words [sv "const", names.type] ++ [.mark (ch '*'), .word names.function, .mark (ch '('), .word (sv "void"),
    .mark (ch ')')]

def BundleNames.specifiers (names : BundleNames) : List Token := words [sv "static", sv "const", names.type]

def returned : List Token → Option Bytes
  | [.word keyword, .mark address, .word name, .mark stop] =>
    if keyword = sv "return" ∧ address = ch '&' ∧ stop = ch ';' then some name else none
  | _ => none

/-- The table of the bundle that the function returns, and the count beside it. -/
def bundleOf (file : List External) (names : BundleNames) : Option (Bytes × ℕ) := do
  let body ← bodyOf file names.declarator
  let bundle ← returned body
  let value ← valueOf file (names.specifiers ++ [.word bundle])
  let table ← (value.member names.items).bind Initializer.name
  let count ← (value.member names.count).bind Initializer.number
  some (table, count)

theorem decimal_reads (n : ℕ) (before : Bytes) :
    Reads lexStep (.plain, before) (decimal n) [] (.plain, before ++ decimal n) :=
  reads_word (fun _ hc => digitsOf_word hc) before

theorem decimal_ne_nil (n : ℕ) : decimal n ≠ [] := (digitsOf_value n).2.2.2

theorem decimal_number (n : ℕ) : numberOf (decimal n) = some n := numberOf_digits n

theorem word_steady {text : Bytes} (h : ∀ c ∈ text, isWord c = true) : Steady text := by
  refine steady_of_markless fun c hc => ?_
  rintro rfl
  exact absurd (h _ hc) (by decide)

theorem decimal_steady (n : ℕ) : Steady (decimal n) := word_steady fun _ hc => digitsOf_word hc

theorem length_reads : Reads lexStep (.plain, []) (sv ", .length = ")
    [.mark (ch ','), .mark (ch '.'), .word (sv "length"), .mark (ch '=')] (.plain, []) := by
  decide

theorem length_steady : Steady (sv ", .length = ") := by decide

theorem entryEnd_reads :
    Reads lexStep (.plain, []) (sv "\x7d,\n") [.mark (ch '}'), .mark (ch ',')] (.fresh, []) := by
  decide

theorem entryEnd_steady : Steady (sv "\x7d,\n") := by decide

theorem arrayOpen_reads : Reads lexStep (.plain, []) (sv "[] = \x7b\n")
    [.mark (ch '['), .mark (ch ']'), .mark (ch '='), .mark (ch '{')] (.fresh, []) := by
  decide

theorem arrayOpen_steady : Steady (sv "[] = \x7b\n") := by decide

theorem arrayClose_reads :
    Reads lexStep (.fresh, []) (sv "\x7d;\n\n") [.mark (ch '}'), .mark (ch ';')] (.fresh, []) := by
  decide

theorem arrayClose_steady : Steady (sv "\x7d;\n\n") := by decide

theorem numbered_word {front : Bytes} (h : ∀ c ∈ front, isWord c = true) (index : ℕ) :
    (∀ c ∈ front ++ decimal index, isWord c = true) ∧ front ++ decimal index ≠ [] := by
  refine ⟨fun c hc => ?_, by simp [decimal_ne_nil]⟩
  rcases List.mem_append.mp hc with hfixed | hdigit
  · exact h c hfixed
  · exact digitsOf_word hdigit

theorem numbered_inj (front front' : Bytes) {index index' : ℕ} (hlength : front.length = front'.length)
    (h : front ++ decimal index = front' ++ decimal index') : front = front' ∧ index = index' := by
  obtain ⟨hfront, hnumber⟩ := List.append_inj h hlength
  exact ⟨hfront, digitsOf_injective hnumber⟩

theorem zipIdx_index {α : Type} {sources : List α} {item other : α × ℕ} (hitem : item ∈ sources.zipIdx)
    (hother : other ∈ sources.zipIdx) (h : item.2 = other.2) : item = other := by
  obtain ⟨source, index⟩ := item
  obtain ⟨another, index'⟩ := other
  cases h
  rw [List.mk_mem_zipIdx_iff_getElem?] at hitem hother
  cases hitem.symm.trans hother
  rfl

theorem firstElements_all {α : Type} (elements : List α) : firstElements elements.length elements = some elements := by
  rw [firstElements, if_pos (Nat.le_refl _), List.take_length]

def arrayHead (type : List Token) (name : Bytes) (size : List Token) : List Token :=
  type ++ .word name :: .mark (ch '[') :: (size ++ [.mark (ch ']')])

section Arrays

variable {ι : Type} {write : ι → List Token} {value : ι → Initializer} {items : List ι} {head type : List Token}
  {name : Bytes} {file : List External}

def arrayTokens (head : List Token) (write : ι → List Token) (items : List ι) : List Token :=
  head ++ .mark (ch '=') :: (.mark (ch '{') ::
    ((items.flatMap fun item => write item ++ [.mark (ch ',')]) ++ [.mark (ch '}')]) ++ [.mark (ch ';')])

def arrayExternal (head : List Token) (value : ι → Initializer) (items : List ι) : External :=
  .object head (.list (items.map fun item => (none, value item)))

theorem array_parses (hhead : Reads readStep (.head []) head [] (.head head))
    (h : ∀ item ∈ items, Denotes (write item) (value item)) :
    Reads readStep (.head []) (arrayTokens head write items) [arrayExternal head value items] (.head []) :=
  reads_object hhead (denotes_array h)

/-- The text of an array, from the texts of its first line, of its elements and of its end. -/
theorem array_reads {opening elements : Bytes} {mode : Mode}
    (hopen : Reads lexStep (.fresh, []) opening (head ++ [.mark (ch '='), .mark (ch '{')]) (.fresh, []))
    (hitems : Reads lexStep (.fresh, []) elements (items.flatMap fun item => write item ++ [.mark (ch ',')])
      (mode, []))
    (hclose : Reads lexStep (mode, []) (sv "\x7d;\n\n") [.mark (ch '}'), .mark (ch ';')] (.fresh, [])) :
    Reads lexStep (.fresh, []) (opening ++ elements ++ sv "\x7d;\n\n") (arrayTokens head write items)
      (.fresh, []) := by
  have hall := (hopen.append hitems).append hclose
  simp only [List.append_assoc, List.cons_append, List.nil_append] at hall
  simp only [arrayTokens, List.append_assoc, List.cons_append, List.nil_append]
  exact hall

theorem arrayValue_head (type : List Token) (name : Bytes) (size : List Token) (found : Initializer) :
    arrayValue type name (.object (arrayHead type name size) found) = some found := by
  rw [arrayValue, if_pos]
  exact List.isPrefixOf_iff_prefix.mpr ⟨size ++ [.mark (ch ']')], by simp [arrayHead]⟩

theorem arrayValue_name {other : Bytes} {size : List Token} {found found' : Initializer}
    (h : arrayValue type name (.object (arrayHead type other size) found) = some found') :
    name = other ∧ found' = found := by
  rw [arrayValue] at h
  split_ifs at h with hprefix
  rw [List.isPrefixOf_iff_prefix, arrayHead, List.prefix_append_right_inj, List.cons_prefix_cons] at hprefix
  exact ⟨Token.word.inj hprefix.1, (Option.some.inj h).symm⟩

theorem elements_items (items : List ι) (value : ι → Initializer) :
    (Initializer.list (items.map fun item => (none, value item))).elements = some (items.map value) := by
  unfold Initializer.elements
  rw [Initializer.items, Option.bind_some]
  exact Sql.mapM_map fun item _ => if_pos rfl

theorem arrayElements_found
    (h : file.findSome? (arrayValue type name) = some (.list (items.map fun item => (none, value item)))) :
    arrayElements file type name = some (items.map value) := by
  rw [arrayElements, h, Option.bind_some, elements_items]

theorem arrayOf_found
    (h : file.findSome? (arrayValue type name) = some (.list (items.map fun item => (none, value item)))) :
    arrayOf file type name items.length = some (items.map value) := by
  have hall := firstElements_all (items.map value)
  rw [List.length_map] at hall
  rw [arrayOf, arrayElements_found h, Option.bind_some, hall]

end Arrays

section Tables

variable {ι : Type} {members : ι → Members} {items : List ι}

def tableType (element : Bytes) : List Token := words [sv "static", sv "const", element]

/-- A table with its elements; an array of C cannot be empty. -/
def tableTokens (element table : Bytes) (members : ι → Members) (items : List ι) : List Token :=
  if items.length = 0 then
    arrayHead (tableType element) table [.word (sv "1")] ++ [.mark (ch '='), .mark (ch '{'), .mark (ch '{'),
      .word (sv "0"), .mark (ch '}'), .mark (ch '}'), .mark (ch ';')]
  else arrayTokens (arrayHead (tableType element) table []) (fun item => structTokens (members item)) items

def tableExternal (element table : Bytes) (members : ι → Members) (items : List ι) : External :=
  if items.length = 0 then
    .object (arrayHead (tableType element) table [.word (sv "1")])
      (.list [(none, .list [(none, .scalar [.word (sv "0")])])])
  else arrayExternal (arrayHead (tableType element) table []) (fun item => structInit (members item)) items

theorem table_parses (element table : Bytes)
    (h : ∀ item ∈ items, Denotes (structTokens (members item)) (structInit (members item))) :
    Reads readStep (.head []) (tableTokens element table members items) [tableExternal element table members items]
      (.head []) := by
  unfold tableTokens tableExternal
  by_cases hempty : items.length = 0
  · rw [if_pos hempty, if_pos hempty]
    rfl
  · rw [if_neg hempty, if_neg hempty]
    exact array_parses rfl h

theorem table_reads {element table missing opening : Bytes} {write : ι → Bytes} (items : List ι)
    (hmissing : Reads lexStep (.fresh, []) missing (tableTokens element table members []) (.fresh, []))
    (hopen : Reads lexStep (.fresh, []) opening
      (arrayHead (tableType element) table [] ++ [.mark (ch '='), .mark (ch '{')]) (.fresh, []))
    (h : ∀ item ∈ items, Reads lexStep (.fresh, []) (write item)
      (structTokens (members item) ++ [.mark (ch ',')]) (.fresh, [])) :
    Reads lexStep (.fresh, [])
      ((if items.length = 0 then missing else opening) ++ items.flatMap write ++
        (if 0 < items.length then sv "\x7d;\n\n" else []))
      (tableTokens element table members items) (.fresh, []) := by
  by_cases hempty : items.length = 0
  · rw [if_pos hempty, if_neg (by omega), List.length_eq_zero_iff.mp hempty, List.flatMap_nil, List.append_nil,
      List.append_nil]
    exact hmissing
  · rw [if_neg hempty, if_pos (by omega), tableTokens, if_neg hempty]
    exact array_reads hopen (.flatMap h) arrayClose_reads

theorem table_steady {missing opening : Bytes} {write : ι → Bytes} (hmissing : Steady missing)
    (hopen : Steady opening) (h : ∀ item ∈ items, Steady (write item)) :
    Steady ((if items.length = 0 then missing else opening) ++ items.flatMap write ++
      (if 0 < items.length then sv "\x7d;\n\n" else [])) := by
  have hfirst : Steady (if items.length = 0 then missing else opening) := by
    split_ifs
    · exact hmissing
    · exact hopen
  have hlast : Steady (if 0 < items.length then sv "\x7d;\n\n" else []) := by
    split_ifs
    · exact arrayClose_steady
    · exact ⟨rfl, by simp⟩
  exact (hfirst.append (.flatMap h)).append hlast

theorem arrayOf_table (members : ι → Members) (items : List ι) {others : List External} (after : List External)
    {element table : Bytes} (h : others.findSome? (arrayValue (tableType element) table) = none) :
    arrayOf (others ++ [tableExternal element table members items] ++ after) (tableType element) table items.length =
      some (items.map fun item => structInit (members item)) := by
  have hfound : (others ++ [tableExternal element table members items] ++ after).findSome?
      (arrayValue (tableType element) table) =
        (arrayValue (tableType element) table (tableExternal element table members items)).or
          (after.findSome? (arrayValue (tableType element) table)) := by
    rw [List.findSome?_append, List.findSome?_append, h, Option.none_or, List.findSome?_singleton]
  rw [tableExternal] at hfound ⊢
  by_cases hempty : items.length = 0
  · rw [if_pos hempty, arrayValue_head] at hfound
    rw [if_pos hempty, arrayOf, arrayElements, hfound, List.length_eq_zero_iff.mp hempty]
    rfl
  · rw [if_neg hempty, arrayExternal, arrayValue_head] at hfound
    rw [if_neg hempty]
    exact arrayOf_found hfound

end Tables

section Bundles

variable (names : BundleNames) (count : ℕ)

def bundleMembers : Members :=
  [(names.items, [.word names.table], .scalar [.word names.table]),
    (names.count, [.word (decimal count)], .scalar [.word (decimal count)])]

def bundleHead : List Token := names.specifiers ++ [.word (sv "ceasy_bundle")]

def bundleReturn : List Token := [.word (sv "return"), .mark (ch '&'), .word (sv "ceasy_bundle"), .mark (ch ';')]

def bundleTokens : List Token :=
  bundleHead names ++ .mark (ch '=') :: (structTokens (bundleMembers names count) ++ [.mark (ch ';')]) ++
    (names.declarator ++ .mark (ch '{') :: (bundleReturn ++ [.mark (ch '}')]))

def bundleExternals : List External :=
  [.object (bundleHead names) (structInit (bundleMembers names count)), .function names.declarator bundleReturn]

theorem bundle_parses :
    Reads readStep (.head []) (bundleTokens names count) (bundleExternals names count) (.head []) := by
  have hbundle : Denotes (structTokens (bundleMembers names count)) (structInit (bundleMembers names count)) := by
    refine denotes_struct fun member hmem => ?_
    simp only [bundleMembers, List.mem_cons, List.not_mem_nil, or_false] at hmem
    rcases hmem with rfl | rfl
    · exact denotes_word _
    · exact denotes_word _
  have hfunction : Reads readStep (.head [])
      (names.declarator ++ .mark (ch '{') :: (bundleReturn ++ [.mark (ch '}')]))
      [.function names.declarator bundleReturn] (.head []) := rfl
  have hhead : Reads readStep (.head []) (bundleHead names) [] (.head (bundleHead names)) := rfl
  exact (reads_object hhead hbundle).append hfunction

/-- The text of the bundle and its function, up to the count and behind it. -/
theorem bundle_reads {opening closing : Bytes}
    (hopen : Reads lexStep (.fresh, []) opening (bundleHead names ++ [.mark (ch '='), .mark (ch '{'), .mark (ch '.'),
      .word names.items, .mark (ch '='), .word names.table, .mark (ch ','), .mark (ch '.'), .word names.count,
      .mark (ch '=')]) (.plain, []))
    (hclose : Reads lexStep (.plain, []) closing ([.mark (ch '}'), .mark (ch ';')] ++
      (names.declarator ++ .mark (ch '{') :: (bundleReturn ++ [.mark (ch '}')]))) (.fresh, []))
    (hends : (closing.head?.any fun c => !isWord c) = true) :
    Reads lexStep (.fresh, []) (opening ++ decimal count ++ closing) (bundleTokens names count) (.fresh, []) := by
  have hall := (hopen.append (decimal_reads count [])).append (reads_behind hclose hends (decimal_ne_nil count))
  simp only [List.append_assoc, List.cons_append, List.nil_append] at hall
  simp only [bundleTokens, structTokens, memberTokens, bundleMembers, List.append_assoc, List.cons_append,
    List.nil_append]
  exact hall

/-- Only arrays are declared. -/
def Arrays (file : List External) : Prop :=
  ∀ declared ∈ file, ∃ type name size value, declared = .object (arrayHead type name size) value

variable {others : List External}

theorem Arrays.append {file : List External} (h : Arrays others) (hfile : Arrays file) : Arrays (others ++ file) :=
  fun declared hmem => (List.mem_append.mp hmem).elim (h declared) (hfile declared)

theorem arrays_table {ι : Type} (element table : Bytes) (members : ι → Members) (items : List ι) :
    Arrays [tableExternal element table members items] := by
  intro declared hmem
  rw [List.mem_singleton.mp hmem, tableExternal]
  split_ifs
  · exact ⟨_, _, _, _, rfl⟩
  · exact ⟨_, _, _, _, rfl⟩

/-- The head of an array ends in a bracket, that of the bundle in its name. -/
theorem Arrays.no_bundle (h : Arrays others) : others.findSome? (External.value? (bundleHead names)) = none := by
  rw [List.findSome?_eq_none_iff]
  intro declared hmem
  obtain ⟨type, name, size, value, rfl⟩ := h declared hmem
  rw [External.value?, if_neg]
  intro heq
  have hlast := congrArg List.getLast? heq
  rw [bundleHead, List.getLast?_concat, arrayHead, ← List.cons_append, ← List.cons_append, ← List.append_assoc,
    List.getLast?_concat] at hlast
  cases hlast

theorem Arrays.no_function (h : Arrays others) (head : List Token) :
    others.findSome? (External.body? head) = none := by
  rw [List.findSome?_eq_none_iff]
  intro declared hmem
  obtain ⟨type, name, size, value, rfl⟩ := h declared hmem
  rfl

theorem bundleOf_found (h : Arrays others) (hdistinct : names.items ≠ names.count) :
    bundleOf (others ++ bundleExternals names count) names = some (names.table, count) := by
  have hfunction : bodyOf (others ++ bundleExternals names count) names.declarator = some bundleReturn := by
    rw [bodyOf, List.findSome?_append, h.no_function, Option.none_or, bundleExternals, List.findSome?_cons,
      External.body?]
    dsimp only
    rw [List.findSome?_singleton, External.body?, if_pos rfl]
  have hobject : valueOf (others ++ bundleExternals names count) (names.specifiers ++ [.word (sv "ceasy_bundle")]) =
      some (structInit (bundleMembers names count)) := by
    rw [← bundleHead, valueOf, List.findSome?_append, h.no_bundle, Option.none_or, bundleExternals,
      List.findSome?_cons, External.value?, if_pos rfl]
  have hreturned : returned bundleReturn = some (sv "ceasy_bundle") := by decide +kernel
  have htable : ((structInit (bundleMembers names count)).member names.items).bind Initializer.name =
      some names.table := by
    simp [Initializer.member, Initializer.items, structInit, bundleMembers, Initializer.name]
  have hcount : ((structInit (bundleMembers names count)).member names.count).bind Initializer.number =
      some count := by
    have hnumber := decimal_number count
    simp [Initializer.member, Initializer.items, structInit, bundleMembers, Initializer.number, hdistinct, hnumber]
  simp only [bundleOf, hfunction, Option.bind_eq_bind, Option.bind_some, hreturned, hobject, htable, hcount]

end Bundles

end Ceasy.GeneratedBundle
