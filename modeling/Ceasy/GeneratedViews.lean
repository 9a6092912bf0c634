import Ceasy.CompilerRuns
import Ceasy.GeneratedBundle

set_option autoImplicit false

/-!
# What the generated views declare

The file that the view compiler writes is read as C, from its bytes to the bundle that
`ceasy_view_bundle` returns. A program that is linked with it has the views that were
compiled.
-/
namespace Ceasy.GeneratedViews
open StringView CLiteral CData GeneratedBundle Transducer TemplateParse View
open CompilerRuns (compilerInstruction compilerInstructionName compilerInstructions compilerView)
open ViewCompiler (ViewSource)
open ViewLiteral (compilerCString compilerCByte HasTrigraph written)

def literalOf : Initializer → Option Bytes
  | .scalar [.literal text] => unescape text
  | _ => none

def instructionTypes : List TemplateInstructionType :=
  [.instructionText, .instructionVariable, .instructionSection, .instructionInverseSection,
    .instructionPartial, .instructionYield]

def instructionTypeOf (name : Bytes) : Option TemplateInstructionType :=
  instructionTypes.find? fun type => compilerInstructionName type == name

def instructionOf (value : Initializer) : Option TemplateInstruction := do
  let name ← (value.member (sv "type")).bind Initializer.name
  let type ← instructionTypeOf name
  let text ← (value.member (sv "value")).bind (stringViewOf literalOf)
  let jump ← (value.member (sv "jump")).bind Initializer.number
  some ⟨type, text, jump⟩

/-- No instructions are read through a null pointer. -/
def instructionsOf (file : List External) (count : ℕ) (value : Initializer) : Option (List TemplateInstruction) := do
  let name ← value.name
  if name = sv "NULL" then
    if count = 0 then some [] else none
  else
    let elements ← arrayOf file (tableType (sv "TemplateInstruction")) name count
    elements.mapM instructionOf

def embeddedViewOf (file : List External) (value : Initializer) : Option EmbeddedView := do
  let path ← (value.member (sv "path")).bind (stringViewOf literalOf)
  let sourceName ← (value.member (sv "source_name")).bind (stringViewOf literalOf)
  let count ← (value.member (sv "instruction_count")).bind Initializer.number
  let instructions ← (value.member (sv "instructions")).bind (instructionsOf file count)
  some ⟨path, sourceName, instructions⟩

def viewBundle : BundleNames where
  type := sv "ViewBundle"
  items := sv "views"
  count := sv "view_count"
  table := sv "ceasy_views"
  function := sv "ceasy_view_bundle"

def viewBundleOf (file : List External) : Option (List EmbeddedView) := do
  let (views, count) ← bundleOf file viewBundle
  let elements ← arrayOf file (tableType (sv "EmbeddedView")) views count
  elements.mapM (embeddedViewOf file)

variable {value : Bytes} {byte : UInt8}

def bytePiece (piece : Bytes) : Bool :=
  match piece with
  | first :: _ :: rest =>
    first == code '\\' && rest.all fun c => c != code '"' && c != code '\\'
  | piece => piece.all fun c => c != code '"' && c != code '\\'

theorem compilerCByte_pieces : ∀ n < 256, bytePiece (compilerCByte (UInt8.ofNat n)) = true := by
  decide +kernel

theorem compilerCByte_piece (byte : UInt8) : Piece (compilerCByte byte) := by
  have hpiece := compilerCByte_pieces byte.toNat (UInt8.toNat_lt byte)
  rw [UInt8.ofNat_toNat] at hpiece
  generalize compilerCByte byte = piece at hpiece
  match piece, hpiece with
  | [], _ => exact .plain (by simp)
  | [c], hpiece =>
    refine .plain fun d hd => ?_
    simpa [bytePiece, List.mem_singleton.mp hd] using hpiece
  | first :: second :: rest, hpiece =>
    rw [bytePiece, Bool.and_eq_true, beq_iff_eq, List.all_eq_true] at hpiece
    obtain ⟨rfl, hrest⟩ := hpiece
    exact .escape second fun c hc => by simpa using hrest c hc

theorem literal_reads (value : Bytes) :
    Reads lexStep (.plain, []) (compilerCString value) [.literal (written value)] (.plain, []) := by
  have hopen : lexStep (.plain, []) (ch '"') = ([], .literal, []) := rfl
  exact .cons hopen (reads_pieces (fun byte _ => compilerCByte_piece byte) [])

/-- The text of a value without trigraphs is left as it is. -/
theorem written_steady (h : ¬ HasTrigraph value) : replaceTrigraphs (written value) = written value := by
  induction value with
  | nil => rfl
  | cons byte value ih =>
    cases hleading : leadingTrigraph (byte :: value) with
    | some replaced => exact absurd (.of_leading hleading) h
    | none =>
      rw [ViewLiteral.hasTrigraph_cons hleading] at h
      rw [ViewLiteral.written_replaced hleading, ih h, ViewLiteral.written_cons]

theorem literal_steady (h : ¬ HasTrigraph value) : Steady (compilerCString value) := by
  have hopen : code '"' ≠ code '?' := by decide
  refine ⟨?_, ?_⟩
  · change replaceTrigraphs (code '"' :: written value) = _
    rw [replaceTrigraphs_plain hopen, written_steady h]
    rfl
  · rw [compilerCString, List.getLast?_cons, List.getLast?_concat]
    decide

theorem literal_value (h : ¬ HasTrigraph value) : unescape (written value) = some value := by
  have hreading := (ViewLiteral.reading_iff value).mpr h
  unfold ViewLiteral.reading at hreading
  rwa [written_steady h] at hreading

def literalMembers (value : Bytes) : Members :=
  [(sv "data", [.literal (written value)], .scalar [.literal (written value)]),
    (sv "length", [.word (decimal value.length)], .scalar [.word (decimal value.length)])]

theorem literal_denotes (value : Bytes) :
    Denotes (structTokens (literalMembers value)) (structInit (literalMembers value)) := by
  refine denotes_struct fun member hmem => ?_
  simp only [literalMembers, List.mem_cons, List.not_mem_nil, or_false] at hmem
  rcases hmem with rfl | rfl
  · exact denotes_literal _
  · exact denotes_word _

theorem literal_read (h : ¬ HasTrigraph value) :
    stringViewOf literalOf (structInit (literalMembers value)) = some value := by
  have hdata : ((structInit (literalMembers value)).member (sv "data")).bind literalOf = some value :=
    literal_value h
  have hlength : ((structInit (literalMembers value)).member (sv "length")).bind Initializer.number =
      some value.length := decimal_number value.length
  rw [stringViewOf, hdata, hlength]
  exact firstElements_all value

/-- A literal and its length, behind `{.data = `. -/
theorem counted_reads (value : Bytes) {stop : Bytes} {output : List Token} {last : LexState}
    (hstop : Reads lexStep (.plain, []) stop output last) (hends : (stop.head?.any fun c => !isWord c) = true) :
    Reads lexStep (.plain, []) (compilerCString value ++ sv ", .length = " ++ decimal value.length ++ stop)
      ([.literal (written value), .mark (ch ','), .mark (ch '.'), .word (sv "length"), .mark (ch '=')] ++
        (.word (decimal value.length) :: output)) last := by
  exact (((literal_reads value).append length_reads).append (decimal_reads value.length [])).append
    (reads_behind hstop hends (decimal_ne_nil _))

def instructionMembers (instruction : TemplateInstruction) : Members :=
  [(sv "type", [.word (compilerInstructionName instruction.type)],
      .scalar [.word (compilerInstructionName instruction.type)]),
    (sv "value", structTokens (literalMembers instruction.value), structInit (literalMembers instruction.value)),
    (sv "jump", [.word (decimal instruction.jump)], .scalar [.word (decimal instruction.jump)])]

theorem instruction_denotes (instruction : TemplateInstruction) :
    Denotes (structTokens (instructionMembers instruction)) (structInit (instructionMembers instruction)) := by
  refine denotes_struct fun member hmem => ?_
  simp only [instructionMembers, List.mem_cons, List.not_mem_nil, or_false] at hmem
  rcases hmem with rfl | rfl | rfl
  · exact denotes_word _
  · exact literal_denotes _
  · exact denotes_word _

theorem instructionName_word (type : TemplateInstructionType) :
    (∀ c ∈ compilerInstructionName type, isWord c = true) ∧ compilerInstructionName type ≠ [] := by
  have hname : ((compilerInstructionName type).all isWord && compilerInstructionName type != []) = true := by
    cases type <;> rfl
  rw [Bool.and_eq_true, List.all_eq_true, bne_iff_ne] at hname
  exact hname

theorem instruction_reads (instruction : TemplateInstruction) :
    Reads lexStep (.fresh, []) (compilerInstruction instruction)
      (structTokens (instructionMembers instruction) ++ [.mark (ch ',')]) (.fresh, []) := by
  obtain ⟨hname, hsome⟩ := instructionName_word instruction.type
  have htype : Reads lexStep (.fresh, []) (sv "    \x7b.type = ")
      [.mark (ch '{'), .mark (ch '.'), .word (sv "type"), .mark (ch '=')] (.plain, []) := by decide
  have hvalue : Reads lexStep (.plain, []) (sv ", .value = \x7b.data = ")
      [.mark (ch ','), .mark (ch '.'), .word (sv "value"), .mark (ch '='), .mark (ch '{'), .mark (ch '.'),
        .word (sv "data"), .mark (ch '=')] (.plain, []) := by decide
  have hjump : Reads lexStep (.plain, []) (sv "\x7d, .jump = ")
      [.mark (ch '}'), .mark (ch ','), .mark (ch '.'), .word (sv "jump"), .mark (ch '=')] (.plain, []) := by
    decide
  have hfirst := (htype.append (reads_word hname [])).append (reads_behind hvalue (by decide) hsome)
  have hlast := (counted_reads instruction.value hjump (by decide)).append
    ((decimal_reads instruction.jump []).append (reads_behind entryEnd_reads (by decide) (decimal_ne_nil _)))
  have hall := hfirst.append hlast
  simp only [List.append_assoc] at hall
  simp only [compilerInstruction, List.append_assoc]
  exact hall

theorem instructionTypeOf_name (type : TemplateInstructionType) :
    instructionTypeOf (compilerInstructionName type) = some type := by
  cases type <;> decide

theorem instruction_read {instruction : TemplateInstruction} (h : ¬ HasTrigraph instruction.value) :
    instructionOf (structInit (instructionMembers instruction)) = some instruction := by
  have hname : ((structInit (instructionMembers instruction)).member (sv "type")).bind Initializer.name =
      some (compilerInstructionName instruction.type) := rfl
  have hvalue : ((structInit (instructionMembers instruction)).member (sv "value")).bind (stringViewOf literalOf) =
      some instruction.value := literal_read h
  have hjump : ((structInit (instructionMembers instruction)).member (sv "jump")).bind Initializer.number =
      some instruction.jump := decimal_number instruction.jump
  rw [instructionOf, hname, hvalue, hjump, Option.bind_eq_bind, Option.bind_some, instructionTypeOf_name]
  rfl

def viewName (index : ℕ) : Bytes := sv "ceasy_view_" ++ decimal index

theorem viewName_word (index : ℕ) : (∀ c ∈ viewName index, isWord c = true) ∧ viewName index ≠ [] :=
  numbered_word (by decide +kernel) index

def instructionsHead (index : ℕ) : List Token :=
  arrayHead (tableType (sv "TemplateInstruction")) (viewName index) []

def instructionsTokens (item : ViewSource × ℕ) : List Token :=
  if item.1.program.instructions.length = 0 then []
  else arrayTokens (instructionsHead item.2) (fun instruction => structTokens (instructionMembers instruction))
    item.1.program.instructions

def instructionsExternals (item : ViewSource × ℕ) : List External :=
  if item.1.program.instructions.length = 0 then []
  else [arrayExternal (instructionsHead item.2) (fun instruction => structInit (instructionMembers instruction))
    item.1.program.instructions]

theorem instructions_reads (item : ViewSource × ℕ) :
    Reads lexStep (.fresh, []) (compilerInstructions item.1 item.2) (instructionsTokens item) (.fresh, []) := by
  unfold compilerInstructions instructionsTokens
  by_cases hempty : item.1.program.instructions.length = 0
  · rw [if_pos hempty, if_pos hempty]
    exact .nil lexStep _
  rw [if_neg hempty, if_neg hempty]
  have hfront : Reads lexStep (.fresh, []) (sv "static const TemplateInstruction ceasy_view_")
      (tableType (sv "TemplateInstruction")) (.plain, sv "ceasy_view_") := by decide
  have hhead := (hfront.append (decimal_reads item.2 (sv "ceasy_view_"))).append (reads_behind arrayOpen_reads
    (by decide) (viewName_word item.2).2)
  have hitems : Reads lexStep (.fresh, []) (item.1.program.instructions.flatMap compilerInstruction)
      (item.1.program.instructions.flatMap fun instruction =>
        structTokens (instructionMembers instruction) ++ [.mark (ch ',')]) (.fresh, []) :=
    .flatMap fun instruction _ => instruction_reads instruction
  exact array_reads hhead hitems arrayClose_reads

theorem instructions_parses (item : ViewSource × ℕ) :
    Reads readStep (.head []) (instructionsTokens item) (instructionsExternals item) (.head []) := by
  unfold instructionsTokens instructionsExternals
  by_cases hempty : item.1.program.instructions.length = 0
  · rw [if_pos hempty, if_pos hempty]
    exact .nil readStep _
  rw [if_neg hempty, if_neg hempty]
  exact array_parses rfl fun instruction _ => instruction_denotes instruction

/-- What `.instructions` is initialised with. -/
def instructionsName (item : ViewSource × ℕ) : Bytes :=
  if item.1.program.instructions.length = 0 then sv "NULL" else viewName item.2

def viewMembers (item : ViewSource × ℕ) : Members :=
  [(sv "path", structTokens (literalMembers item.1.logical), structInit (literalMembers item.1.logical)),
    (sv "source_name", structTokens (literalMembers item.1.relative), structInit (literalMembers item.1.relative)),
    (sv "instructions", [.word (instructionsName item)], .scalar [.word (instructionsName item)]),
    (sv "instruction_count", [.word (decimal item.1.program.instructions.length)],
      .scalar [.word (decimal item.1.program.instructions.length)])]

theorem view_denotes (item : ViewSource × ℕ) :
    Denotes (structTokens (viewMembers item)) (structInit (viewMembers item)) := by
  refine denotes_struct fun member hmem => ?_
  simp only [viewMembers, List.mem_cons, List.not_mem_nil, or_false] at hmem
  rcases hmem with rfl | rfl | rfl | rfl
  · exact literal_denotes _
  · exact literal_denotes _
  · exact denotes_word _
  · exact denotes_word _

theorem instructionsName_word (item : ViewSource × ℕ) :
    (∀ c ∈ instructionsName item, isWord c = true) ∧ instructionsName item ≠ [] := by
  unfold instructionsName
  split_ifs
  · decide +kernel
  · exact viewName_word item.2

theorem view_reads (item : ViewSource × ℕ) :
    Reads lexStep (.fresh, []) (compilerView item.1 item.2) (structTokens (viewMembers item) ++ [.mark (ch ',')])
      (.fresh, []) := by
  obtain ⟨hword, hsome⟩ := instructionsName_word item
  have hpath : Reads lexStep (.fresh, []) (sv "    \x7b.path = \x7b.data = ")
      [.mark (ch '{'), .mark (ch '.'), .word (sv "path"), .mark (ch '='), .mark (ch '{'), .mark (ch '.'),
        .word (sv "data"), .mark (ch '=')] (.plain, []) := by decide
  have hsource : Reads lexStep (.plain, []) (sv "\x7d, .source_name = \x7b.data = ")
      [.mark (ch '}'), .mark (ch ','), .mark (ch '.'), .word (sv "source_name"), .mark (ch '='), .mark (ch '{'),
        .mark (ch '.'), .word (sv "data"), .mark (ch '=')] (.plain, []) := by decide
  have hinstructions : Reads lexStep (.plain, []) (sv "\x7d, .instructions = ")
      [.mark (ch '}'), .mark (ch ','), .mark (ch '.'), .word (sv "instructions"), .mark (ch '=')] (.plain, []) := by
    decide
  have hcount : Reads lexStep (.plain, []) (sv ", .instruction_count = ")
      [.mark (ch ','), .mark (ch '.'), .word (sv "instruction_count"), .mark (ch '=')] (.plain, []) := by
    decide
  have hall := ((hpath.append (counted_reads item.1.logical hsource (by decide))).append
    (counted_reads item.1.relative hinstructions (by decide))).append
      (((reads_word hword []).append (reads_behind hcount (by decide) hsome)).append
        ((decimal_reads item.1.program.instructions.length []).append
          (reads_behind entryEnd_reads (by decide) (decimal_ne_nil _))))
  simp only [List.append_assoc] at hall
  simp only [compilerView, List.append_assoc]
  exact hall

def viewsTokens (sources : List ViewSource) : List Token :=
  tableTokens (sv "EmbeddedView") (sv "ceasy_views") viewMembers sources.zipIdx

def viewsExternal (sources : List ViewSource) : External :=
  tableExternal (sv "EmbeddedView") (sv "ceasy_views") viewMembers sources.zipIdx

def viewFile (sources : List ViewSource) : List External :=
  sources.zipIdx.flatMap instructionsExternals ++ [viewsExternal sources] ++ bundleExternals viewBundle sources.length

theorem views_reads (sources : List ViewSource) :
    Reads lexStep (.fresh, [])
      ((if sources.length = 0 then sv "static const EmbeddedView ceasy_views[1] = \x7b\x7b0\x7d\x7d;\n\n"
          else sv "static const EmbeddedView ceasy_views[] = \x7b\n") ++
        (sources.zipIdx.flatMap fun item => compilerView item.1 item.2) ++
        (if 0 < sources.length then sv "\x7d;\n\n" else [])) (viewsTokens sources) (.fresh, []) := by
  have hmissing : Reads lexStep (.fresh, []) (sv "static const EmbeddedView ceasy_views[1] = \x7b\x7b0\x7d\x7d;\n\n")
      (tableTokens (sv "EmbeddedView") (sv "ceasy_views") viewMembers []) (.fresh, []) := by decide
  have hopen : Reads lexStep (.fresh, []) (sv "static const EmbeddedView ceasy_views[] = \x7b\n")
      (arrayHead (tableType (sv "EmbeddedView")) (sv "ceasy_views") [] ++ [.mark (ch '='), .mark (ch '{')])
      (.fresh, []) := by decide
  have htable := table_reads sources.zipIdx hmissing hopen fun item _ => view_reads item
  rw [List.length_zipIdx] at htable
  exact htable

theorem viewBundle_reads (count : ℕ) :
    Reads lexStep (.fresh, [])
      (sv "static const ViewBundle ceasy_bundle = \x7b.views = ceasy_views, .view_count = " ++ decimal count ++
        (sv "\x7d;\n\nconst ViewBundle *ceasy_view_bundle(void) \x7b\n" ++ sv "    return &ceasy_bundle;\n\x7d\n"))
      (bundleTokens viewBundle count) (.fresh, []) :=
  bundle_reads viewBundle count (by decide) (by decide +kernel) (by decide)

structure Plain (source : ViewSource) : Prop where
  logical : ¬ HasTrigraph source.logical
  relative : ¬ HasTrigraph source.relative
  instructions : ∀ instruction ∈ source.program.instructions, ¬ HasTrigraph instruction.value

theorem instruction_steady {instruction : TemplateInstruction} (h : ¬ HasTrigraph instruction.value) :
    Steady (compilerInstruction instruction) := by
  have hname : Steady (compilerInstructionName instruction.type) := by
    cases instruction.type <;> decide
  have htype : Steady (sv "    \x7b.type = ") := by decide
  have hvalue : Steady (sv ", .value = \x7b.data = ") := by decide
  have hjump : Steady (sv "\x7d, .jump = ") := by decide
  exact (((((((htype.append hname).append hvalue).append (literal_steady h)).append length_steady).append
    (decimal_steady _)).append hjump).append (decimal_steady _)).append entryEnd_steady

theorem instructions_steady {item : ViewSource × ℕ} (h : Plain item.1) :
    Steady (compilerInstructions item.1 item.2) := by
  unfold compilerInstructions
  split_ifs
  · exact ⟨rfl, by simp⟩
  · have hfront : Steady (sv "static const TemplateInstruction ceasy_view_") := by decide
    exact (((hfront.append (decimal_steady _)).append arrayOpen_steady).append
      (.flatMap fun instruction hmem => instruction_steady (h.instructions instruction hmem))).append arrayClose_steady

theorem view_steady {item : ViewSource × ℕ} (h : Plain item.1) : Steady (compilerView item.1 item.2) := by
  have hname : Steady (instructionsName item) := by
    unfold instructionsName
    split_ifs
    · decide
    · have hfront : Steady (sv "ceasy_view_") := by decide
      exact hfront.append (decimal_steady _)
  have hpath : Steady (sv "    \x7b.path = \x7b.data = ") := by decide
  have hsource : Steady (sv "\x7d, .source_name = \x7b.data = ") := by decide
  have hinstructions : Steady (sv "\x7d, .instructions = ") := by decide
  have hcount : Steady (sv ", .instruction_count = ") := by decide
  exact (((((((((((hpath.append (literal_steady h.logical)).append length_steady).append (decimal_steady _)).append
    hsource).append (literal_steady h.relative)).append length_steady).append (decimal_steady _)).append
    hinstructions).append hname).append hcount).append (decimal_steady _)).append entryEnd_steady

variable {sources : List ViewSource}

theorem mem_zipIdx_source {item : ViewSource × ℕ} (h : item ∈ sources.zipIdx) : item.1 ∈ sources := by
  obtain ⟨source, index⟩ := item
  exact List.fst_mem_of_mem_zipIdx h

theorem views_steady (h : ∀ source ∈ sources, Plain source) :
    Steady ((if sources.length = 0 then sv "static const EmbeddedView ceasy_views[1] = \x7b\x7b0\x7d\x7d;\n\n"
        else sv "static const EmbeddedView ceasy_views[] = \x7b\n") ++
      (sources.zipIdx.flatMap fun item => compilerView item.1 item.2) ++
      (if 0 < sources.length then sv "\x7d;\n\n" else [])) := by
  have hmissing : Steady (sv "static const EmbeddedView ceasy_views[1] = \x7b\x7b0\x7d\x7d;\n\n") := by decide
  have hopen : Steady (sv "static const EmbeddedView ceasy_views[] = \x7b\n") := by decide
  have htable := table_steady hmissing hopen fun item hmem => view_steady (h item.1 (mem_zipIdx_source hmem))
  rw [List.length_zipIdx] at htable
  exact htable

theorem viewBundle_steady (count : ℕ) :
    Steady (sv "static const ViewBundle ceasy_bundle = \x7b.views = ceasy_views, .view_count = " ++ decimal count ++
      (sv "\x7d;\n\nconst ViewBundle *ceasy_view_bundle(void) \x7b\n" ++ sv "    return &ceasy_bundle;\n\x7d\n")) := by
  have hopen : Steady (sv "static const ViewBundle ceasy_bundle = \x7b.views = ceasy_views, .view_count = ") := by
    decide
  have hclose : Steady (sv "\x7d;\n\nconst ViewBundle *ceasy_view_bundle(void) \x7b\n" ++
      sv "    return &ceasy_bundle;\n\x7d\n") := by decide
  exact (hopen.append (decimal_steady count)).append hclose

def viewHeader : Bytes :=
  sv "/*\n * Generated by Ceasy.\n *\n * Source: HTML files under views/\n *\n" ++
    sv " * Do not edit this file manually.\n */\n\n#include <ceasy/view/view.h>\n\n"

theorem generate_parts (sources : List ViewSource) :
    CompilerRuns.compilerGenerate sources =
      viewHeader ++ (sources.zipIdx.flatMap fun item => compilerInstructions item.1 item.2) ++
        ((if sources.length = 0 then sv "static const EmbeddedView ceasy_views[1] = \x7b\x7b0\x7d\x7d;\n\n"
            else sv "static const EmbeddedView ceasy_views[] = \x7b\n") ++
          (sources.zipIdx.flatMap fun item => compilerView item.1 item.2) ++
          (if 0 < sources.length then sv "\x7d;\n\n" else [])) ++
        (sv "static const ViewBundle ceasy_bundle = \x7b.views = ceasy_views, .view_count = " ++
          decimal sources.length ++
          (sv "\x7d;\n\nconst ViewBundle *ceasy_view_bundle(void) \x7b\n" ++
            sv "    return &ceasy_bundle;\n\x7d\n")) := by
  simp only [CompilerRuns.compilerGenerate, viewHeader, List.append_assoc]

theorem generate_externals (h : ∀ source ∈ sources, Plain source) :
    externals (CompilerRuns.compilerGenerate sources) = viewFile sources := by
  have hheader : Reads lexStep (.fresh, []) viewHeader [] (.fresh, []) := by decide +kernel
  have hsteady : Steady viewHeader := by decide +kernel
  have harrays : Reads lexStep (.fresh, []) (sources.zipIdx.flatMap fun item => compilerInstructions item.1 item.2)
      (sources.zipIdx.flatMap instructionsTokens) (.fresh, []) := .flatMap fun item _ => instructions_reads item
  have harraysSteady : Steady (sources.zipIdx.flatMap fun item => compilerInstructions item.1 item.2) :=
    .flatMap fun item hmem => instructions_steady (h item.1 (mem_zipIdx_source hmem))
  have hparsed : Reads readStep (.head []) (sources.zipIdx.flatMap instructionsTokens)
      (sources.zipIdx.flatMap instructionsExternals) (.head []) := .flatMap fun item _ => instructions_parses item
  rw [generate_parts]
  have htokens := tokens_of_reads
    (((hsteady.append harraysSteady).append (views_steady h)).append (viewBundle_steady sources.length))
    (((hheader.append harrays).append (views_reads sources)).append (viewBundle_reads sources.length))
  rw [ended, if_pos rfl, List.append_nil, List.nil_append] at htokens
  have hfile := externals_of_reads htokens
    ((hparsed.append (table_parses _ _ fun item _ => view_denotes item)).append (bundle_parses viewBundle sources.length))
  exact hfile

theorem mem_instructionsExternals {declared : External} (h : declared ∈ sources.zipIdx.flatMap instructionsExternals) :
    ∃ item ∈ sources.zipIdx, declared = arrayExternal (instructionsHead item.2)
      (fun instruction => structInit (instructionMembers instruction)) item.1.program.instructions := by
  obtain ⟨item, hitem, hdeclared⟩ := List.mem_flatMap.mp h
  unfold instructionsExternals at hdeclared
  split_ifs at hdeclared
  · cases hdeclared
  · exact ⟨item, hitem, List.mem_singleton.mp hdeclared⟩

theorem instructions_arrays (sources : List ViewSource) : Arrays (sources.zipIdx.flatMap instructionsExternals) := by
  intro declared hmem
  obtain ⟨item, -, rfl⟩ := mem_instructionsExternals hmem
  exact ⟨_, _, _, _, rfl⟩

theorem viewFile_bundle :
    bundleOf (viewFile sources) viewBundle = some (sv "ceasy_views", sources.length) :=
  bundleOf_found viewBundle sources.length ((instructions_arrays sources).append (arrays_table _ _ _ _))
    (by decide)

theorem viewFile_views :
    arrayOf (viewFile sources) (tableType (sv "EmbeddedView")) (sv "ceasy_views") sources.length =
      some (sources.zipIdx.map fun item => structInit (viewMembers item)) := by
  have hnone : (sources.zipIdx.flatMap instructionsExternals).findSome?
      (arrayValue (tableType (sv "EmbeddedView")) (sv "ceasy_views")) = none := by
    rw [List.findSome?_eq_none_iff]
    intro declared hdeclared
    obtain ⟨item, -, rfl⟩ := mem_instructionsExternals hdeclared
    rfl
  have htable := arrayOf_table viewMembers sources.zipIdx (bundleExternals viewBundle sources.length) hnone
  rwa [List.length_zipIdx] at htable

theorem viewFile_instructions {item : ViewSource × ℕ} (hitem : item ∈ sources.zipIdx)
    (hsome : item.1.program.instructions.length ≠ 0) :
    arrayOf (viewFile sources) (tableType (sv "TemplateInstruction")) (viewName item.2)
      item.1.program.instructions.length =
        some (item.1.program.instructions.map fun instruction => structInit (instructionMembers instruction)) := by
  refine arrayOf_found ?_
  have hfound : (sources.zipIdx.flatMap instructionsExternals).findSome?
      (arrayValue (tableType (sv "TemplateInstruction")) (viewName item.2)) =
        some (.list (item.1.program.instructions.map fun instruction =>
          (none, structInit (instructionMembers instruction)))) := by
    have hmem : arrayExternal (instructionsHead item.2) (fun instruction => structInit (instructionMembers instruction))
        item.1.program.instructions ∈ sources.zipIdx.flatMap instructionsExternals := by
      refine List.mem_flatMap.mpr ⟨item, hitem, ?_⟩
      rw [instructionsExternals, if_neg hsome]
      exact List.mem_singleton_self _
    refine findSome_mem hmem (arrayValue_head _ _ _ _) fun declared hdeclared value hvalue => ?_
    obtain ⟨other, hother, rfl⟩ := mem_instructionsExternals hdeclared
    obtain ⟨hname, rfl⟩ := arrayValue_name hvalue
    rw [zipIdx_index hitem hother (numbered_inj _ _ rfl hname).2]
  rw [viewFile, List.findSome?_append, List.findSome?_append, hfound]
  rfl

theorem view_read {item : ViewSource × ℕ} (hitem : item ∈ sources.zipIdx) (h : Plain item.1) :
    embeddedViewOf (viewFile sources) (structInit (viewMembers item)) =
      some ⟨item.1.logical, item.1.relative, item.1.program.instructions⟩ := by
  have hpath : ((structInit (viewMembers item)).member (sv "path")).bind (stringViewOf literalOf) =
      some item.1.logical := literal_read h.logical
  have hsource : ((structInit (viewMembers item)).member (sv "source_name")).bind (stringViewOf literalOf) =
      some item.1.relative := literal_read h.relative
  have hcount : ((structInit (viewMembers item)).member (sv "instruction_count")).bind Initializer.number =
      some item.1.program.instructions.length := decimal_number _
  have hmember : (structInit (viewMembers item)).member (sv "instructions") =
      some (.scalar [.word (instructionsName item)]) := rfl
  have hinstructions : instructionsOf (viewFile sources) item.1.program.instructions.length
      (.scalar [.word (instructionsName item)]) = some item.1.program.instructions := by
    rw [instructionsOf, Initializer.name, Option.bind_eq_bind, Option.bind_some, instructionsName]
    by_cases hempty : item.1.program.instructions.length = 0
    · rw [if_pos hempty, if_pos rfl, if_pos hempty, List.length_eq_zero_iff.mp hempty]
    · have hname : viewName item.2 ≠ sv "NULL" := fun heq => by
        have hfirst := congrArg List.head? heq
        rw [viewName, List.head?_append_of_ne_nil _ (by decide)] at hfirst
        exact absurd hfirst (by decide)
      rw [if_neg hempty, if_neg hname, viewFile_instructions hitem hempty, Option.bind_eq_bind, Option.bind_some]
      have hall : (item.1.program.instructions.map fun instruction =>
          structInit (instructionMembers instruction)).mapM instructionOf =
            some (item.1.program.instructions.map id) :=
        Sql.mapM_map fun instruction hmem => instruction_read (h.instructions instruction hmem)
      rwa [List.map_id] at hall
  rw [embeddedViewOf, hpath, Option.bind_eq_bind, Option.bind_some, hsource, Option.bind_eq_bind, Option.bind_some,
    hcount, Option.bind_eq_bind, Option.bind_some, hmember, Option.bind_some, hinstructions]
  rfl

/-- The file that is generated for some views, read as C, is the bundle of these views: each with
its path, its source's name and its instructions. Where a text holds two question marks that begin a
trigraph, the file says something else. -/
theorem generated_views_declare (h : ∀ source ∈ sources, Plain source) :
    viewBundleOf (externals (CompilerRuns.compilerGenerate sources)) =
      some (ViewCompiler.compilerGenerate sources) := by
  have hviews : (sources.zipIdx.map fun item => structInit (viewMembers item)).mapM
      (embeddedViewOf (viewFile sources)) =
        some (sources.zipIdx.map fun item => ⟨item.1.logical, item.1.relative, item.1.program.instructions⟩) :=
    Sql.mapM_map fun item hmem => view_read hmem (h item.1 (mem_zipIdx_source hmem))
  have hmap : (sources.zipIdx.map fun item => (⟨item.1.logical, item.1.relative, item.1.program.instructions⟩ :
      EmbeddedView)) = ViewCompiler.compilerGenerate sources := by
    have hfirst := congrArg (List.map fun source : ViewSource =>
      (⟨source.logical, source.relative, source.program.instructions⟩ : EmbeddedView)) (List.zipIdx_map_fst 0 sources)
    rwa [List.map_map] at hfirst
  rw [generate_externals h, viewBundleOf, viewFile_bundle, Option.bind_eq_bind, Option.bind_some]
  dsimp only
  rw [viewFile_views, Option.bind_eq_bind, Option.bind_some, hviews, hmap]

/-- A view with a quote and a variable, and one without instructions. -/
def greetingSources : List ViewSource :=
  [⟨sv "empty.html", sv "empty", {}⟩,
    ⟨sv "greeting.html", sv "greeting",
      { instructions := [⟨.instructionText, sv "<p class=\"a\">\n", 0⟩, ⟨.instructionVariable, sv "name", 0⟩] }⟩]

theorem generated_views_declare_greeting :
    viewBundleOf (externals (CompilerRuns.compilerGenerate greetingSources)) =
      some [⟨sv "empty", sv "empty.html", []⟩,
        ⟨sv "greeting", sv "greeting.html",
          [⟨.instructionText, sv "<p class=\"a\">\n", 0⟩, ⟨.instructionVariable, sv "name", 0⟩]⟩] := by
  have hplain : ∀ value : Bytes, (∀ c ∈ value, c ≠ ch '?') → ¬ HasTrigraph value := by
    rintro value hvalue ⟨before, c, after, rfl, -⟩
    exact hvalue (ch '?') (by simp) rfl
  refine generated_views_declare fun source hsource => ?_
  simp only [greetingSources, List.mem_cons, List.not_mem_nil, or_false] at hsource
  rcases hsource with rfl | rfl
  · exact ⟨hplain _ (by decide +kernel), hplain _ (by decide +kernel), fun _ hmem => absurd hmem List.not_mem_nil⟩
  · refine ⟨hplain _ (by decide +kernel), hplain _ (by decide +kernel), fun instruction hmem => ?_⟩
    simp only [List.mem_cons, List.not_mem_nil, or_false] at hmem
    rcases hmem with rfl | rfl
    · exact hplain _ (by decide +kernel)
    · exact hplain _ (by decide +kernel)

end Ceasy.GeneratedViews
