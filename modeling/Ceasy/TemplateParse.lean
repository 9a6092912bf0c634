import Ceasy.StringView

set_option autoImplicit false

/-!
# The template parser

One pass over the source emits a flat instruction array, keeping a stack of open
sections and filling in each section's jump when its closing tag is read. Arena
allocation is taken to succeed, so the "out of memory" errors do not occur.
-/
namespace Ceasy.TemplateParse
open StringView

inductive TemplateInstructionType where
  | instructionText
  | instructionVariable
  | instructionSection
  | instructionInverseSection
  | instructionPartial
  | instructionYield
deriving DecidableEq, Repr

structure TemplateInstruction where
  type : TemplateInstructionType
  value : Bytes := []
  jump : ℕ := 0
deriving DecidableEq, Repr

/-- A program; its `instruction_count` is the length of the list. -/
structure TemplateProgram where
  instructions : List TemplateInstruction := []
  sourceName : Bytes := []
deriving DecidableEq, Repr

structure TemplateSection where
  name : Bytes
  instructionIndex : ℕ
deriving DecidableEq, Repr

structure TemplateError where
  sourceName : Bytes := []
  offset : ℕ := 0
  line : ℕ := 0
  column : ℕ := 0
  message : Bytes := []
deriving DecidableEq, Repr

/-- Line and column after the given bytes, both counted from one. -/
def templatePosition (consumed : Bytes) : ℕ × ℕ :=
  consumed.foldl (fun p byte => if byte = ch '\n' then (p.1 + 1, 1) else (p.1, p.2 + 1)) (1, 1)

def templateErrorSet (sourceName source : Bytes) (offset : ℕ) (message : Bytes) : TemplateError :=
  let position := templatePosition (source.take offset)
  ⟨sourceName, offset, position.1, position.2, message⟩

def asciiLetter (c : UInt8) : Bool :=
  (ch 'a' ≤ c && c ≤ ch 'z') || (ch 'A' ≤ c && c ≤ ch 'Z')

def asciiDigit (c : UInt8) : Bool := ch '0' ≤ c && c ≤ ch '9'

def templateIdentifier (value : Bytes) : Bool :=
  match value with
  | [] => false
  | first :: rest =>
    (asciiLetter first || first == ch '_') &&
      rest.all fun c => asciiLetter c || asciiDigit c || c == ch '_'

/-- The loop of `template_variable_path` on the unread part of the value. -/
def templateVariableSegments (rest : Bytes) : Bool :=
  if templateIdentifier (rest.takeWhile (· != ch '.')) then
    match _h : rest.dropWhile (· != ch '.') with
    | [] => true
    | _ :: next => if next = [] then false else templateVariableSegments next
  else false
termination_by rest.length
decreasing_by
  have := List.length_dropWhile_le (· != ch '.') rest
  rw [_h, List.length_cons] at this
  omega

def templateVariablePath (value : Bytes) : Bool :=
  if value.length = 0 then false else templateVariableSegments value

def viewPathSegment (part : Bytes) : Bool :=
  !part.contains (ch '\\') && !part.isEmpty && !stringvEqual part (sv ".") &&
    !stringvEqual part (sv "..") &&
    part.all fun c => asciiLetter c || asciiDigit c || c == ch '_' || c == ch '-'

/-- The loop of `view_path_valid` on the unread part of the path. -/
def viewPathSegments (rest : Bytes) : Bool :=
  if viewPathSegment (rest.takeWhile (· != ch '/')) then
    match _h : rest.dropWhile (· != ch '/') with
    | [] => true
    | _ :: next => if next = [] then false else viewPathSegments next
  else false
termination_by rest.length
decreasing_by
  have := List.length_dropWhile_le (· != ch '/') rest
  rw [_h, List.length_cons] at this
  omega

def viewPathValid (path : Bytes) : Bool :=
  if path.length = 0 || path.head? == some (ch '/') || path.head? == some (ch '\\') ||
      path[1]? == some (ch ':') then false
  else viewPathSegments path

/-- The instructions emitted and the open sections, innermost first. -/
structure TemplateState where
  instructions : List TemplateInstruction := []
  sections : List TemplateSection := []
deriving DecidableEq, Repr

def templateInstructionPush (state : TemplateState) (instruction : TemplateInstruction) :
    TemplateState :=
  { state with instructions := state.instructions ++ [instruction] }

/-- The instruction of an opening tag goes on the section stack as well. -/
def templateSectionPush (state : TemplateState) (instruction : TemplateInstruction) :
    TemplateState :=
  ⟨state.instructions ++ [instruction],
    ⟨instruction.value, state.instructions.length⟩ :: state.sections⟩

def templateTag (state : TemplateState) (tag : Bytes) : Except Bytes TemplateState :=
  let name := stringvTrim (stringvFrom tag 1)
  if tag.length = 0 then .error (sv "empty template tag")
  else if stringvEqual tag (sv "yield") then
    .ok (templateInstructionPush state { type := .instructionYield })
  else if tag.head? == some (ch '#') || tag.head? == some (ch '^') then
    if templateVariablePath name then
      .ok (templateSectionPush state
        { type := if tag.head? == some (ch '#') then .instructionSection
            else .instructionInverseSection
          value := name })
    else .error (sv "invalid section name")
  else if tag.head? == some (ch '/') then
    match state.sections with
    | [] => .error (sv "unexpected closing section")
    | innermost :: sections =>
      if !templateVariablePath name then .error (sv "unexpected closing section")
      else if stringvEqual name innermost.name then
        .ok ⟨state.instructions.modify innermost.instructionIndex
          fun instruction => { instruction with jump := state.instructions.length }, sections⟩
      else .error (sv "mismatched closing section")
  else if tag.head? == some (ch '>') then
    if viewPathValid name then
      .ok (templateInstructionPush state { type := .instructionPartial, value := name })
    else .error (sv "invalid partial path")
  else if templateVariablePath tag then
    .ok (templateInstructionPush state { type := .instructionVariable, value := tag })
  else .error (sv "invalid template expression")

/-- A non-empty text piece becomes an instruction. -/
def templateTextPush (state : TemplateState) (text : Bytes) : TemplateState :=
  if text.length = 0 then state
  else templateInstructionPush state { type := .instructionText, value := text }

def tagOpening : Bytes := sv "\x7b\x7b"

def tagClosing : Bytes := sv "\x7d\x7d"

/-- The scanning loop; an error carries the offset it is reported at. -/
def templateScan (source : Bytes) (cursor : ℕ) (state : TemplateState) :
    Except (ℕ × Bytes) TemplateState :=
  if _hcursor : cursor < source.length then
    match stringvFind (stringvFrom source cursor) tagOpening with
    | none => .ok (templateTextPush state (stringvFrom source cursor))
    | some relative =>
      let marker := cursor + relative
      match stringvFind (stringvFrom source (marker + 2)) tagClosing with
      | none => .error (marker, sv "unclosed template tag")
      | some closeRelative =>
        let close := marker + 2 + closeRelative
        match templateTag (templateTextPush state (stringvSlice source cursor (marker - cursor)))
            (stringvTrim (stringvSlice source (marker + 2) (close - marker - 2))) with
        | .error message => .error (marker, message)
        | .ok state => templateScan source (close + 2) state
  else .ok state
termination_by source.length - cursor

/-- What a call leaves behind: its result, the program and the error. -/
structure TemplateOutcome where
  ok : Bool
  program : TemplateProgram
  error : TemplateError
deriving DecidableEq, Repr

/-- The program and error passed in are cleared first. -/
def templateParse (source sourceName : Bytes) : TemplateOutcome :=
  match templateScan source 0 {} with
  | .error (offset, message) =>
    ⟨false, {}, templateErrorSet sourceName source offset message⟩
  | .ok state =>
    if state.sections ≠ [] then
      ⟨false, {}, templateErrorSet sourceName source source.length (sv "unclosed section")⟩
    else ⟨true, ⟨state.instructions, sourceName⟩, {}⟩

/-- The program of the parser's own test: the section jumps past its body. -/
example : (templateParse (sv "Hello " ++ tagOpening ++ sv "name" ++ tagClosing ++ tagOpening ++
      sv "#items" ++ tagClosing ++ sv "x" ++ tagOpening ++ sv "/items" ++ tagClosing)
      (sv "test.html")).program =
    ⟨[⟨.instructionText, sv "Hello ", 0⟩, ⟨.instructionVariable, sv "name", 0⟩,
      ⟨.instructionSection, sv "items", 4⟩, ⟨.instructionText, sv "x", 0⟩], sv "test.html"⟩ := by
  cbv

end Ceasy.TemplateParse
