import Ceasy.StringMap
import Ceasy.TemplateParse

set_option autoImplicit false

/-!
# Views

Loading a template from the views directory or the embedded bundle and running
its instructions. The renderer walks an index through the instructions, enters
the range of a section once or once for every item, and continues at its jump.
Allocation succeeds, so every failure sets an error.
-/
namespace Ceasy.View
open StringView Allocator TemplateParse Collection

def CEASY_VIEW_MAX_NESTING : ℕ := 64

def PATH_MAX : ℕ := 4096

def sizeofViewValue : ℕ := 32

inductive ModelFieldType where
  | fieldString
  | fieldInt64
  | fieldBool
deriving DecidableEq, Repr

structure ModelField where
  name : Bytes
  type : ModelFieldType
  offset : ℕ
deriving DecidableEq, Repr

/-- The fields and the record size; the columns and queries are not read here. -/
structure ModelDefinition where
  size : ℕ
  fields : List ModelField
deriving DecidableEq, Repr

/-- The memory a record pointer points at, by offset and by the type it is read with. -/
structure Record where
  string : ℕ → Bytes
  int64 : ℕ → Int64
  bool : ℕ → Bool

/-- The pointer moved on by `offset` bytes. -/
def Record.advance (record : Record) (offset : ℕ) : Record where
  string at_ := record.string (offset + at_)
  int64 at_ := record.int64 (offset + at_)
  bool at_ := record.bool (offset + at_)

structure ViewModel where
  record : Option Record
  definition : Option ModelDefinition

structure ViewCollection where
  items : Option Record
  length : ℕ
  definition : Option ModelDefinition

inductive ViewValue where
  | empty
  | string (value : Bytes)
  | int64 (value : Int64)
  | bool (value : Bool)
  | model (model : ViewModel)
  | collection (collection : ViewCollection)

structure ViewData where
  values : StringMap ViewValue := {}

structure ViewScope where
  record : Option Record
  definition : Option ModelDefinition

structure EmbeddedView where
  path : Bytes
  sourceName : Bytes
  instructions : List TemplateInstruction

inductive ViewFile where
  | missing
  | unopened
  | unsized
  | unread
  | source (source : Bytes)

/-- The working directory, the files by name and the embedded views, NULL being no views. -/
structure ViewStore where
  root : Option Bytes
  file : Bytes → ViewFile
  bundle : List EmbeddedView

structure Context where
  viewData : ViewData
  store : ViewStore

inductive ViewError where
  | invalidViewPath
  | couldNotOpen
  | couldNotSize
  | couldNotRead
  | template (error : TemplateError)
  | viewNotFound (path : Bytes)
  | nestingExceeded
  | invalidProgram
  | unknownValue (name : Bytes)
  | notRenderable
  | yieldOutsideLayout
  | invalidJump
  | invalidCollection
  | invalidCollectionSize
deriving DecidableEq, Repr

def ViewError.text : ViewError → Bytes
  | .invalidViewPath => sv "invalid view path"
  | .couldNotOpen => sv "could not open view file"
  | .couldNotSize => sv "could not determine view file size"
  | .couldNotRead => sv "could not read view file"
  | .template error =>
    error.sourceName ++ sv ":" ++ decimal error.line ++ sv ":" ++ decimal error.column ++ sv ": " ++
      error.message
  | .viewNotFound path =>
    if INT_MAX < path.length then sv "view not found" else sv "view not found: " ++ path
  | .nestingExceeded => sv "template nesting depth exceeded"
  | .invalidProgram => sv "invalid template program"
  | .unknownValue name => sv "unknown value '" ++ name ++ sv "'"
  | .notRenderable => sv "value cannot be rendered directly"
  | .yieldOutsideLayout => sv "yield is only available in a layout"
  | .invalidJump => sv "invalid section jump"
  | .invalidCollection => sv "invalid view collection"
  | .invalidCollectionSize => sv "invalid view collection size"

def viewNameValid (name : Bytes) : Bool :=
  name.length ≠ 0 && name.all fun c => asciiLetter c || asciiDigit c || c == ch '_' || c == ch '.'

def viewGet (data : ViewData) (name : Bytes) : Option ViewValue :=
  if viewNameValid name then smGetObjectConst data.values name sizeofViewValue else none

/-- The map of the context after setting a name; it is initialised by the first set. -/
def viewSet (allocator : AllocatorAllocFn) (data : ViewData) (ledger : Ledger) (name : Bytes)
    (value : ViewValue) : Option (Outcome ViewValue) :=
  if !viewNameValid name then some ⟨false, data.values, ledger⟩
  else
    let values := if data.values.initialized then data.values else smInit
    let (object, ledger) := smObject allocator values ledger (some value) sizeofViewValue
    smSetValue allocator values ledger name object

def viewFindField (definition : ModelDefinition) (name : Bytes) : Option ModelField :=
  definition.fields.find? fun field => stringvEqual field.name name

def modelFieldSize : ModelFieldType → ℕ
  | .fieldString => 56
  | .fieldInt64 => 8
  | .fieldBool => 1

/-- A field is read only where it lies inside the record. -/
def viewModelField (model : ViewModel) (fieldName : Bytes) : Option ViewValue :=
  match model.record, model.definition with
  | some record, some definition =>
    (viewFindField definition fieldName).bind fun field =>
      if definition.size < field.offset ∨
          definition.size - field.offset < modelFieldSize field.type then none
      else
        match field.type with
        | .fieldString => some (.string (record.string field.offset))
        | .fieldInt64 => some (.int64 (record.int64 field.offset))
        | .fieldBool => some (.bool (record.bool field.offset))
  | _, _ => none

/-- The current item's field of this name, for a name without a dot. -/
def viewScopeField (scope : Option ViewScope) (path : Bytes) : Option ViewValue :=
  scope.bind fun scope =>
    if (stringvFindChar path (ch '.')).isSome then none
    else viewModelField ⟨scope.record, scope.definition⟩ path

def viewResolve (data : ViewData) (path : Bytes) (scope : Option ViewScope) : Option ViewValue :=
  match viewScopeField scope path with
  | some value => some value
  | none =>
    match stringvFindChar path (ch '.') with
    | none => viewGet data path
    | some dot =>
      match viewGet data (stringvSlice path 0 dot) with
      | none => none
      | some value =>
        let fieldName := stringvFrom path (dot + 1)
        if fieldName.length = 0 || (stringvFindChar fieldName (ch '.')).isSome then none
        else
          match value with
          | .model model => viewModelField model fieldName
          | _ => none

def viewTruthy : ViewValue → Bool
  | .empty => false
  | .string value => 0 < value.length
  | .int64 value => value ≠ 0
  | .bool value => value
  | .model model => model.record.isSome
  | .collection collection => 0 < collection.length

def htmlEscape (c : UInt8) : Bytes :=
  if c = ch '&' then sv "&amp;"
  else if c = ch '<' then sv "&lt;"
  else if c = ch '>' then sv "&gt;"
  else if c = ch '"' then sv "&quot;"
  else if c = ch '\'' then sv "&#39;"
  else [c]

def htmlEscapeAppend (output value : Bytes) : Bytes := output ++ value.flatMap htmlEscape

/-- The output with the value appended, or nothing for a value that has no text. -/
def viewRenderValue (output : Bytes) : ViewValue → Option Bytes
  | .empty => some output
  | .string value => some (htmlEscapeAppend output value)
  | .int64 value => some (output ++ signedDecimal value.toInt)
  | .bool value => some (output ++ if value then sv "true" else sv "false")
  | _ => none

inductive ViewLoadResult where
  | missing
  | found (program : TemplateProgram)
  | error (error : ViewError)

def viewFilename (root name : Bytes) : Bytes := root ++ sv "/views/" ++ name ++ sv ".html"

/-- The name with an underscore before its last segment. -/
def viewPartialName (path : Bytes) : Bytes :=
  match stringvRfindChar path (ch '/') with
  | none => sv "_" ++ path
  | some slash => stringvSlice path 0 (slash + 1) ++ sv "_" ++ stringvFrom path (slash + 1)

def viewReadFile (filename path : Bytes) : ViewFile → ViewLoadResult
  | .missing | .unopened => .error .couldNotOpen
  | .unsized => .error .couldNotSize
  | .unread => .error .couldNotRead
  | .source source =>
    let out := templateParse source filename
    if out.ok then .found { out.program with sourceName := path } else .error (.template out.error)

def viewLoadFilesystem (store : ViewStore) (path : Bytes) : ViewLoadResult :=
  match store.root with
  | none => .error .invalidViewPath
  | some root =>
    let filename := viewFilename root path
    let partialFilename := viewFilename root (viewPartialName path)
    if !viewPathValid path || INT_MAX < path.length || PATH_MAX ≤ filename.length then
      .error .invalidViewPath
    else
      match store.file filename with
      | .missing =>
        if PATH_MAX ≤ partialFilename.length then .error .invalidViewPath
        else
          match store.file partialFilename with
          | .missing => .missing
          | file => viewReadFile partialFilename path file
      | file => viewReadFile filename path file

def viewBundleFind (bundle : List EmbeddedView) (path : Bytes) : Option EmbeddedView :=
  bundle.find? fun view => stringvEqual view.path path

def viewLoad (store : ViewStore) (path : Bytes) : ViewLoadResult :=
  if !viewPathValid path then .error .invalidViewPath
  else
    match viewLoadFilesystem store path with
    | .missing =>
      match viewBundleFind store.bundle path with
      | none => .missing
      | some embedded =>
        .found ⟨embedded.instructions,
          if embedded.sourceName.length = 0 then embedded.path else embedded.sourceName⟩
    | result => result

structure Rendered where
  output : Bytes
  error : Option ViewError := none
deriving DecidableEq, Repr

def itemScope (items : Record) (definition : ModelDefinition) (index : ℕ) : ViewScope :=
  ⟨some (items.advance (index * definition.size)), some definition⟩

mutual

def viewRenderPartial (context : Context) (path : Bytes) (scope : Option ViewScope)
    (output : Bytes) (depth : ℕ) : Rendered :=
  if _hdepth : CEASY_VIEW_MAX_NESTING ≤ depth then ⟨output, some .nestingExceeded⟩
  else
    match viewLoad context.store path with
    | .missing => ⟨output, some (.viewNotFound path)⟩
    | .error error => ⟨output, some error⟩
    | .found program =>
      viewRenderProgram context program 0 program.instructions.length scope output none false
        (depth + 1)
termination_by (CEASY_VIEW_MAX_NESTING + 1 - depth, 0, 0)

def viewRenderProgram (context : Context) (program : TemplateProgram) (start stop : ℕ)
    (scope : Option ViewScope) (output : Bytes) (yieldHtml : Option Bytes) (allowYield : Bool)
    (depth : ℕ) : Rendered :=
  if CEASY_VIEW_MAX_NESTING < depth ∨ program.instructions.length < stop ∨ stop < start then
    ⟨output, some .invalidProgram⟩
  else viewRenderLoop context program start stop scope output yieldHtml allowYield depth
termination_by (CEASY_VIEW_MAX_NESTING + 1 - depth, stop - start, 1)

/-- The loop of `view_render_program`. -/
def viewRenderLoop (context : Context) (program : TemplateProgram) (index stop : ℕ)
    (scope : Option ViewScope) (output : Bytes) (yieldHtml : Option Bytes) (allowYield : Bool)
    (depth : ℕ) : Rendered :=
  if _hindex : index < stop then
    match program.instructions[index]? with
    | none => ⟨output, some .invalidProgram⟩
    | some instruction =>
      match instruction.type with
      | .instructionText =>
        viewRenderLoop context program (index + 1) stop scope (output ++ instruction.value) yieldHtml
          allowYield depth
      | .instructionVariable =>
        match viewResolve context.viewData instruction.value scope with
        | none => ⟨output, some (.unknownValue instruction.value)⟩
        | some value =>
          match viewRenderValue output value with
          | none => ⟨output, some .notRenderable⟩
          | some output =>
            viewRenderLoop context program (index + 1) stop scope output yieldHtml allowYield depth
      | .instructionPartial =>
        let rendered := viewRenderPartial context instruction.value scope output depth
        if rendered.error.isSome then rendered
        else
          viewRenderLoop context program (index + 1) stop scope rendered.output yieldHtml allowYield
            depth
      | .instructionYield =>
        match yieldHtml with
        | none => ⟨output, some .yieldOutsideLayout⟩
        | some html =>
          if !allowYield then ⟨output, some .yieldOutsideLayout⟩
          else
            viewRenderLoop context program (index + 1) stop scope (output ++ html) (some html)
              allowYield depth
      | type =>
        match viewResolve context.viewData instruction.value scope with
        | none => ⟨output, some (.unknownValue instruction.value)⟩
        | some value =>
          let inverse := type == .instructionInverseSection
          if _hjump : instruction.jump < index + 1 ∨ stop < instruction.jump then
            ⟨output, some .invalidJump⟩
          else
            let rendered :=
              if viewTruthy value == inverse then ⟨output, none⟩
              else
                match value, inverse with
                | .collection collection, false =>
                  viewRenderCollection context program collection (index + 1) instruction.jump output
                    yieldHtml allowYield depth
                | _, _ =>
                  viewRenderProgram context program (index + 1) instruction.jump scope output
                    yieldHtml allowYield depth
            if rendered.error.isSome then rendered
            else
              viewRenderLoop context program instruction.jump stop scope rendered.output yieldHtml
                allowYield depth
  else ⟨output, none⟩
termination_by (CEASY_VIEW_MAX_NESTING + 1 - depth, stop - index, 0)

def viewRenderCollection (context : Context) (program : TemplateProgram)
    (collection : ViewCollection) (start stop : ℕ) (output : Bytes) (yieldHtml : Option Bytes)
    (allowYield : Bool) (depth : ℕ) : Rendered :=
  match collection.definition, collection.items with
  | some definition, some items =>
    if definition.size = 0 then ⟨output, some .invalidCollection⟩
    else
      viewRenderItems context program items definition 0 collection.length start stop output
        yieldHtml allowYield depth
  | some definition, none =>
    if definition.size = 0 ∨ 0 < collection.length then ⟨output, some .invalidCollection⟩
    else ⟨output, none⟩
  | none, _ => ⟨output, some .invalidCollection⟩
termination_by (CEASY_VIEW_MAX_NESTING + 1 - depth, stop - start, 3 + collection.length)

/-- The loop over the items from `itemIndex` on. -/
def viewRenderItems (context : Context) (program : TemplateProgram) (items : Record)
    (definition : ModelDefinition) (itemIndex remaining : ℕ) (start stop : ℕ) (output : Bytes)
    (yieldHtml : Option Bytes) (allowYield : Bool) (depth : ℕ) : Rendered :=
  match remaining with
  | 0 => ⟨output, none⟩
  | remaining + 1 =>
    if SIZE_MAX / definition.size < itemIndex then ⟨output, some .invalidCollectionSize⟩
    else
      let rendered := viewRenderProgram context program start stop
        (some (itemScope items definition itemIndex)) output yieldHtml allowYield depth
      if rendered.error.isSome then rendered
      else
        viewRenderItems context program items definition (itemIndex + 1) remaining start stop
          rendered.output yieldHtml allowYield depth
termination_by (CEASY_VIEW_MAX_NESTING + 1 - depth, stop - start, 2 + remaining)

end

def viewRenderToString (context : Context) (path output : Bytes) : Rendered :=
  match viewLoad context.store path with
  | .missing => ⟨output, some (.viewNotFound path)⟩
  | .error error => ⟨output, some error⟩
  | .found program =>
    viewRenderProgram context program 0 program.instructions.length none output none false 0

def layoutPath : Bytes := sv "layouts/application"

/-- The view of a string, which has no data as long as nothing has been appended. -/
def stringAsView (string : Bytes) : Option Bytes :=
  if string.length = 0 then none else some string

def viewRenderWithLayout (context : Context) (path output : Bytes) : Rendered :=
  match viewLoad context.store path with
  | .missing => ⟨output, some (.viewNotFound path)⟩
  | .error error => ⟨output, some error⟩
  | .found bodyProgram =>
    let body := viewRenderProgram context bodyProgram 0 bodyProgram.instructions.length none [] none
      false 0
    if body.error.isSome then ⟨output, body.error⟩
    else
      match viewLoad context.store layoutPath with
      | .missing => ⟨output ++ body.output, none⟩
      | .error error => ⟨output, some error⟩
      | .found layoutProgram =>
        viewRenderProgram context layoutProgram 0 layoutProgram.instructions.length none output
          (stringAsView body.output) true 0

end Ceasy.View
