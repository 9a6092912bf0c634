import Ceasy.View
import Ceasy.TemplateGrammar

set_option autoImplicit false

/-!
# The meaning of a template tree

Rendering read off the tree: texts are copied, names are looked up in the current
item and then in the view data, sections choose and repeat their subtrees. No
index, range or jump occurs here; the renderer of instructions is shown to
compute this meaning on every flattened tree.
-/
namespace Ceasy.ViewTree
open StringView TemplateParse TemplateGrammar JumpForest View

def fail (error : ViewError) : Rendered := ⟨[], some error⟩

def nothing : Rendered := ⟨[], none⟩

/-- The second rendering follows where the first succeeds. -/
def andThen (first second : Rendered) : Rendered :=
  if first.error.isSome then first else ⟨first.output ++ second.output, second.error⟩

section Meaning
variable (data : ViewData) (partialView : Bytes → Option ViewScope → Rendered)
  (yieldHtml : Option Bytes)

/-- A name is a field of the current item or else an entry of the view data; a
    dotted pair is a field of a model in the view data. -/
def resolve (scope : Option ViewScope) (path : Bytes) : Option ViewValue :=
  match path.splitOn (ch '.') with
  | [name] =>
    (scope.bind fun scope => viewModelField ⟨scope.record, scope.definition⟩ name).or
      (viewGet data name)
  | [root, field] =>
    match viewGet data root with
    | some (.model model) => if field = [] then none else viewModelField model field
    | _ => none
  | _ => none

def valueText : ViewValue → Option Bytes
  | .empty => some []
  | .string value => some (value.flatMap htmlEscape)
  | .int64 value => some (signedDecimal value.toInt)
  | .bool value => some (if value then sv "true" else sv "false")
  | .model _ | .collection _ => none

def leafRendering (scope : Option ViewScope) : Leaf → Rendered
  | .text value => ⟨value, none⟩
  | .variablePath path =>
    match resolve data scope path with
    | none => fail (.unknownValue path)
    | some value =>
      match valueText value with
      | none => fail .notRenderable
      | some text => ⟨text, none⟩
  | .partialView path => partialView path scope
  | .layoutYield =>
    match yieldHtml with
    | none => fail .yieldOutsideLayout
    | some html => ⟨html, none⟩

/-- The items from an index on, each with itself as scope. -/
def itemsRendering (body : Option ViewScope → Rendered) (items : Record)
    (definition : ModelDefinition) : ℕ → ℕ → Rendered
  | _, 0 => nothing
  | index, remaining + 1 =>
    if SIZE_MAX / definition.size < index then fail .invalidCollectionSize
    else
      andThen (body (some (itemScope items definition index)))
        (itemsRendering body items definition (index + 1) remaining)

/-- The items of a non-empty collection; they need a definition that gives them a size. -/
def collectionRendering (body : Option ViewScope → Rendered) (collection : ViewCollection) :
    Rendered :=
  match collection.definition, collection.items with
  | some definition, some items =>
    if definition.size = 0 then fail .invalidCollection
    else itemsRendering body items definition 0 collection.length
  | _, _ => fail .invalidCollection

def sectionRendering (tag : SectionTag) (body : Option ViewScope → Rendered)
    (scope : Option ViewScope) : Rendered :=
  match resolve data scope tag.name with
  | none => fail (.unknownValue tag.name)
  | some value =>
    if tag.inverse then if viewTruthy value then nothing else body scope
    else
      match value with
      | .collection collection =>
        if collection.length = 0 then nothing else collectionRendering body collection
      | _ => if viewTruthy value then body scope else nothing

def forestRendering : TemplateForest → Option ViewScope → Rendered
  | .nil, _ => nothing
  | .leaf a rest, scope =>
    andThen (leafRendering data partialView yieldHtml scope a) (forestRendering rest scope)
  | .branch tag body rest, scope =>
    andThen (sectionRendering data tag (forestRendering body) scope) (forestRendering rest scope)

end Meaning

open Classical in
noncomputable def treeOf (instructions : List TemplateInstruction) : Option TemplateForest :=
  if h : ∃ f, instructions = forestProgram f then some h.choose else none

/-- A partial with `n` levels of nesting left. -/
noncomputable def partialRendering (context : Context) :
    ℕ → Bytes → Option ViewScope → Rendered
  | 0, _, _ => fail .nestingExceeded
  | n + 1, path, scope =>
    match viewLoad context.store path with
    | .missing => fail (.viewNotFound path)
    | .error error => fail error
    | .found program =>
      match treeOf program.instructions with
      | none => fail .invalidProgram
      | some f => forestRendering context.viewData (partialRendering context n) none f scope

noncomputable def treeRendering (context : Context) (yieldHtml : Option Bytes) (depth : ℕ)
    (f : TemplateForest) (scope : Option ViewScope) : Rendered :=
  forestRendering context.viewData
    (partialRendering context (CEASY_VIEW_MAX_NESTING - depth)) yieldHtml f scope

/-- The embedded views are programs of trees, as the view compiler emits them. -/
def CompiledBundle (bundle : List EmbeddedView) : Prop :=
  ∀ view ∈ bundle, ∃ f, view.instructions = forestProgram f

theorem viewScopeField_undotted {scope : Option ViewScope} {path : Bytes}
    (h : stringvFindChar path (ch '.') = none) :
    viewScopeField scope path =
      scope.bind fun scope => viewModelField ⟨scope.record, scope.definition⟩ path := by
  simp [viewScopeField, h]

theorem viewScopeField_dotted {scope : Option ViewScope} {path : Bytes} {dot : ℕ}
    (h : stringvFindChar path (ch '.') = some dot) : viewScopeField scope path = none := by
  simp [viewScopeField, h]

theorem viewResolve_eq (data : ViewData) (path : Bytes) (scope : Option ViewScope) :
    viewResolve data path scope = resolve data scope path := by
  unfold viewResolve resolve
  cases hdot : stringvFindChar path (ch '.') with
  | none =>
    rw [viewScopeField_undotted hdot, List.splitOn_eq_singleton (stringvFindChar_none.mp hdot)]
    cases hfield : scope.bind fun scope => viewModelField ⟨scope.record, scope.definition⟩ path <;>
      simp [hfield]
  | some dot =>
    obtain ⟨root, rest, hpath, hroot, hlength⟩ := stringvFindChar_some.mp hdot
    have hslice : stringvSlice path 0 dot = root := by
      rw [stringvSlice, hpath, List.drop_zero, ← hlength, List.take_left]
    have hfrom : stringvFrom path (dot + 1) = rest := by
      rw [stringvFrom, hpath, ← hlength]
      simp
    rw [viewScopeField_dotted hdot]
    dsimp only
    rw [hslice, hfrom, hpath, List.splitOn_append_cons_self_of_not_mem hroot]
    cases hrest : stringvFindChar rest (ch '.') with
    | none =>
      rw [List.splitOn_eq_singleton (stringvFindChar_none.mp hrest)]
      dsimp only
      cases viewGet data root with
      | none => rfl
      | some value => cases value <;> simp [List.length_eq_zero_iff]
    | some next =>
      obtain ⟨field, more, hmore, hfield, -⟩ := stringvFindChar_some.mp hrest
      rw [hmore, List.splitOn_append_cons_self_of_not_mem hfield]
      cases hsplit : more.splitOn (ch '.') with
      | nil => exact absurd hsplit (List.splitOn_ne_nil _ _)
      | cons first others =>
        dsimp only
        cases viewGet data root with
        | none => rfl
        | some value => simp

theorem viewRenderValue_eq (output : Bytes) (value : ViewValue) :
    viewRenderValue output value = (valueText value).map (output ++ ·) := by
  cases value with
  | empty => simp [viewRenderValue, valueText]
  | string value => rfl
  | int64 value => rfl
  | bool value => rfl
  | model model => rfl
  | collection collection => rfl

/-- A rendering appended to the output, with what follows where it succeeds. -/
def resume (rendering : Rendered) (output : Bytes) (next : Bytes → Rendered) : Rendered :=
  if rendering.error.isSome then ⟨output ++ rendering.output, rendering.error⟩
  else next (output ++ rendering.output)

def onto (rendering : Rendered) (output : Bytes) : Rendered :=
  ⟨output ++ rendering.output, rendering.error⟩

theorem resume_andThen (first second : Rendered) (output : Bytes) (next : Bytes → Rendered) :
    resume (andThen first second) output next =
      resume first output fun output => resume second output next := by
  obtain ⟨text, error⟩ := first
  cases error with
  | some error => rfl
  | none => simp [andThen, resume, List.append_assoc]

theorem resume_ok {rendering : Rendered} (output : Bytes) :
    resume rendering output (fun output => ⟨output, none⟩) = onto rendering output := by
  obtain ⟨text, error⟩ := rendering
  cases error <;> rfl

def PartialsAgree (context : Context) (depth : ℕ) : Prop :=
  ∀ path scope output, viewRenderPartial context path scope output depth =
    onto (partialRendering context (CEASY_VIEW_MAX_NESTING - depth) path scope) output

/-- The yield a call can use. -/
def allowedYield (yieldHtml : Option Bytes) (allowYield : Bool) : Option Bytes :=
  if allowYield then yieldHtml else none

section Loop
variable {context : Context} {program : TemplateProgram} {depth : ℕ}

theorem loop_leaf (hpartials : PartialsAgree context depth) {index stop : ℕ} (hindex : index < stop)
    {a : Leaf} (ha : program.instructions[index]? = some (leafInstruction a))
    (scope : Option ViewScope) (output : Bytes) (yieldHtml : Option Bytes) (allowYield : Bool) :
    viewRenderLoop context program index stop scope output yieldHtml allowYield depth =
      resume (leafRendering context.viewData
          (partialRendering context (CEASY_VIEW_MAX_NESTING - depth))
          (allowedYield yieldHtml allowYield) scope a) output fun output =>
        viewRenderLoop context program (index + 1) stop scope output yieldHtml allowYield depth := by
  conv_lhs => rw [viewRenderLoop.eq_def, dif_pos hindex, ha]
  cases a with
  | text value => rfl
  | variablePath path =>
    simp only [leafInstruction, leafRendering, viewResolve_eq, viewRenderValue_eq]
    cases resolve context.viewData scope path with
    | none => simp [resume, fail]
    | some value =>
      dsimp only
      cases valueText value <;> simp [resume, fail]
  | partialView path =>
    simp only [leafInstruction, leafRendering, hpartials path scope output]
    rcases partialRendering context (CEASY_VIEW_MAX_NESTING - depth) path scope with
      ⟨text, _ | error⟩ <;> rfl
  | layoutYield =>
    simp only [leafInstruction, leafRendering, allowedYield]
    cases yieldHtml with
    | none => cases allowYield <;> simp [resume, fail]
    | some html => cases allowYield <;> simp [resume, fail]

/-- The renderer of a range agrees with a rendering of its body. -/
def RangeAgrees (context : Context) (program : TemplateProgram) (start stop : ℕ)
    (yieldHtml : Option Bytes) (allowYield : Bool) (depth : ℕ)
    (body : Option ViewScope → Rendered) : Prop :=
  ∀ scope output, viewRenderProgram context program start stop scope output yieldHtml allowYield
    depth = onto (body scope) output

theorem items_agree {start stop : ℕ} {yieldHtml : Option Bytes} {allowYield : Bool}
    {body : Option ViewScope → Rendered}
    (hbody : RangeAgrees context program start stop yieldHtml allowYield depth body)
    (items : Record) (definition : ModelDefinition) (index remaining : ℕ) (output : Bytes) :
    viewRenderItems context program items definition index remaining start stop output yieldHtml
        allowYield depth = onto (itemsRendering body items definition index remaining) output := by
  induction remaining generalizing index output with
  | zero => simp [viewRenderItems, itemsRendering, onto, nothing]
  | succ remaining ih =>
    rw [viewRenderItems, itemsRendering]
    split_ifs with hsize
    · simp [onto, fail]
    · dsimp only
      rw [hbody]
      rcases hitem : body (some (itemScope items definition index)) with ⟨text, _ | error⟩
      · simp [onto, andThen, ih, List.append_assoc]
      · rfl

theorem collection_agree {start stop : ℕ} {yieldHtml : Option Bytes} {allowYield : Bool}
    {body : Option ViewScope → Rendered}
    (hbody : RangeAgrees context program start stop yieldHtml allowYield depth body)
    {collection : ViewCollection} (hlength : 0 < collection.length) (output : Bytes) :
    viewRenderCollection context program collection start stop output yieldHtml allowYield depth =
      onto (collectionRendering body collection) output := by
  rw [viewRenderCollection.eq_def, collectionRendering]
  cases collection.definition with
  | none => simp [onto, fail]
  | some definition =>
    cases collection.items with
    | none => simp [onto, fail, hlength]
    | some items =>
      dsimp only
      split_ifs
      · simp [onto, fail]
      · exact items_agree hbody items definition 0 _ output

theorem loop_section {index stop jump : ℕ} (hindex : index < stop) (hjump : index + 1 ≤ jump)
    (hstop : jump ≤ stop) {tag : SectionTag}
    (htag : program.instructions[index]? = some (sectionInstruction tag jump))
    {yieldHtml : Option Bytes} {allowYield : Bool} {body : Option ViewScope → Rendered}
    (hbody : RangeAgrees context program (index + 1) jump yieldHtml allowYield depth body)
    (scope : Option ViewScope) (output : Bytes) :
    viewRenderLoop context program index stop scope output yieldHtml allowYield depth =
      resume (sectionRendering context.viewData tag body scope) output fun output =>
        viewRenderLoop context program jump stop scope output yieldHtml allowYield depth := by
  have hrange : ¬ (jump < index + 1 ∨ stop < jump) := by omega
  conv_lhs => rw [viewRenderLoop.eq_def, dif_pos hindex, htag]
  obtain ⟨inverse, name⟩ := tag
  have hnothing : ∀ next : Bytes → Rendered, resume nothing output next = next output :=
    fun next => by simp [resume, nothing]
  cases inverse with
  | true =>
    simp only [sectionInstruction, sectionRendering, viewResolve_eq, if_true]
    cases resolve context.viewData scope name with
    | none => simp [resume, fail]
    | some value =>
      simp only [BEq.rfl, dif_neg hrange]
      cases htruthy : viewTruthy value with
      | true => simp [hnothing]
      | false =>
        simp only [hbody scope output]
        rcases body scope with ⟨text, _ | error⟩ <;> rfl
  | false =>
    simp only [sectionInstruction, sectionRendering, viewResolve_eq, Bool.false_eq_true, if_false]
    cases resolve context.viewData scope name with
    | none => simp [resume, fail]
    | some value =>
      have hne : (TemplateInstructionType.instructionSection ==
        TemplateInstructionType.instructionInverseSection) = false := rfl
      simp only [hne, dif_neg hrange]
      -- a section on anything but a collection renders its body at most once
      have honce : ∀ truthy : Bool,
          (let rendered := if truthy == false then ⟨output, none⟩
            else viewRenderProgram context program (index + 1) jump scope output yieldHtml
              allowYield depth
          if rendered.error.isSome then rendered
          else viewRenderLoop context program jump stop scope rendered.output yieldHtml allowYield
            depth) =
            resume (if truthy then body scope else nothing) output fun output =>
              viewRenderLoop context program jump stop scope output yieldHtml allowYield depth := by
        intro truthy
        cases truthy with
        | false => simp [hnothing]
        | true =>
          simp only [hbody scope output]
          rcases body scope with ⟨text, _ | error⟩ <;> rfl
      cases value with
      | empty => exact honce _
      | string value => exact honce _
      | int64 value => exact honce _
      | bool value => exact honce _
      | model model => exact honce _
      | collection collection =>
        by_cases hlength : 0 < collection.length
        · have hne : ¬ collection.length = 0 := by omega
          simp only [viewTruthy, hlength, decide_true, collection_agree hbody hlength, if_neg hne]
          rcases collectionRendering body collection with ⟨text, _ | error⟩ <;> rfl
        · have hzero : collection.length = 0 := by omega
          simp [viewTruthy, hzero, hnothing]

theorem loop_stop {index stop : ℕ} (h : stop ≤ index) (scope : Option ViewScope) (output : Bytes)
    (yieldHtml : Option Bytes) (allowYield : Bool) :
    viewRenderLoop context program index stop scope output yieldHtml allowYield depth =
      ⟨output, none⟩ := by
  rw [viewRenderLoop.eq_def, dif_neg (by omega)]

/-- The loop on the flattening of a forest, wherever it lies in the program. -/
theorem loop_forest (hpartials : PartialsAgree context depth)
    (hdepth : depth ≤ CEASY_VIEW_MAX_NESTING) (yieldHtml : Option Bytes) (allowYield : Bool)
    (f : TemplateForest) {before after : List TemplateInstruction}
    (hprogram : program.instructions = before ++ f.flatten target before.length ++ after)
    {stop : ℕ} (hstop : before.length + f.size ≤ stop) (hcount : stop ≤ program.instructions.length)
    (scope : Option ViewScope) (output : Bytes) :
    viewRenderLoop context program before.length stop scope output yieldHtml allowYield depth =
      resume (forestRendering context.viewData
          (partialRendering context (CEASY_VIEW_MAX_NESTING - depth))
          (allowedYield yieldHtml allowYield) f scope) output fun output =>
        viewRenderLoop context program (before.length + f.size) stop scope output yieldHtml
          allowYield depth := by
  induction f generalizing before after stop scope output with
  | nil => simp [forestRendering, resume, nothing, Forest.size]
  | leaf a rest ih =>
    rw [Forest.size] at hstop
    have hat : program.instructions[before.length]? = some (leafInstruction a) := by
      rw [hprogram, Forest.flatten, List.append_assoc]
      simp [target]
    have hnext : program.instructions = (before ++ [leafInstruction a]) ++
        rest.flatten target (before ++ [leafInstruction a]).length ++ after := by
      rw [hprogram, Forest.flatten]
      simp [target]
    have hlength : (before ++ [leafInstruction a]).length = before.length + 1 := by simp
    rw [loop_leaf hpartials (by omega) hat, forestRendering, resume_andThen]
    congr 1
    funext output
    rw [← hlength, ih hnext (by omega) hcount, Forest.size, hlength, Nat.add_assoc]
  | branch tag body rest ihb ihr =>
    rw [Forest.size] at hstop
    have hat : program.instructions[before.length]? =
        some (sectionInstruction tag (before.length + 1 + body.size)) := by
      rw [hprogram, Forest.flatten, List.append_assoc]
      simp [target]
    let inner := before ++ [sectionInstruction tag (before.length + 1 + body.size)]
    have hinner : inner.length = before.length + 1 := by simp [inner]
    have hbody : program.instructions = inner ++ body.flatten target inner.length ++
        (rest.flatten target (before.length + 1 + body.size) ++ after) := by
      rw [hprogram, Forest.flatten, hinner]
      simp [inner, target]
    let outer := inner ++ body.flatten target inner.length
    have houter : outer.length = before.length + 1 + body.size := by simp [outer, hinner]
    have hrest : program.instructions = outer ++ rest.flatten target outer.length ++ after := by
      rw [hbody, houter]
      simp [outer]
    have hrange : RangeAgrees context program (before.length + 1) (before.length + 1 + body.size)
        yieldHtml allowYield depth (forestRendering context.viewData
          (partialRendering context (CEASY_VIEW_MAX_NESTING - depth))
          (allowedYield yieldHtml allowYield) body) := by
      intro scope output
      rw [viewRenderProgram, if_neg (by omega), ← hinner, ihb hbody (Nat.le_refl _) (by omega),
        ← resume_ok]
      congr 1
      funext output
      exact loop_stop (Nat.le_refl _) _ _ _ _
    rw [loop_section (by omega) (by omega) (by omega) hat hrange, forestRendering, resume_andThen]
    congr 1
    funext output
    rw [← houter, ihr hrest (by omega) hcount, Forest.size, houter, ← Nat.add_assoc,
      ← Nat.add_assoc]

theorem program_forest (hpartials : PartialsAgree context depth)
    (hdepth : depth ≤ CEASY_VIEW_MAX_NESTING) {f : TemplateForest}
    (hprogram : program.instructions = forestProgram f) (scope : Option ViewScope) (output : Bytes)
    (yieldHtml : Option Bytes) (allowYield : Bool) :
    viewRenderProgram context program 0 program.instructions.length scope output yieldHtml
        allowYield depth =
      onto (forestRendering context.viewData
        (partialRendering context (CEASY_VIEW_MAX_NESTING - depth))
        (allowedYield yieldHtml allowYield) f scope) output := by
  have hlength : program.instructions.length = f.size := by
    rw [hprogram, forestProgram, Forest.flatten_length]
  have hflat : program.instructions =
      [] ++ f.flatten target ([] : List TemplateInstruction).length ++ [] := by
    simpa [forestProgram] using hprogram
  have hloop := loop_forest hpartials hdepth yieldHtml allowYield f hflat
    (by rw [hlength]; simp) (Nat.le_refl _) scope output
  rw [viewRenderProgram, if_neg (by omega)]
  refine hloop.trans ?_
  rw [← resume_ok]
  congr 1
  funext output
  exact loop_stop (by rw [hlength]; simp) _ _ _ _

end Loop

def Misplaced (error : Option ViewError) : Prop :=
  error = some .invalidProgram ∨ error = some .invalidJump

/-- A load that finds a view finds the program of a tree. -/
inductive LoadsTrees : ViewLoadResult → Prop where
  | missing : LoadsTrees .missing
  | error {error : ViewError} (h : ¬ Misplaced (some error)) : LoadsTrees (.error error)
  | found {program : TemplateProgram} {f : TemplateForest}
    (h : program.instructions = forestProgram f) : LoadsTrees (.found program)

theorem viewReadFile_trees (filename path : Bytes) (file : ViewFile) :
    LoadsTrees (viewReadFile filename path file) := by
  cases file with
  | source source =>
    dsimp only [viewReadFile]
    split_ifs with hok
    · obtain ⟨f, -, hprogram⟩ := (templateParse_iff source filename _).mp ⟨hok, rfl⟩
      exact .found (by rw [hprogram])
    · exact .error (by simp [Misplaced])
  | missing => exact .error (by simp [Misplaced])
  | unopened => exact .error (by simp [Misplaced])
  | unsized => exact .error (by simp [Misplaced])
  | unread => exact .error (by simp [Misplaced])

theorem viewLoadFilesystem_trees (store : ViewStore) (path : Bytes) :
    LoadsTrees (viewLoadFilesystem store path) := by
  have hinvalid : LoadsTrees (.error .invalidViewPath) := .error (by simp [Misplaced])
  unfold viewLoadFilesystem
  cases store.root with
  | none => exact hinvalid
  | some root =>
    dsimp only
    by_cases hpath : (!viewPathValid path || decide (INT_MAX < path.length) ||
        decide (PATH_MAX ≤ (viewFilename root path).length)) = true
    · rw [if_pos hpath]
      exact hinvalid
    rw [if_neg hpath]
    split
    · by_cases hlong : PATH_MAX ≤ (viewFilename root (viewPartialName path)).length
      · rw [if_pos hlong]
        exact hinvalid
      rw [if_neg hlong]
      split
      · exact .missing
      · exact viewReadFile_trees _ _ _
    · exact viewReadFile_trees _ _ _

theorem viewLoad_trees {store : ViewStore} (hbundle : CompiledBundle store.bundle) (path : Bytes) :
    LoadsTrees (viewLoad store path) := by
  unfold viewLoad
  split_ifs
  · exact .error (by simp [Misplaced])
  have hfile := viewLoadFilesystem_trees store path
  cases hresult : viewLoadFilesystem store path with
  | found loaded => rwa [hresult] at hfile
  | error error => rwa [hresult] at hfile
  | missing =>
    dsimp only
    cases hfind : viewBundleFind store.bundle path with
    | none => exact .missing
    | some embedded =>
      obtain ⟨f, hf⟩ := hbundle embedded (List.mem_of_find?_eq_some hfind)
      exact .found hf

theorem treeOf_program {program : TemplateProgram} (h : LoadsTrees (.found program)) :
    ∃ f, treeOf program.instructions = some f ∧ program.instructions = forestProgram f := by
  cases h with
  | found hf =>
    have hex : ∃ f, program.instructions = forestProgram f := ⟨_, hf⟩
    exact ⟨hex.choose, dif_pos hex, hex.choose_spec⟩

theorem partialsAgree {context : Context} (hbundle : CompiledBundle context.store.bundle)
    (depth : ℕ) : PartialsAgree context depth := by
  induction hn : CEASY_VIEW_MAX_NESTING - depth generalizing depth with
  | zero =>
    intro path scope output
    rw [viewRenderPartial, dif_pos (by omega), hn]
    simp [partialRendering, onto, fail]
  | succ n ih =>
    intro path scope output
    have hnext : CEASY_VIEW_MAX_NESTING - (depth + 1) = n := by omega
    rw [viewRenderPartial, dif_neg (by omega), hn, partialRendering]
    have hload := viewLoad_trees hbundle path
    cases hresult : viewLoad context.store path with
    | missing => simp [onto, fail]
    | error error => simp [onto, fail]
    | found program =>
      rw [hresult] at hload
      obtain ⟨f, htree, hprogram⟩ := treeOf_program hload
      dsimp only
      rw [htree, program_forest (ih (depth + 1) hnext) (by omega) hprogram, hnext]
      rfl

end Ceasy.ViewTree
