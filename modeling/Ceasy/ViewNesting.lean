import Ceasy.ViewPath
import Ceasy.ViewTree

set_option autoImplicit false

/-!
# Nested partials

A compiled set of views has every partial it names, and its partials form no cycle.
The renderer counts the partials it has entered, and gives up when there are too
many. The errors that only a partial can raise are traced to the partials that a
tree names, partial by partial.
-/
namespace Ceasy.ViewNesting
open StringView TemplateParse TemplateGrammar JumpForest View ViewTree ViewCompiler

/-- The partials that a tree names, in its sections as well. -/
def partialPaths : TemplateForest → List Bytes
  | .nil => []
  | .leaf (.partialView path) rest => path :: partialPaths rest
  | .leaf _ rest => partialPaths rest
  | .branch _ body rest => partialPaths body ++ partialPaths rest

inductive PartialError : ViewError → Prop where
  | nesting : PartialError .nestingExceeded
  | notFound (path : Bytes) : PartialError (.viewNotFound path)

/-- The errors of an evaluation itself, whatever its partials give. -/
inductive TreeError : ViewError → Prop where
  | unknownValue (name : Bytes) : TreeError (.unknownValue name)
  | notRenderable : TreeError .notRenderable
  | yieldOutsideLayout : TreeError .yieldOutsideLayout
  | invalidCollection : TreeError .invalidCollection
  | invalidCollectionSize : TreeError .invalidCollectionSize

theorem PartialError.apart {error : ViewError} (h : PartialError error) : ¬ TreeError error := by
  cases h <;> exact nofun

theorem andThen_error {first second : Rendered} {error : ViewError}
    (h : (andThen first second).error = some error) :
    first.error = some error ∨ second.error = some error := by
  unfold andThen at h
  split_ifs at h
  · exact .inl h
  · exact .inr h

section Errors
variable {data : ViewData} {error : ViewError}

theorem fail_error {other : ViewError} (h : other ≠ error) : (fail other).error ≠ some error :=
  fun heq => h (Option.some.inj heq)

theorem fail_apart (herror : ¬ TreeError error) {other : ViewError} (h : TreeError other) :
    (fail other).error ≠ some error :=
  fail_error fun hsame => herror (hsame ▸ h)

theorem items_error (herror : ¬ TreeError error) {body : Option ViewScope → Rendered}
    {items : Record} {definition : ModelDefinition} {index remaining : ℕ}
    (h : (itemsRendering body items definition index remaining).error = some error) :
    ∃ entered, (body entered).error = some error := by
  induction remaining generalizing index with
  | zero => cases h
  | succ remaining ih =>
    rw [itemsRendering] at h
    split_ifs at h
    · exact absurd h (fail_apart herror .invalidCollectionSize)
    · rcases andThen_error h with hhere | hlater
      · exact ⟨_, hhere⟩
      · exact ih hlater

theorem collection_error (herror : ¬ TreeError error) {body : Option ViewScope → Rendered}
    {collection : ViewCollection} (h : (collectionRendering body collection).error = some error) :
    ∃ entered, (body entered).error = some error := by
  have hinvalid : (fail .invalidCollection).error ≠ some error :=
    fail_apart herror .invalidCollection
  unfold collectionRendering at h
  split at h
  · split_ifs at h
    · exact absurd h hinvalid
    · exact items_error herror h
  · exact absurd h hinvalid

/-- A section fails as its body does, or with an error of its own. -/
theorem section_error (herror : ¬ TreeError error) {tag : SectionTag}
    {body : Option ViewScope → Rendered} {scope : Option ViewScope}
    (h : (sectionRendering data tag body scope).error = some error) :
    ∃ entered, (body entered).error = some error := by
  have hnothing : nothing.error ≠ some error := nofun
  have honce {truthy : Bool} (h : (if truthy = true then body scope else nothing).error = some error) :
      ∃ entered, (body entered).error = some error := by
    split_ifs at h
    · exact ⟨scope, h⟩
    · exact absurd h hnothing
  rw [sectionRendering] at h
  cases hvalue : resolve data scope tag.name with
  | none =>
    rw [hvalue] at h
    exact absurd h (fail_apart herror (.unknownValue tag.name))
  | some value =>
    rw [hvalue] at h
    dsimp only at h
    cases hinverse : tag.inverse with
    | true =>
      rw [hinverse, if_pos rfl] at h
      split_ifs at h
      · exact absurd h hnothing
      · exact ⟨scope, h⟩
    | false =>
      rw [hinverse, if_neg Bool.false_ne_true] at h
      cases value with
      | empty => exact honce h
      | string text => exact honce h
      | int64 number => exact honce h
      | bool flag => exact honce h
      | model model => exact honce h
      | collection collection =>
        dsimp only at h
        split_ifs at h
        · exact absurd h hnothing
        · exact collection_error herror h

variable {partialView : Bytes → Option ViewScope → Rendered} {yieldHtml : Option Bytes}

theorem leaf_error (herror : ¬ TreeError error) {a : Leaf} {scope : Option ViewScope}
    (h : (leafRendering data partialView yieldHtml scope a).error = some error) :
    ∃ path, a = .partialView path ∧ (partialView path scope).error = some error := by
  cases a with
  | partialView path => exact ⟨path, rfl, h⟩
  | text value => cases h
  | variablePath path =>
    rw [leafRendering] at h
    split at h
    · exact absurd h (fail_apart herror (.unknownValue path))
    · split at h
      · exact absurd h (fail_apart herror .notRenderable)
      · cases h
  | layoutYield =>
    cases yieldHtml with
    | none => exact absurd h (fail_apart herror .yieldOutsideLayout)
    | some html => cases h

/-- Any other error is the error of a partial that the tree names. -/
theorem forest_error (herror : ¬ TreeError error) {f : TemplateForest} {scope : Option ViewScope}
    (h : (forestRendering data partialView yieldHtml f scope).error = some error) :
    ∃ path ∈ partialPaths f, ∃ inner, (partialView path inner).error = some error := by
  induction f generalizing scope with
  | nil => cases h
  | leaf a rest ih =>
    rw [forestRendering] at h
    rcases andThen_error h with hleaf | hrest
    · obtain ⟨path, rfl, hpath⟩ := leaf_error herror hleaf
      exact ⟨path, List.mem_cons_self, scope, hpath⟩
    · obtain ⟨path, hmem, hpath⟩ := ih hrest
      refine ⟨path, ?_, hpath⟩
      cases a with
      | partialView first => exact List.mem_cons_of_mem first hmem
      | text value => exact hmem
      | variablePath name => exact hmem
      | layoutYield => exact hmem
  | branch tag body rest ihb ihr =>
    rw [forestRendering] at h
    rcases andThen_error h with hsection | hrest
    · obtain ⟨entered, hbody⟩ := section_error herror hsection
      obtain ⟨path, hmem, hpath⟩ := ihb hbody
      exact ⟨path, List.mem_append_left _ hmem, hpath⟩
    · obtain ⟨path, hmem, hpath⟩ := ihr hrest
      exact ⟨path, List.mem_append_right _ hmem, hpath⟩

end Errors

def LoadsTree (store : ViewStore) (path : Bytes) (f : TemplateForest) : Prop :=
  ∃ program, viewLoad store path = .found program ∧ treeOf program.instructions = some f

theorem viewReadFile_error {filename path : Bytes} {file : ViewFile} {error : ViewError}
    (h : viewReadFile filename path file = .error error) : ¬ PartialError error := by
  cases file with
  | source source =>
    dsimp only [viewReadFile] at h
    split_ifs at h
    obtain rfl := ViewLoadResult.error.inj h
    exact nofun
  | missing =>
    obtain rfl := ViewLoadResult.error.inj h
    exact nofun
  | unopened =>
    obtain rfl := ViewLoadResult.error.inj h
    exact nofun
  | unsized =>
    obtain rfl := ViewLoadResult.error.inj h
    exact nofun
  | unread =>
    obtain rfl := ViewLoadResult.error.inj h
    exact nofun

theorem viewLoadFilesystem_error {store : ViewStore} {path : Bytes} {error : ViewError}
    (h : viewLoadFilesystem store path = .error error) : ¬ PartialError error := by
  have hinvalid (h : ViewLoadResult.error .invalidViewPath = .error error) :
      ¬ PartialError error := by
    obtain rfl := ViewLoadResult.error.inj h
    exact nofun
  unfold viewLoadFilesystem at h
  cases hroot : store.root with
  | none =>
    rw [hroot] at h
    exact hinvalid h
  | some root =>
    rw [hroot] at h
    dsimp only at h
    split_ifs at h with hpath hlong
    · exact hinvalid h
    · cases hfile : store.file (viewFilename root path) <;> rw [hfile] at h
      · dsimp only at h
        exact hinvalid h
      all_goals exact viewReadFile_error h
    · cases hfile : store.file (viewFilename root path) <;> rw [hfile] at h
      · dsimp only at h
        cases hnext : store.file (viewFilename root (viewPartialName path)) <;> rw [hnext] at h
        · cases h
        all_goals exact viewReadFile_error h
      all_goals exact viewReadFile_error h

theorem viewLoad_error {store : ViewStore} {path : Bytes} {error : ViewError}
    (h : viewLoad store path = .error error) : ¬ PartialError error := by
  unfold viewLoad at h
  split_ifs at h
  · obtain rfl := ViewLoadResult.error.inj h
    exact nofun
  cases hfile : viewLoadFilesystem store path with
  | missing =>
    rw [hfile] at h
    dsimp only at h
    cases hfind : viewBundleFind store.bundle path <;> rw [hfind] at h <;> cases h
  | found program =>
    rw [hfile] at h
    cases h
  | error other =>
    rw [hfile] at h
    cases h
    exact viewLoadFilesystem_error hfile

variable {context : Context}

/-- An error of partials in a partial is one of the partials that its tree names. -/
theorem partial_error {error : ViewError} (herror : PartialError error) {levels : ℕ} {path : Bytes}
    {scope : Option ViewScope}
    (h : (partialRendering context (levels + 1) path scope).error = some error) :
    (viewLoad context.store path = .missing ∧ error = .viewNotFound path) ∨
      ∃ f, LoadsTree context.store path f ∧ ∃ named ∈ partialPaths f, ∃ inner,
        (partialRendering context levels named inner).error = some error := by
  rw [partialRendering] at h
  cases hload : viewLoad context.store path with
  | missing =>
    rw [hload] at h
    exact .inl ⟨rfl, (Option.some.inj h).symm⟩
  | error other =>
    rw [hload] at h
    obtain rfl := Option.some.inj h
    exact absurd herror (viewLoad_error hload)
  | found program =>
    rw [hload] at h
    dsimp only at h
    cases htree : treeOf program.instructions with
    | none =>
      rw [htree] at h
      exact absurd h (fail_error (by cases herror <;> simp))
    | some f =>
      rw [htree] at h
      exact .inr ⟨f, ⟨program, hload, htree⟩, forest_error herror.apart h⟩

theorem viewRenderToString_error (hbundle : CompiledBundle context.store.bundle)
    (path output : Bytes) :
    (viewRenderToString context path output).error =
      (partialRendering context (CEASY_VIEW_MAX_NESTING + 1) path none).error := by
  unfold viewRenderToString
  rw [partialRendering]
  have hload := viewLoad_trees hbundle path
  cases hresult : viewLoad context.store path with
  | missing => rfl
  | error error => rfl
  | found program =>
    rw [hresult] at hload
    obtain ⟨f, htree, hprogram⟩ := treeOf_program hload
    dsimp only
    rw [htree, program_forest (partialsAgree hbundle 0) (Nat.zero_le _) hprogram]
    rfl

/-- A view as `compiler_add` makes it from the text of a file. -/
def Scanned (source : ViewSource) : Prop :=
  ∃ root text, compilerAdd root [] source.relative text = some [source]

def bundleStore (root : Option Bytes) (bundle : List EmbeddedView) : ViewStore where
  root := root
  file _ := .missing
  bundle := bundle

/-- Views each of which names the next as a partial. -/
def PartialChain (sources : List ViewSource) : ℕ → Bytes → Prop
  | 0, _ => True
  | length + 1, x => ∃ y, PartialEdge sources x y ∧ PartialChain sources length y

variable {sources : List ViewSource}

theorem compilerAdd_some {root relative text : Bytes} {sources after : List ViewSource}
    (h : compilerAdd root sources relative text = some after) :
    ∃ logical, compilerLogicalName relative PATH_MAX = some logical ∧
      (viewPath root relative).length < PATH_MAX ∧ (templateParse text relative).ok = true ∧
      after = sources ++ [⟨relative, logical, (templateParse text relative).program⟩] := by
  unfold compilerAdd at h
  by_cases hrelative : PATH_MAX ≤ relative.length
  · rw [if_pos hrelative] at h
    cases h
  rw [if_neg hrelative] at h
  cases hlogical : compilerLogicalName relative PATH_MAX with
  | none =>
    rw [hlogical] at h
    cases h
  | some logical =>
    rw [hlogical] at h
    dsimp only at h
    split_ifs at h with hlong hok
    exact ⟨logical, rfl, Nat.lt_of_not_le hlong, hok, (Option.some.inj h).symm⟩

theorem Scanned.tree {source : ViewSource} (h : Scanned source) :
    ∃ f, source.program.instructions = forestProgram f := by
  obtain ⟨root, text, h⟩ := h
  obtain ⟨logical, -, -, hok, hsource⟩ := compilerAdd_some h
  obtain ⟨f, -, hprogram⟩ := (templateParse_iff text source.relative _).mp ⟨hok, rfl⟩
  rw [List.nil_append, List.singleton_inj] at hsource
  refine ⟨f, ?_⟩
  rw [hsource]
  exact congrArg TemplateProgram.instructions hprogram

theorem compilerGenerate_compiled (hscanned : ∀ source ∈ sources, Scanned source) :
    CompiledBundle (compilerGenerate sources) := by
  intro view hview
  obtain ⟨source, hsource, rfl⟩ := List.mem_map.mp hview
  exact (hscanned source hsource).tree

theorem bundleStore_load {root : Option Bytes} {path : Bytes} {program : TemplateProgram}
    (h : viewLoad (bundleStore root (compilerGenerate sources)) path = .found program) :
    ∃ source ∈ sources, source.logical = path ∧
      source.program.instructions = program.instructions := by
  unfold viewLoad viewLoadFilesystem at h
  split_ifs at h
  cases root with
  | none => cases h
  | some root =>
    dsimp only [bundleStore] at h
    split_ifs at h
    cases hfind : viewBundleFind (compilerGenerate sources) path with
    | none =>
      rw [hfind] at h
      cases h
    | some embedded =>
      rw [hfind] at h
      cases h
      obtain ⟨source, hsource, rfl⟩ := List.mem_map.mp (List.mem_of_find?_eq_some hfind)
      unfold viewBundleFind at hfind
      have hequal := List.find?_some hfind
      exact ⟨source, hsource, eq_of_beq hequal, rfl⟩

theorem bundleStore_present {root : Option Bytes} {source : ViewSource} (h : source ∈ sources) :
    viewLoad (bundleStore root (compilerGenerate sources)) source.logical ≠ .missing := by
  intro hmissing
  unfold viewLoad viewLoadFilesystem at hmissing
  split_ifs at hmissing
  cases root with
  | none => cases hmissing
  | some root =>
    dsimp only [bundleStore] at hmissing
    split_ifs at hmissing
    cases hfind : viewBundleFind (compilerGenerate sources) source.logical with
    | some embedded =>
      rw [hfind] at hmissing
      cases hmissing
    | none =>
      have hnone := List.find?_eq_none.mp hfind _ (List.mem_map.mpr ⟨source, h, rfl⟩)
      simp [stringvEqual] at hnone

/-- A partial that a tree names is named by an instruction of its program. -/
theorem partialPaths_instruction {f : TemplateForest} {path : Bytes} (h : path ∈ partialPaths f)
    (base : ℕ) :
    ∃ item ∈ f.flatten target base, item.type = .instructionPartial ∧ item.value = path := by
  induction f generalizing base with
  | nil => cases h
  | leaf a rest ih =>
    have hrest (hmem : path ∈ partialPaths rest) :
        ∃ item ∈ (Forest.leaf a rest).flatten target base,
          item.type = .instructionPartial ∧ item.value = path := by
      obtain ⟨item, hitem, hpartial⟩ := ih hmem (base + 1)
      exact ⟨item, List.mem_cons_of_mem _ hitem, hpartial⟩
    cases a with
    | partialView first =>
      rcases List.mem_cons.mp h with rfl | hmem
      · exact ⟨_, List.mem_cons_self, rfl, rfl⟩
      · exact hrest hmem
    | text value => exact hrest h
    | variablePath name => exact hrest h
    | layoutYield => exact hrest h
  | branch tag body rest ihb ihr =>
    rw [Forest.flatten]
    rcases List.mem_append.mp h with hbody | hrest
    · obtain ⟨item, hitem, hpartial⟩ := ihb hbody (base + 1)
      exact ⟨item, List.mem_cons_of_mem _ (List.mem_append_left _ hitem), hpartial⟩
    · obtain ⟨item, hitem, hpartial⟩ := ihr hrest (base + 1 + body.size)
      exact ⟨item, List.mem_cons_of_mem _ (List.mem_append_right _ hitem), hpartial⟩

theorem treeOf_some {instructions : List TemplateInstruction} {f : TemplateForest}
    (h : treeOf instructions = some f) : instructions = forestProgram f := by
  unfold treeOf at h
  split_ifs at h with hex
  rw [← Option.some.inj h]
  exact hex.choose_spec

section Accepted
variable {root : Option Bytes} {data : ViewData}

theorem named_edge {path named : Bytes} {f : TemplateForest}
    (hload : LoadsTree (bundleStore root (compilerGenerate sources)) path f)
    (hnamed : named ∈ partialPaths f) : PartialEdge sources path named := by
  obtain ⟨program, hfound, htree⟩ := hload
  obtain ⟨source, hsource, hlogical, hinstructions⟩ := bundleStore_load hfound
  obtain ⟨item, hitem, htype, hvalue⟩ := partialPaths_instruction hnamed 0
  refine ⟨source, hsource, hlogical, item, ?_, htype, hvalue⟩
  rw [hinstructions, treeOf_some htree]
  exact hitem

theorem partialEdge_resolved (hpartials : compilerValidatePartials sources = true) {x y : Bytes}
    (h : PartialEdge sources x y) : ∃ source ∈ sources, source.logical = y := by
  obtain ⟨source, hsource, -, item, hitem, htype, hvalue⟩ := h
  have hchecked := List.all_eq_true.mp (List.all_eq_true.mp hpartials source hsource) item hitem
  rw [htype, hvalue] at hchecked
  obtain ⟨index, hindex⟩ := Option.isSome_iff_exists.mp (by simpa using hchecked)
  obtain ⟨found, hfound, hlogical⟩ := compilerFind_some hindex
  exact ⟨found, List.mem_of_getElem? hfound, hlogical⟩

theorem accepted_found (hpartials : compilerValidatePartials sources = true) (levels : ℕ)
    {source : ViewSource} (hsource : source ∈ sources) (scope : Option ViewScope) (missing : Bytes) :
    (partialRendering ⟨data, bundleStore root (compilerGenerate sources)⟩ levels source.logical
      scope).error ≠ some (.viewNotFound missing) := by
  induction levels generalizing source scope with
  | zero => simp [partialRendering, fail]
  | succ levels ih =>
    intro herror
    rcases partial_error (.notFound missing) herror with
      ⟨hmissing, -⟩ | ⟨f, hf, named, hmem, inner, hnamed⟩
    · exact bundleStore_present hsource hmissing
    · obtain ⟨found, hfound, rfl⟩ := partialEdge_resolved hpartials (named_edge hf hmem)
      exact ih hfound inner hnamed

theorem exceeded_chain {levels : ℕ} {path : Bytes} {scope : Option ViewScope}
    (h : (partialRendering ⟨data, bundleStore root (compilerGenerate sources)⟩ levels path
      scope).error = some .nestingExceeded) : PartialChain sources levels path := by
  induction levels generalizing path scope with
  | zero => trivial
  | succ levels ih =>
    rcases partial_error .nesting h with ⟨-, hother⟩ | ⟨f, hf, named, hmem, inner, hnamed⟩
    · cases hother
    · exact ⟨named, named_edge hf hmem, ih hnamed⟩

end Accepted

/-- A view of an accepted set never misses a partial. It goes beyond the limit of nesting only
    where a chain of as many partials as the limit allows, and one more, starts at the view. -/
theorem compiledViews_render (sources : List ViewSource)
    (hscanned : ∀ source ∈ sources, Scanned source)
    (hpartials : compilerValidatePartials sources = true) (root : Option Bytes) (data : ViewData)
    (source : ViewSource) (hsource : source ∈ sources) (output : Bytes) :
    let context : Context := ⟨data, bundleStore root (compilerGenerate sources)⟩
    let rendered := viewRenderToString context source.logical output
    (∀ path, rendered.error ≠ some (.viewNotFound path)) ∧
      (¬ PartialChain sources (CEASY_VIEW_MAX_NESTING + 1) source.logical →
        rendered.error ≠ some .nestingExceeded) := by
  intro context rendered
  have herror : rendered.error = _ :=
    viewRenderToString_error (compilerGenerate_compiled hscanned) source.logical output
  rw [herror]
  exact ⟨fun path => accepted_found hpartials _ hsource none path,
    fun hchain hexceeded => hchain (exceeded_chain hexceeded)⟩

def cardViews : List ViewSource :=
  [⟨sv "page.html", sv "page", ⟨[⟨.instructionPartial, sv "posts/card", 0⟩], sv "page.html"⟩⟩,
    ⟨sv "posts/_card.html", sv "posts/card",
      ⟨[⟨.instructionText, sv "card", 0⟩], sv "posts/_card.html"⟩⟩]

theorem cardViews_scanned : ∀ source ∈ cardViews, Scanned source := by
  intro source hsource
  simp only [cardViews, List.mem_cons, List.not_mem_nil, or_false] at hsource
  rcases hsource with rfl | rfl
  · exact ⟨sv "/srv", tagOpening ++ sv "> posts/card" ++ tagClosing, by decide_cbv⟩
  · exact ⟨sv "/srv", sv "card", by decide_cbv⟩

theorem cardViews_chain : ¬ PartialChain cardViews (CEASY_VIEW_MAX_NESTING + 1) (sv "page") := by
  have hedge : ∀ x y, PartialEdge cardViews x y → y = sv "posts/card" ∧ x = sv "page" := by
    rintro x y ⟨source, hsource, rfl, item, hitem, htype, rfl⟩
    simp only [cardViews, List.mem_cons, List.not_mem_nil, or_false] at hsource
    rcases hsource with rfl | rfl
    · rw [List.mem_singleton.mp hitem]
      exact ⟨rfl, rfl⟩
    · rw [List.mem_singleton.mp hitem] at htype
      cases htype
  rintro ⟨y, hfirst, z, hsecond, -⟩
  have hy := (hedge _ _ hfirst).1
  rw [(hedge _ _ hsecond).2] at hy
  exact absurd hy (by decide)

theorem compiledViews_render_card :
    (viewRenderToString ⟨{}, bundleStore (some (sv "/srv")) (compilerGenerate cardViews)⟩
      (sv "page") []).error ≠ some .nestingExceeded :=
  (compiledViews_render cardViews cardViews_scanned (by decide) (some (sv "/srv")) {}
    _ List.mem_cons_self []).2 cardViews_chain

def chainName (index : ℕ) : Bytes := List.replicate (index + 1) (ch 'a')

def chainView (last index : ℕ) : ViewSource where
  relative := chainName index ++ htmlSuffix
  logical := chainName index
  program := ⟨if index = last then [] else [⟨.instructionPartial, chainName (index + 1), 0⟩],
    chainName index ++ htmlSuffix⟩

def chainViews (last : ℕ) : List ViewSource := (List.range (last + 1)).map (chainView last)

def chainContext (last : ℕ) : Context :=
  ⟨{}, bundleStore (some (sv "/srv")) (compilerGenerate (chainViews last))⟩

theorem chainName_char {index : ℕ} {c : UInt8} (h : c ∈ chainName index) : c = ch 'a' :=
  (List.mem_replicate.mp h).2

theorem chainName_plain (index : ℕ) : ch '/' ∉ chainName index := by
  intro h
  exact absurd (chainName_char h) (by decide)

theorem chainName_valid (index : ℕ) : viewPathValid (chainName index) = true := by
  rw [ViewPath.viewPathValid_iff, List.splitOn_eq_singleton (chainName_plain index),
    List.forall_mem_singleton]
  have hletters : (chainName index).all (fun c =>
      asciiLetter c || asciiDigit c || c == ch '_' || c == ch '-') = true := by
    rw [List.all_eq_true]
    intro c hc
    rw [chainName_char hc]
    decide
  have hclean : (chainName index).contains (ch '\\') = false := by
    rw [← Bool.not_eq_true, List.contains_iff_mem]
    intro h
    exact absurd (chainName_char h) (by decide)
  have hdots : ∀ dots : Bytes, dots.head? = some (ch '.') →
      stringvEqual (chainName index) dots = false := by
    intro dots hhead
    rw [stringvEqual, beq_eq_false_iff_ne]
    rintro rfl
    exact absurd hhead (by simp [chainName, List.head?_replicate]; decide)
  unfold viewPathSegment
  rw [hletters, hclean, hdots _ rfl, hdots _ rfl]
  rfl

theorem chain_load {last index : ℕ} (hindex : index ≤ last) (hshort : last ≤ 1000) :
    ∃ name, viewLoad (chainContext last).store (chainName index) =
      .found ⟨(chainView last index).program.instructions, name⟩ := by
  have hlength : (chainName index).length = index + 1 := List.length_replicate
  have hfile : viewLoadFilesystem (chainContext last).store (chainName index) = .missing := by
    have hname : (viewFilename (sv "/srv") (chainName index)).length < PATH_MAX := by
      unfold viewFilename PATH_MAX
      simp only [List.length_append, hlength]
      have : (sv "/srv").length + (sv "/views/").length + (sv ".html").length = 16 := rfl
      omega
    have hnext : (viewFilename (sv "/srv") (viewPartialName (chainName index))).length <
        PATH_MAX := by
      unfold viewFilename PATH_MAX
      simp only [List.length_append, ViewPath.viewPartialName_length, hlength]
      have : (sv "/srv").length + (sv "/views/").length + (sv ".html").length = 16 := rfl
      omega
    have hsmall : ¬ INT_MAX < (chainName index).length := by
      unfold INT_MAX
      omega
    unfold viewLoadFilesystem
    simp only [chainContext, bundleStore, chainName_valid, Bool.not_true, Bool.false_or,
      Bool.or_eq_true, decide_eq_true_eq, hsmall, Nat.not_le.mpr hname, Nat.not_le.mpr hnext, or_self,
      if_false]
  have hfind : ∃ name, viewBundleFind (chainContext last).store.bundle (chainName index) =
      some ⟨chainName index, name, (chainView last index).program.instructions⟩ := by
    have hrange : (List.range (last + 1)).find? (fun other =>
        stringvEqual (chainName other) (chainName index)) = some index := by
      refine List.find?_range_eq_some.mpr ⟨beq_self_eq_true _, ?_, ?_⟩
      · rw [List.mem_range]
        omega
      · intro other hother
        have hne : chainName other ≠ chainName index := by
          intro h
          have hlengths := congrArg List.length h
          rw [hlength, chainName, List.length_replicate] at hlengths
          omega
        rw [stringvEqual, beq_false_of_ne hne]
        rfl
    refine ⟨(chainView last index).relative, ?_⟩
    change List.find? _ (((List.range (last + 1)).map (chainView last)).map _) = _
    rw [List.map_map, List.find?_map]
    exact congrArg (Option.map _) hrange
  obtain ⟨name, hfind⟩ := hfind
  unfold viewLoad
  rw [chainName_valid, hfile]
  dsimp only
  rw [hfind]
  exact ⟨_, rfl⟩

/-- A view of the chain fails as the next one does, one level deeper. -/
theorem chain_step {last index depth : ℕ} (hindex : index < last) (hshort : last ≤ 1000)
    (hdepth : depth < CEASY_VIEW_MAX_NESTING) {output : Bytes} {error : ViewError}
    (h : (viewRenderPartial (chainContext last) (chainName (index + 1)) none output
      (depth + 1)).error = some error) :
    (viewRenderPartial (chainContext last) (chainName index) none output depth).error =
      some error := by
  obtain ⟨name, hload⟩ := chain_load (Nat.le_of_lt hindex) hshort
  have hprogram : (chainView last index).program.instructions =
      [⟨.instructionPartial, chainName (index + 1), 0⟩] := by
    simp only [chainView, if_neg (Nat.ne_of_lt hindex)]
  rw [hprogram] at hload
  rw [viewRenderPartial, dif_neg (Nat.not_le.mpr hdepth), hload]
  dsimp only
  rw [viewRenderProgram, if_neg (by simp; omega), viewRenderLoop.eq_def]
  simp only [List.length_singleton, Nat.lt_one_iff, dite_true, List.getElem?_cons_zero, h,
    Option.isSome_some, if_true]

theorem chain_fails {last index depth : ℕ} (hshort : last ≤ 1000)
    (hdepth : depth ≤ CEASY_VIEW_MAX_NESTING) (hindex : index + CEASY_VIEW_MAX_NESTING ≤ last + depth)
    (output : Bytes) :
    (viewRenderPartial (chainContext last) (chainName index) none output depth).error =
      some .nestingExceeded := by
  induction hleft : CEASY_VIEW_MAX_NESTING - depth generalizing depth index with
  | zero => rw [viewRenderPartial, dif_pos (by omega)]
  | succ left ih =>
    apply chain_step (by omega) hshort (by omega)
    exact ih (by omega) (by omega) (by omega)

/-- Sixty-six views without a cycle, of which the first cannot be rendered. -/
theorem compiledViews_render_chain :
    Distinct (chainViews 65) ∧ compilerValidatePartials (chainViews 65) = true ∧
      compilerValidateCycles (chainViews 65) = some true ∧
      (viewRenderToString (chainContext 65) (chainName 0) []).error = some .nestingExceeded := by
  refine ⟨?_, by decide +kernel, by decide +kernel, ?_⟩
  · unfold Distinct
    decide +kernel
  · obtain ⟨name, hload⟩ := chain_load (Nat.zero_le 65) (by omega)
    have hprogram : (chainView 65 0).program.instructions =
        [⟨.instructionPartial, chainName 1, 0⟩] := rfl
    rw [hprogram] at hload
    have hnext := @chain_fails 65 1 0 (by omega) (by decide) (by decide) []
    unfold viewRenderToString
    rw [hload]
    dsimp only
    rw [viewRenderProgram, if_neg (by simp), viewRenderLoop.eq_def]
    simp only [List.length_singleton, Nat.lt_one_iff, dite_true, List.getElem?_cons_zero, hnext,
      Option.isSome_some, if_true]

end Ceasy.ViewNesting
