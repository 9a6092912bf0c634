import Ceasy.DirectoryScan
import Ceasy.GeneratorFiles
import Ceasy.ViewCompiler
import Ceasy.ViewLiteral

set_option autoImplicit false

/-!
# Runs of the compilers

`view_compiler_run` and `asset_compiler_run` with the files they read, the order in
which directories are listed and the source they generate. Memory is allocated
without failure.
-/
namespace Ceasy.CompilerRuns
open StringView TemplateParse View DirectoryScan
open GeneratorFiles (CeasyProject projectPath)
open ViewCompiler (ViewSource htmlSuffix stringvEndsWith childPath childTooLong compilerAdd
  compilerSourceCompare compilerDuplicate compilerValidatePartials compilerValidateCycles)
open ViewLiteral (compilerCString)

/-- What `stat` or `lstat` finds of an entry that is not a directory that is read. -/
inductive Found where
  /-- `none` when it cannot be opened or read. -/
  | regular (content : Option Bytes)
  | other
  /-- It cannot be inspected. -/
  | missing
  /-- A directory that cannot be opened. -/
  | closed
deriving DecidableEq, Repr

abbrev Tree := Entries Bytes Found

inductive Root where
  | absent
  | closed
  | opened (entries : Tree)

def scanEntries {σ : Type} (tooLong : Bytes → Bool)
    (leaf : Bytes → Bytes → Found → List σ → Option (List σ)) :
    Tree → Bytes → List σ → Option (List σ)
  | .nil, _, sources => some sources
  | .leaf name found rest, relative, sources =>
    let child := childPath relative name
    if tooLong child then none
    else
      match leaf child name found sources with
      | none => none
      | some sources => scanEntries tooLong leaf rest relative sources
  | .directory name inside rest, relative, sources =>
    let child := childPath relative name
    if tooLong child then none
    else
      match scanEntries tooLong leaf inside child sources with
      | none => none
      | some sources => scanEntries tooLong leaf rest relative sources

/-- Which of the calls that write the generated file are granted. The directory is
granted also when it is there. -/
structure Outside where
  mkdir : Bool
  fopen : Bool
  fwrite : Bool
  fclose : Bool
  rename : Bool
  getpid : ℕ

/-- Whether the call succeeds, and what the generated file holds after it. -/
def replaceGenerated (outside : Outside) (project : CeasyProject) (generated output : Bytes)
    (previous : Option Bytes) : Bool × Option Bytes :=
  match projectPath project generated PATH_MAX, projectPath project (sv "src/generated") PATH_MAX with
  | some target, some _ =>
    let temporary := target ++ sv ".tmp-" ++ decimal outside.getpid
    if !outside.mkdir then (false, previous)
    else if PATH_MAX ≤ temporary.length then (false, previous)
    else if !outside.fopen then (false, previous)
    else if !(outside.fwrite && outside.fclose) then (false, previous)
    else if !outside.rename then (false, previous)
    else (true, some output)
  | _, _ => (false, previous)

def compilerWrite (outside : Outside) (project : CeasyProject) (output : Bytes)
    (previous : Option Bytes) : Bool × Option Bytes :=
  replaceGenerated outside project (sv "src/generated/ceasy_views.c") output previous

def assetWrite (outside : Outside) (project : CeasyProject) (output : Bytes)
    (previous : Option Bytes) : Bool × Option Bytes :=
  replaceGenerated outside project (sv "src/generated/ceasy_assets.c") output previous

def compilerLeaf (root child name : Bytes) (found : Found) (sources : List ViewSource) :
    Option (List ViewSource) :=
  match found with
  | .missing => none
  | .closed => none
  | .other => some sources
  | .regular content =>
    if stringvEndsWith name htmlSuffix then content.bind (compilerAdd root sources child)
    else some sources

def compilerScan (root : Bytes) (tree : Root) : Option (List ViewSource) :=
  if PATH_MAX ≤ (root ++ sv "/views").length then none
  else
    match tree with
    | .absent => none
    | .closed => none
    | .opened entries => scanEntries (childTooLong root) (compilerLeaf root) entries [] []

def compilerInstructionName : TemplateInstructionType → Bytes
  | .instructionText => sv "TEMPLATE_INSTRUCTION_TEXT"
  | .instructionVariable => sv "TEMPLATE_INSTRUCTION_VARIABLE"
  | .instructionSection => sv "TEMPLATE_INSTRUCTION_SECTION"
  | .instructionInverseSection => sv "TEMPLATE_INSTRUCTION_INVERSE_SECTION"
  | .instructionPartial => sv "TEMPLATE_INSTRUCTION_PARTIAL"
  | .instructionYield => sv "TEMPLATE_INSTRUCTION_YIELD"

def compilerInstruction (instruction : TemplateInstruction) : Bytes :=
  sv "    \x7b.type = " ++ compilerInstructionName instruction.type ++
    sv ", .value = \x7b.data = " ++ compilerCString instruction.value ++ sv ", .length = " ++
    decimal instruction.value.length ++ sv "\x7d, .jump = " ++ decimal instruction.jump ++
    sv "\x7d,\n"

def compilerInstructions (source : ViewSource) (index : ℕ) : Bytes :=
  if source.program.instructions.length = 0 then []
  else
    sv "static const TemplateInstruction ceasy_view_" ++ decimal index ++ sv "[] = \x7b\n" ++
      source.program.instructions.flatMap compilerInstruction ++ sv "\x7d;\n\n"

def compilerView (source : ViewSource) (index : ℕ) : Bytes :=
  let instructionName :=
    if source.program.instructions.length = 0 then sv "NULL"
    else sv "ceasy_view_" ++ decimal index
  sv "    \x7b.path = \x7b.data = " ++ compilerCString source.logical ++ sv ", .length = " ++
    decimal source.logical.length ++ sv "\x7d, .source_name = \x7b.data = " ++
    compilerCString source.relative ++ sv ", .length = " ++ decimal source.relative.length ++
    sv "\x7d, .instructions = " ++ instructionName ++ sv ", .instruction_count = " ++
    decimal source.program.instructions.length ++ sv "\x7d,\n"

def compilerGenerate (sources : List ViewSource) : Bytes :=
  sv "/*\n * Generated by Ceasy.\n *\n * Source: HTML files under views/\n *\n" ++
    sv " * Do not edit this file manually.\n */\n\n#include <ceasy/view/view.h>\n\n" ++
    (sources.zipIdx.flatMap fun item => compilerInstructions item.1 item.2) ++
    (if sources.length = 0 then
      sv "static const EmbeddedView ceasy_views[1] = \x7b\x7b0\x7d\x7d;\n\n"
    else sv "static const EmbeddedView ceasy_views[] = \x7b\n") ++
    (sources.zipIdx.flatMap fun item => compilerView item.1 item.2) ++
    (if 0 < sources.length then sv "\x7d;\n\n" else []) ++
    sv "static const ViewBundle ceasy_bundle = \x7b.views = ceasy_views, .view_count = " ++
    decimal sources.length ++ sv "\x7d;\n\nconst ViewBundle *ceasy_view_bundle(void) \x7b\n" ++
    sv "    return &ceasy_bundle;\n\x7d\n"

def viewCompilerRun (outside : Outside) (qsort : Sorting compilerSourceCompare)
    (project : CeasyProject) (tree : Root) (previous : Option Bytes) : Bool × Option Bytes :=
  match compilerScan project.root tree with
  | none => (false, previous)
  | some sources =>
    let sources := qsort.sort sources
    if compilerDuplicate sources then (false, previous)
    else if compilerValidatePartials sources && compilerValidateCycles sources == some true then
      compilerWrite outside project (compilerGenerate sources) previous
    else (false, previous)

def ASSET_COMPILER_MAX_BYTES : ℕ := 32 * 1024 * 1024

structure AssetSource where
  url : Bytes
  contentType : Bytes
  data : Bytes
deriving DecidableEq, Repr

def assetTypes : List (Bytes × Bytes) :=
  [(sv ".css", sv "text/css; charset=utf-8"), (sv ".js", sv "text/javascript; charset=utf-8"),
    (sv ".html", sv "text/html; charset=utf-8"), (sv ".txt", sv "text/plain; charset=utf-8"),
    (sv ".json", sv "application/json; charset=utf-8"), (sv ".svg", sv "image/svg+xml"),
    (sv ".png", sv "image/png"), (sv ".jpg", sv "image/jpeg"), (sv ".jpeg", sv "image/jpeg"),
    (sv ".gif", sv "image/gif"), (sv ".webp", sv "image/webp"), (sv ".ico", sv "image/x-icon"),
    (sv ".woff", sv "font/woff"), (sv ".woff2", sv "font/woff2")]

def assetContentType (path : Bytes) : Bytes :=
  let slash := ((stringvRfindChar path (ch '/')).map (· + 1)).getD 0
  let dot := ((stringvRfindChar (path.drop slash) (ch '.')).map (slash + ·)).getD path.length
  if dot = path.length ∨ path.length ≤ dot + 1 then sv "application/octet-stream"
  else
    ((assetTypes.find? fun type => stringvEqualIgnoreCase (stringvFrom path dot) type.1).map
      Prod.snd).getD (sv "application/octet-stream")

def assetReadFile (content : Option Bytes) : Option Bytes :=
  content.filter (·.length ≤ ASSET_COMPILER_MAX_BYTES)

def assetLeaf (child _name : Bytes) (found : Found) (sources : List AssetSource) :
    Option (List AssetSource) :=
  match found with
  | .missing => none
  | .closed => none
  | .other => some sources
  | .regular content =>
    let url := sv "/" ++ child
    if PATH_MAX + 2 ≤ url.length then some sources
    else (assetReadFile content).map fun data => sources ++ [⟨url, assetContentType url, data⟩]

def assetTooLong (root child : Bytes) : Bool :=
  PATH_MAX ≤ child.length || PATH_MAX ≤ (root ++ sv "/public/" ++ child).length

/-- A project without public files has no assets. -/
def assetScan (root : Bytes) (tree : Root) : Option (List AssetSource) :=
  if PATH_MAX ≤ (root ++ sv "/public").length then none
  else
    match tree with
    | .absent => some []
    | .closed => none
    | .opened entries => scanEntries (assetTooLong root) assetLeaf entries [] []

/-- `strcmp` on the paths. -/
def assetSourceCompare (a b : AssetSource) : Prop := a.url ≤ b.url

instance : DecidableRel assetSourceCompare := fun a b =>
  inferInstanceAs (Decidable (a.url ≤ b.url))

def hexDigit (value : UInt8) : UInt8 := if value < 10 then ch '0' + value else ch 'a' + (value - 10)

/-- `    0x%02x,` and a new line after each twelfth byte. -/
def assetByte (item : UInt8 × ℕ) : Bytes :=
  sv "    0x" ++ [hexDigit (item.1 / 16), hexDigit (item.1 % 16), ch ','] ++
    (if item.2 % 12 = 11 then sv "\n" else [])

def assetAppendByteArray (name data : Bytes) : Bytes :=
  sv "static const unsigned char " ++ name ++ sv "[] = \x7b\n" ++
    (if data.length = 0 then sv "    0x00,\n" else []) ++ data.zipIdx.flatMap assetByte ++
    sv "\x7d;\n\n"

def assetAppendView (field name : Bytes) (length : ℕ) : Bytes :=
  sv "." ++ field ++ sv " = \x7b.data = (const char *)" ++ name ++ sv ", .length = " ++
    decimal length ++ sv "\x7d, "

def assetPathName (index : ℕ) : Bytes := sv "ceasy_asset_path_" ++ decimal index

def assetTypeName (index : ℕ) : Bytes := sv "ceasy_asset_type_" ++ decimal index

def assetDataName (index : ℕ) : Bytes := sv "ceasy_asset_data_" ++ decimal index

def assetArrays (item : AssetSource × ℕ) : Bytes :=
  assetAppendByteArray (assetPathName item.2) item.1.url ++
    assetAppendByteArray (assetTypeName item.2) item.1.contentType ++
    assetAppendByteArray (assetDataName item.2) item.1.data

def assetEntry (item : AssetSource × ℕ) : Bytes :=
  sv "    \x7b" ++ assetAppendView (sv "path") (assetPathName item.2) item.1.url.length ++
    assetAppendView (sv "content_type") (assetTypeName item.2) item.1.contentType.length ++
    sv ".data = " ++ assetDataName item.2 ++ sv ", .length = " ++ decimal item.1.data.length ++
    sv "\x7d,\n"

def assetGenerate (sources : List AssetSource) : Bytes :=
  sv "/*\n * Generated by Ceasy.\n *\n * Source:\n *   public/**\n *\n" ++
    sv " * Do not edit this file manually.\n */\n\n#include <ceasy/asset/asset.h>\n\n" ++
    sources.zipIdx.flatMap assetArrays ++
    (if sources.length = 0 then
      sv "static const EmbeddedAsset ceasy_assets[1] = \x7b\x7b0\x7d\x7d;\n\n"
    else sv "static const EmbeddedAsset ceasy_assets[] = \x7b\n") ++
    sources.zipIdx.flatMap assetEntry ++ (if 0 < sources.length then sv "\x7d;\n\n" else []) ++
    sv "static const AssetBundle ceasy_bundle = \x7b.assets = ceasy_assets, .asset_count = " ++
    decimal sources.length ++ sv "\x7d;\n\nconst AssetBundle *ceasy_asset_bundle(void) \x7b\n" ++
    sv "    return &ceasy_bundle;\n\x7d\n"

def assetDuplicate : List AssetSource → Bool
  | first :: second :: rest => first.url == second.url || assetDuplicate (second :: rest)
  | _ => false

def assetCompilerRun (outside : Outside) (qsort : Sorting assetSourceCompare)
    (project : CeasyProject) (tree : Root) (previous : Option Bytes) : Bool × Option Bytes :=
  match assetScan project.root tree with
  | none => (false, previous)
  | some sources =>
    let sources := qsort.sort sources
    if assetDuplicate sources then (false, previous)
    else assetWrite outside project (assetGenerate sources) previous

section Scan
variable {σ : Type} {tooLong : Bytes → Bool}
  {leaf : Bytes → Bytes → Found → List σ → Option (List σ)}

def scanVisit (tooLong : Bytes → Bool) (leaf : Bytes → Bytes → Found → List σ → Option (List σ))
    (visit : Visit Bytes Bytes Found) : Option (List σ) :=
  let child := childPath visit.above visit.name
  if tooLong child then none
  else
    match visit.kind with
    | none => some []
    | some found => leaf child visit.name found []

def Adds (leaf : Bytes → Bytes → Found → List σ → Option (List σ)) : Prop :=
  ∀ child name found sources,
    leaf child name found sources = (leaf child name found []).map (sources ++ ·)

theorem scanEntries_collect (hadds : Adds leaf) (entries : Tree) (relative : Bytes)
    (sources : List σ) :
    scanEntries tooLong leaf entries relative sources =
      (collect (scanVisit tooLong leaf) (visits childPath entries relative)).map (sources ++ ·) := by
  induction entries generalizing relative sources with
  | nil => exact congrArg some (List.append_nil sources).symm
  | leaf name found rest ih =>
    rw [scanEntries, visits, collect, scanVisit]
    dsimp only
    by_cases hlong : tooLong (childPath relative name) = true
    · rw [if_pos hlong, if_pos hlong]
      rfl
    rw [if_neg hlong, if_neg hlong, hadds _ _ _ sources]
    cases leaf (childPath relative name) name found [] with
    | none => rfl
    | some given =>
      dsimp only [Option.map_some]
      rw [ih, Option.map_map]
      refine congrArg (Option.map · _) ?_
      funext others
      exact List.append_assoc sources given others
  | directory name inside rest ihinside ihrest =>
    rw [scanEntries, visits, collect, scanVisit]
    dsimp only
    by_cases hlong : tooLong (childPath relative name) = true
    · rw [if_pos hlong, if_pos hlong]
      rfl
    rw [if_neg hlong, if_neg hlong, ihinside, collect_append]
    cases collect (scanVisit tooLong leaf) (visits childPath inside (childPath relative name)) with
    | none => rfl
    | some given =>
      dsimp only [Option.map_some, Option.bind_some]
      rw [ihrest, Option.map_map, Option.map_map]
      refine congrArg (Option.map · _) ?_
      funext others
      exact List.append_assoc sources given others

theorem scanEntries_perm (hadds : Adds leaf) {first second : Tree} (h : Reordered first second) :
    Option.Rel List.Perm (scanEntries tooLong leaf first [] [])
      (scanEntries tooLong leaf second [] []) := by
  have hcollect (entries : Tree) : scanEntries tooLong leaf entries [] [] =
      collect (scanVisit tooLong leaf) (visits childPath entries []) := by
    rw [scanEntries_collect hadds]
    exact Option.map_id'
  rw [hcollect, hcollect]
  exact collect_perm (h.visits childPath [])

end Scan

theorem compilerAdd_append (root child source : Bytes) (sources : List ViewSource) :
    compilerAdd root sources child source =
      (compilerAdd root [] child source).map (sources ++ ·) := by
  unfold compilerAdd
  by_cases hlong : PATH_MAX ≤ child.length
  · rw [if_pos hlong, if_pos hlong]
    rfl
  rw [if_neg hlong, if_neg hlong]
  cases ViewCompiler.compilerLogicalName child PATH_MAX with
  | none => rfl
  | some logical =>
    dsimp only
    by_cases hpath : PATH_MAX ≤ (ViewCompiler.viewPath root child).length
    · rw [if_pos hpath, if_pos hpath]
      rfl
    rw [if_neg hpath, if_neg hpath]
    by_cases hok : (templateParse source child).ok = true
    · rw [if_pos hok, if_pos hok]
      rfl
    · rw [if_neg hok, if_neg hok]
      rfl

theorem compilerLeaf_adds (root : Bytes) : Adds (compilerLeaf root) := by
  intro child name found sources
  cases found with
  | missing => rfl
  | closed => rfl
  | other => exact congrArg some (List.append_nil sources).symm
  | regular content =>
    unfold compilerLeaf
    dsimp only
    by_cases hhtml : stringvEndsWith name htmlSuffix = true
    · rw [if_pos hhtml, if_pos hhtml]
      cases content with
      | none => rfl
      | some source => exact compilerAdd_append root child source sources
    · rw [if_neg hhtml, if_neg hhtml]
      exact congrArg some (List.append_nil sources).symm

def readable : ViewCompiler.Entries → Tree
  | .nil => .nil
  | .file name source rest => .leaf name (.regular (some source)) (readable rest)
  | .directory name inside rest => .directory name (readable inside) (readable rest)

theorem scanEntries_readable (root : Bytes) (entries : ViewCompiler.Entries) (relative : Bytes)
    (sources : List ViewSource) :
    scanEntries (childTooLong root) (compilerLeaf root) (readable entries) relative sources =
      ViewCompiler.compilerScan root entries relative sources := by
  induction entries generalizing relative sources with
  | nil => rfl
  | file name source rest ih =>
    rw [readable, scanEntries, ViewCompiler.compilerScan, compilerLeaf]
    dsimp only [Option.bind_some]
    by_cases hlong : childTooLong root (childPath relative name) = true
    · rw [if_pos hlong, if_pos hlong]
    rw [if_neg hlong, if_neg hlong]
    by_cases hhtml : stringvEndsWith name htmlSuffix = true
    · rw [if_pos hhtml, if_pos hhtml]
      cases compilerAdd root sources (childPath relative name) source with
      | none => rfl
      | some after => exact ih relative after
    · rw [if_neg hhtml, if_neg hhtml]
      exact ih relative sources
  | directory name inside rest ihinside ihrest =>
    rw [readable, scanEntries, ViewCompiler.compilerScan, ihinside]
    cases ViewCompiler.compilerScan root inside (childPath relative name) sources with
    | none => rfl
    | some after =>
      dsimp only
      rw [ihrest]

theorem assetLeaf_adds : Adds assetLeaf := by
  intro child name found sources
  cases found with
  | missing => rfl
  | closed => rfl
  | other => exact congrArg some (List.append_nil sources).symm
  | regular content =>
    unfold assetLeaf
    dsimp only
    by_cases hlong : PATH_MAX + 2 ≤ (sv "/" ++ child).length
    · rw [if_pos hlong, if_pos hlong]
      exact congrArg some (List.append_nil sources).symm
    · rw [if_neg hlong, if_neg hlong, Option.map_map]
      rfl

inductive Root.Reordered : Root → Root → Prop where
  | absent : Root.Reordered .absent .absent
  | closed : Root.Reordered .closed .closed
  | opened {first second : Tree} : DirectoryScan.Reordered first second →
    Root.Reordered (.opened first) (.opened second)

theorem compilerScan_perm (root : Bytes) {first second : Root} (h : first.Reordered second) :
    Option.Rel List.Perm (compilerScan root first) (compilerScan root second) := by
  unfold compilerScan
  by_cases hlong : PATH_MAX ≤ (root ++ sv "/views").length
  · rw [if_pos hlong, if_pos hlong]
    exact .none
  rw [if_neg hlong, if_neg hlong]
  cases h with
  | absent => exact .none
  | closed => exact .none
  | opened hentries => exact scanEntries_perm (compilerLeaf_adds root) hentries

theorem assetScan_perm (root : Bytes) {first second : Root} (h : first.Reordered second) :
    Option.Rel List.Perm (assetScan root first) (assetScan root second) := by
  unfold assetScan
  by_cases hlong : PATH_MAX ≤ (root ++ sv "/public").length
  · rw [if_pos hlong, if_pos hlong]
    exact .none
  rw [if_neg hlong, if_neg hlong]
  cases h with
  | absent => exact .some .nil
  | closed => exact .none
  | opened hentries => exact scanEntries_perm assetLeaf_adds hentries

/-- Both runs fail and leave the generated file, or both succeed and write the same. -/
def SameRun (previous : Option Bytes) (first second : Bool × Option Bytes) : Prop :=
  first = (false, previous) ∧ second = (false, previous) ∨
    ∃ output, first = (true, some output) ∧ second = (true, some output)

theorem replaceGenerated_same (outside : Outside) (project : CeasyProject)
    (generated output : Bytes) (previous : Option Bytes) :
    SameRun previous (replaceGenerated outside project generated output previous)
      (replaceGenerated outside project generated output previous) := by
  unfold replaceGenerated
  cases projectPath project generated PATH_MAX with
  | none => exact .inl ⟨rfl, rfl⟩
  | some target =>
    cases projectPath project (sv "src/generated") PATH_MAX with
    | none => exact .inl ⟨rfl, rfl⟩
    | some directory =>
      dsimp only
      split_ifs
      all_goals first
        | exact .inl ⟨rfl, rfl⟩
        | exact .inr ⟨output, rfl, rfl⟩

theorem compilerDuplicate_repeats (sources : List ViewSource) :
    compilerDuplicate sources = repeats ViewSource.logical sources := by
  induction sources with
  | nil => rfl
  | cons first sources ih =>
    cases sources with
    | nil => rfl
    | cons second rest => rw [compilerDuplicate, repeats, ih]

theorem assetDuplicate_repeats (sources : List AssetSource) :
    assetDuplicate sources = repeats AssetSource.url sources := by
  induction sources with
  | nil => rfl
  | cons first sources ih =>
    cases sources with
    | nil => rfl
    | cons second rest => rw [assetDuplicate, repeats, ih]

/-- What a run makes of its sorted sources is the same for either order. -/
theorem sorted_same {σ : Type} {order : σ → σ → Prop} {previous : Option Bytes} (key : σ → Bytes)
    (horder : ∀ a b, order a b → key a ≤ key b) (run : List σ → Bool × Option Bytes)
    (hrepeats : ∀ sources, repeats key sources = true → run sources = (false, previous))
    (hrun : ∀ sources, SameRun previous (run sources) (run sources)) (left right : Sorting order)
    {first second : List σ} (h : first.Perm second) :
    SameRun previous (run (left.sort first)) (run (right.sort second)) := by
  rcases sort_cases horder left right h with ⟨hleft, hright⟩ | hsame
  · exact .inl ⟨hrepeats _ hleft, hrepeats _ hright⟩
  · rw [hsame]
    exact hrun _

theorem viewCompilerRun_same (outside : Outside) (left right : Sorting compilerSourceCompare)
    (project : CeasyProject) (previous : Option Bytes) {first second : Root}
    (h : first.Reordered second) :
    SameRun previous (viewCompilerRun outside left project first previous)
      (viewCompilerRun outside right project second previous) := by
  have hscan := compilerScan_perm project.root h
  unfold viewCompilerRun
  generalize compilerScan project.root first = scanned at hscan ⊢
  generalize compilerScan project.root second = scanned' at hscan ⊢
  cases hscan with
  | none => exact .inl ⟨rfl, rfl⟩
  | some hperm =>
    let run (sources : List ViewSource) : Bool × Option Bytes :=
      if compilerDuplicate sources then (false, previous)
      else if compilerValidatePartials sources && compilerValidateCycles sources == some true then
        compilerWrite outside project (compilerGenerate sources) previous
      else (false, previous)
    refine sorted_same ViewSource.logical (fun _ _ hle => hle) run ?_ ?_ left right hperm
    · intro sources hrepeats
      exact if_pos ((compilerDuplicate_repeats sources).trans hrepeats)
    · intro sources
      unfold run
      split_ifs
      · exact .inl ⟨rfl, rfl⟩
      · exact replaceGenerated_same _ _ _ _ _
      · exact .inl ⟨rfl, rfl⟩

theorem assetCompilerRun_same (outside : Outside) (left right : Sorting assetSourceCompare)
    (project : CeasyProject) (previous : Option Bytes) {first second : Root}
    (h : first.Reordered second) :
    SameRun previous (assetCompilerRun outside left project first previous)
      (assetCompilerRun outside right project second previous) := by
  have hscan := assetScan_perm project.root h
  unfold assetCompilerRun
  generalize assetScan project.root first = scanned at hscan ⊢
  generalize assetScan project.root second = scanned' at hscan ⊢
  cases hscan with
  | none => exact .inl ⟨rfl, rfl⟩
  | some hperm =>
    let run (sources : List AssetSource) : Bool × Option Bytes :=
      if assetDuplicate sources then (false, previous)
      else assetWrite outside project (assetGenerate sources) previous
    refine sorted_same AssetSource.url (fun _ _ hle => hle) run ?_ ?_ left right hperm
    · intro sources hrepeats
      exact if_pos ((assetDuplicate_repeats sources).trans hrepeats)
    · intro sources
      unfold run
      split_ifs
      · exact .inl ⟨rfl, rfl⟩
      · exact replaceGenerated_same _ _ _ _ _

/-- Compilation does not depend on the order in which directories are listed. -/
theorem compilerRuns_same (outside : Outside) (project : CeasyProject)
    (views views' : Sorting compilerSourceCompare) (assets assets' : Sorting assetSourceCompare)
    (previousViews previousAssets : Option Bytes) {viewsTree viewsTree' publicTree publicTree' : Root}
    (hviews : viewsTree.Reordered viewsTree') (hpublic : publicTree.Reordered publicTree') :
    SameRun previousViews (viewCompilerRun outside views project viewsTree previousViews)
        (viewCompilerRun outside views' project viewsTree' previousViews) ∧
      SameRun previousAssets (assetCompilerRun outside assets project publicTree previousAssets)
        (assetCompilerRun outside assets' project publicTree' previousAssets) :=
  ⟨viewCompilerRun_same outside views views' project previousViews hviews,
    assetCompilerRun_same outside assets assets' project previousAssets hpublic⟩

instance : IsTrans ViewSource compilerSourceCompare where
  trans _ _ _ hab hbc := List.le_trans (α := UInt8) hab hbc

instance : Std.Total compilerSourceCompare where
  total left right := List.le_total left.logical right.logical

instance : IsTrans AssetSource assetSourceCompare where
  trans _ _ _ hab hbc := List.le_trans (α := UInt8) hab hbc

instance : Std.Total assetSourceCompare where
  total left right := List.le_total left.url right.url

def page (name text : String) (rest : Tree) : Tree :=
  .leaf (sv name) (.regular (some (sv text))) rest

theorem compilerRuns_same_pages :
    SameRun none
        (viewCompilerRun ⟨true, true, true, true, true, 7⟩ (.insertion _)
          GeneratorFiles.sampleProject
          (.opened (page "b.html" "b" (.directory (sv "posts") (page "a.html" "a" .nil) .nil))) none)
        (viewCompilerRun ⟨true, true, true, true, true, 7⟩ (.insertion _)
          GeneratorFiles.sampleProject
          (.opened (.directory (sv "posts") (page "a.html" "a" .nil) (page "b.html" "b" .nil)))
          none) ∧
      SameRun none
        (assetCompilerRun ⟨true, true, true, true, true, 7⟩ (.insertion _)
          GeneratorFiles.sampleProject (.opened (page "b.css" "b" (page "a.css" "a" .nil))) none)
        (assetCompilerRun ⟨true, true, true, true, true, 7⟩ (.insertion _)
          GeneratorFiles.sampleProject (.opened (page "a.css" "a" (page "b.css" "b" .nil))) none) :=
  compilerRuns_same _ _ _ _ _ _ _ _
    (.opened (.swap (page "b.html" "b" .nil)
      (.directory (sv "posts") (page "a.html" "a" .nil) .nil) .nil))
    (.opened (.swap (page "b.css" "b" .nil) (page "a.css" "a" .nil) .nil))

end Ceasy.CompilerRuns
