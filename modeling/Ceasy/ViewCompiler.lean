import Mathlib.Data.List.Sort
import Ceasy.DepthFirst
import Ceasy.View

set_option autoImplicit false

/-!
# The view compiler

`viewCompilerRun` scans the views directory, gives every HTML file its logical
name, checks the set of views and returns the table of embedded views that the
generated source declares. Files are read and written and memory is allocated
without failure; the order of the entries is the one in which the directory lists
them.
-/
namespace Ceasy.ViewCompiler
open StringView TemplateParse View

/-- The entries of a directory, without `.` and `..`. -/
inductive Entries where
  | nil
  | file (name source : Bytes) (rest : Entries)
  | directory (name : Bytes) (inside rest : Entries)
deriving DecidableEq, Repr

structure ViewSource where
  relative : Bytes
  logical : Bytes
  program : TemplateProgram
deriving DecidableEq, Repr

def htmlSuffix : Bytes := sv ".html"

def stringvEndsWith (value suffix : Bytes) : Bool :=
  if value.length < suffix.length then false
  else value.drop (value.length - suffix.length) == suffix

/-- A segment without its leading underscore. -/
def compilerSegmentName (segment : Bytes) : Bytes :=
  if segment.head? == some (ch '_') then segment.tail else segment

/-- The loop of `compiler_logical_name`; `rest` is what the cursor has not passed. -/
def compilerLogicalSegments (logicalSize : ℕ) (rest output : Bytes) : Option Bytes :=
  if rest = [] then some output
  else
    let name := compilerSegmentName (rest.takeWhile (· != ch '/'))
    if output.length ≠ 0 ∧ logicalSize ≤ output.length + 1 then none
    else
      let output := if output.length ≠ 0 then output ++ [ch '/'] else output
      if logicalSize ≤ output.length + name.length then none
      else
        match _h : rest.dropWhile (· != ch '/') with
        | [] => some (output ++ name)
        | _ :: next => compilerLogicalSegments logicalSize next (output ++ name)
termination_by rest.length
decreasing_by
  have := List.length_dropWhile_le (· != ch '/') rest
  rw [_h, List.length_cons] at this
  omega

def compilerLogicalName (relative : Bytes) (logicalSize : ℕ) : Option Bytes :=
  if stringvEndsWith relative htmlSuffix then
    (compilerLogicalSegments logicalSize (relative.take (relative.length - htmlSuffix.length))
      []).filter viewPathValid
  else none

def compilerFind (sources : List ViewSource) (logical : Bytes) : Option ℕ :=
  sources.findIdx? fun source => stringvEqual source.logical logical

def viewPath (root relative : Bytes) : Bytes := root ++ sv "/views/" ++ relative

def compilerAdd (root : Bytes) (sources : List ViewSource) (relative source : Bytes) :
    Option (List ViewSource) :=
  if PATH_MAX ≤ relative.length then none
  else
    match compilerLogicalName relative PATH_MAX with
    | none => none
    | some logical =>
      if PATH_MAX ≤ (viewPath root relative).length then none
      else
        let parsed := templateParse source relative
        if parsed.ok then some (sources ++ [⟨relative, logical, parsed.program⟩]) else none

def childPath (relative name : Bytes) : Bytes :=
  if relative = [] then name else relative ++ [ch '/'] ++ name

def childTooLong (root child : Bytes) : Bool :=
  PATH_MAX ≤ child.length || PATH_MAX ≤ (viewPath root child).length

def compilerScan (root : Bytes) :
    Entries → Bytes → List ViewSource → Option (List ViewSource)
  | .nil, _, sources => some sources
  | .file name source rest, relative, sources =>
    let child := childPath relative name
    if childTooLong root child then none
    else if stringvEndsWith name htmlSuffix then
      match compilerAdd root sources child source with
      | none => none
      | some sources => compilerScan root rest relative sources
    else compilerScan root rest relative sources
  | .directory name inside rest, relative, sources =>
    let child := childPath relative name
    if childTooLong root child then none
    else
      match compilerScan root inside child sources with
      | none => none
      | some sources => compilerScan root rest relative sources

/-- `strcmp` on the logical names. -/
def compilerSourceCompare (a b : ViewSource) : Prop := a.logical ≤ b.logical

instance : DecidableRel compilerSourceCompare := fun a b =>
  inferInstanceAs (Decidable (a.logical ≤ b.logical))

def compilerDuplicate : List ViewSource → Bool
  | first :: second :: rest =>
    first.logical == second.logical || compilerDuplicate (second :: rest)
  | _ => false

def compilerValidatePartials (sources : List ViewSource) : Bool :=
  sources.all fun source => source.program.instructions.all fun item =>
    item.type != .instructionPartial || (compilerFind sources item.value).isSome

/-- The views whose partials a view names, in the order of its instructions. -/
def compilerTargets (sources : List ViewSource) (index : ℕ) : List ℕ :=
  match sources[index]? with
  | none => []
  | some source => source.program.instructions.filterMap fun item =>
    if item.type = .instructionPartial then compilerFind sources item.value else none

/-- The states of a view are 0, 1 and 2 in the source. -/
def compilerVisit (sources : List ViewSource) (depth index : ℕ) (state : List DepthFirst.Mark) :
    Option (Bool × List DepthFirst.Mark) :=
  DepthFirst.visit (compilerTargets sources) depth index state

/-- The recursion of `compiler_visit` is given room for one call for each view. -/
def compilerValidateCycles (sources : List ViewSource) : Option Bool :=
  DepthFirst.search (compilerVisit sources sources.length) (List.range sources.length)
    (List.replicate sources.length .fresh)

def compilerGenerate (sources : List ViewSource) : List EmbeddedView :=
  sources.map fun source => ⟨source.logical, source.relative, source.program.instructions⟩

def viewCompilerRun (root : Bytes) (entries : Entries) : Option (List EmbeddedView) :=
  if PATH_MAX ≤ (root ++ sv "/views").length then none
  else
    match compilerScan root entries [] [] with
    | none => none
    | some sources =>
      let sources := sources.insertionSort compilerSourceCompare
      if compilerDuplicate sources then none
      else if compilerValidatePartials sources && compilerValidateCycles sources == some true then
        some (compilerGenerate sources)
      else none

/-- The view named first has a partial instruction that names the second. -/
def PartialEdge (sources : List ViewSource) (x y : Bytes) : Prop :=
  ∃ source ∈ sources, source.logical = x ∧
    ∃ item ∈ source.program.instructions, item.type = .instructionPartial ∧ item.value = y

def PartialCycle (sources : List ViewSource) : Prop :=
  ∃ x, Relation.TransGen (PartialEdge sources) x x

def Distinct (sources : List ViewSource) : Prop := (sources.map ViewSource.logical).Nodup

variable {sources : List ViewSource}

theorem compilerFind_some {logical : Bytes} {index : ℕ}
    (h : compilerFind sources logical = some index) :
    ∃ source, sources[index]? = some source ∧ source.logical = logical := by
  obtain ⟨hindex, hequal, -⟩ := List.findIdx?_eq_some_iff_getElem.mp h
  exact ⟨sources[index], List.getElem?_eq_getElem hindex, eq_of_beq hequal⟩

theorem compilerFind_isSome {source : ViewSource} (h : source ∈ sources) :
    ∃ index, compilerFind sources source.logical = some index := by
  cases hfind : compilerFind sources source.logical with
  | some index => exact ⟨index, rfl⟩
  | none =>
    have hequal := List.findIdx?_eq_none_iff.mp hfind source h
    simp [stringvEqual] at hequal

theorem compilerFind_at (hdistinct : Distinct sources) {index : ℕ} {source : ViewSource}
    (h : sources[index]? = some source) : compilerFind sources source.logical = some index := by
  obtain ⟨found, hfound⟩ := compilerFind_isSome (List.mem_of_getElem? h)
  obtain ⟨other, hother, hlogical⟩ := compilerFind_some hfound
  have hindex : found = index := by
    refine (List.getElem?_inj ?_ hdistinct).mp ?_
    · rw [List.length_map]
      exact (List.getElem?_eq_some_iff.mp hother).1
    · rw [List.getElem?_map, List.getElem?_map, h, hother, Option.map_some, Option.map_some, hlogical]
  rw [hfound, hindex]

theorem mem_compilerTargets {index target : ℕ} :
    target ∈ compilerTargets sources index ↔
      ∃ source, sources[index]? = some source ∧ ∃ item ∈ source.program.instructions,
        item.type = .instructionPartial ∧ compilerFind sources item.value = some target := by
  unfold compilerTargets
  cases sources[index]? with
  | none => simp
  | some source => simp [List.mem_filterMap, Option.ite_none_right_eq_some]

theorem compilerTargets_within : DepthFirst.Within (compilerTargets sources) sources.length := by
  intro index target hedge
  obtain ⟨source, hsource, item, -, -, hfind⟩ := mem_compilerTargets.mp hedge
  obtain ⟨found, hfound, -⟩ := compilerFind_some hfind
  exact ⟨(List.getElem?_eq_some_iff.mp hsource).1, (List.getElem?_eq_some_iff.mp hfound).1⟩

/-- The edges between views in the order of the list are those between their names. -/
theorem edge_iff (hdistinct : Distinct sources) {v w : ℕ} {source target : ViewSource}
    (hv : sources[v]? = some source) (hw : sources[w]? = some target) :
    DepthFirst.Edge (compilerTargets sources) v w ↔
      PartialEdge sources source.logical target.logical := by
  rw [DepthFirst.Edge, mem_compilerTargets]
  constructor
  · rintro ⟨other, hother, item, hitem, htype, hfind⟩
    obtain rfl : source = other := Option.some.inj (hv.symm.trans hother)
    obtain ⟨found, hfound, hlogical⟩ := compilerFind_some hfind
    obtain rfl : target = found := Option.some.inj (hw.symm.trans hfound)
    exact ⟨source, List.mem_of_getElem? hv, rfl, item, hitem, htype, hlogical.symm⟩
  · rintro ⟨other, hother, hlogical, item, hitem, htype, hvalue⟩
    obtain ⟨index, hindex⟩ := List.mem_iff_getElem?.mp hother
    have hsame := compilerFind_at hdistinct hindex
    rw [hlogical, compilerFind_at hdistinct hv] at hsame
    rw [← Option.some.inj hsame, hv] at hindex
    obtain rfl : source = other := Option.some.inj hindex
    refine ⟨source, hv, item, hitem, htype, ?_⟩
    rw [hvalue]
    exact compilerFind_at hdistinct hw

theorem partialCycle_iff (hdistinct : Distinct sources) :
    DepthFirst.Cyclic (compilerTargets sources) ↔ PartialCycle sources := by
  constructor
  · rintro ⟨v, hv⟩
    have hnamed : ∀ w, Relation.TransGen (DepthFirst.Edge (compilerTargets sources)) v w →
        ∃ source target, sources[v]? = some source ∧ sources[w]? = some target ∧
          Relation.TransGen (PartialEdge sources) source.logical target.logical := by
      intro w hw
      induction hw with
      | single hedge =>
        obtain ⟨hv, hw⟩ := compilerTargets_within _ _ hedge
        refine ⟨_, _, List.getElem?_eq_getElem hv, List.getElem?_eq_getElem hw, .single ?_⟩
        exact (edge_iff hdistinct (List.getElem?_eq_getElem hv)
          (List.getElem?_eq_getElem hw)).mp hedge
      | tail _ hedge ih =>
        obtain ⟨source, middle, hsource, hmiddle, hpath⟩ := ih
        have hw := (compilerTargets_within _ _ hedge).2
        refine ⟨source, _, hsource, List.getElem?_eq_getElem hw, hpath.tail ?_⟩
        exact (edge_iff hdistinct hmiddle (List.getElem?_eq_getElem hw)).mp hedge
    obtain ⟨source, target, hsource, htarget, hpath⟩ := hnamed v hv
    obtain rfl : source = target := Option.some.inj (hsource.symm.trans htarget)
    exact ⟨_, hpath⟩
  · rintro ⟨x, hx⟩
    have hindexed : ∀ y, Relation.TransGen (PartialEdge sources) y x →
        ∃ v w source target, sources[v]? = some source ∧ source.logical = y ∧
          sources[w]? = some target ∧ target.logical = x ∧
          Relation.TransGen (DepthFirst.Edge (compilerTargets sources)) v w := by
      -- every name on the way to `x` begins an edge, and so is the name of a view
      obtain ⟨z, ⟨target, htarget, hlogical, -⟩, -⟩ := Relation.TransGen.head'_iff.mp hx
      obtain ⟨w, hw⟩ := List.mem_iff_getElem?.mp htarget
      intro y hy
      induction hy using Relation.TransGen.head_induction_on with
      | single hedge =>
        obtain ⟨source, hsource, hname, hitem⟩ := hedge
        obtain ⟨v, hv⟩ := List.mem_iff_getElem?.mp hsource
        refine ⟨v, w, source, target, hv, hname, hw, hlogical, .single ?_⟩
        exact (edge_iff hdistinct hv hw).mpr ⟨source, hsource, rfl, hlogical.symm ▸ hitem⟩
      | head hedge _ ih =>
        obtain ⟨u, w', middle, target', hu, hmiddle, hw', htarget', hpath⟩ := ih
        obtain ⟨source, hsource, hname, hitem⟩ := hedge
        obtain ⟨v, hv⟩ := List.mem_iff_getElem?.mp hsource
        refine ⟨v, w', source, target', hv, hname, hw', htarget', .head ?_ hpath⟩
        exact (edge_iff hdistinct hv hu).mpr ⟨source, hsource, rfl, hmiddle.symm ▸ hitem⟩
    obtain ⟨v, w, source, target, hv, hsource, hw, htarget, hpath⟩ := hindexed x hx
    have hsame := compilerFind_at hdistinct hv
    rw [hsource, ← htarget, compilerFind_at hdistinct hw] at hsame
    rw [Option.some.inj hsame] at hpath
    exact ⟨v, hpath⟩

/-- The check ends, and it accepts exactly the sets of views whose partials form no cycle. -/
theorem compilerValidateCycles_exact (sources : List ViewSource) (hdistinct : Distinct sources) :
    ∃ ok, compilerValidateCycles sources = some ok ∧ (ok = true ↔ ¬ PartialCycle sources) := by
  obtain ⟨ok, hsearch, hok⟩ := DepthFirst.search_exact (@compilerTargets_within sources)
  exact ⟨ok, hsearch, hok.trans (not_congr (partialCycle_iff hdistinct))⟩

def mutualViews : List ViewSource :=
  [⟨sv "a.html", sv "a", ⟨[⟨.instructionPartial, sv "b", 0⟩], []⟩⟩,
    ⟨sv "b.html", sv "b", ⟨[⟨.instructionPartial, sv "a", 0⟩], []⟩⟩]

theorem compilerValidateCycles_exact_mutual :
    ∃ ok, compilerValidateCycles mutualViews = some ok ∧ (ok = true ↔ ¬ PartialCycle mutualViews) :=
  compilerValidateCycles_exact mutualViews (by
    unfold Distinct
    decide)

end Ceasy.ViewCompiler
