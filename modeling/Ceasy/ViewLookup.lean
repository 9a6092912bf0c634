import Ceasy.ViewFiles

set_option autoImplicit false

/-!
# Views in the working directory and embedded views

A view is looked up among the files of the views directory under two names, and among the embedded
views under the logical names that the compiler has given to these files. Here both are read over
one tree of files.
-/
namespace Ceasy.ViewLookup
open StringView TemplateParse TemplateGrammar View ViewCompiler ViewPath ViewNesting ViewTree
  ViewFiles

variable {entries : Entries} {segment text view : Bytes} {path : List Bytes}

/-- The file under one of the two names of a view, the second being tried where there is nothing
under the first. -/
inductive Stands (entries : Entries) (view : Bytes) : Bytes → Bytes → Prop where
  | page {text : Bytes} (hfile : fileAt entries (view ++ htmlSuffix) = .source text) :
    Stands entries view (view ++ htmlSuffix) text
  | partialView {text : Bytes} (hmissing : fileAt entries (view ++ htmlSuffix) = .missing)
    (hfile : fileAt entries (viewPartialName view ++ htmlSuffix) = .source text) :
    Stands entries view (viewPartialName view ++ htmlSuffix) text

/-- Where the compiler's names are the loader's: the file that stands for the path has no underscore
that is dropped but the one before a partial, and where none stands there is no variant. -/
structure Unambiguous (entries : Entries) (path : Bytes) : Prop where
  page : ∀ text, fileAt entries (path ++ htmlSuffix) = .source text →
    ∀ segment ∈ path.splitOn (ch '/'), ¬ Underscored segment
  partialView : ∀ text, fileAt entries (path ++ htmlSuffix) = .missing →
    fileAt entries (viewPartialName path ++ htmlSuffix) = .source text →
      ∀ segment ∈ (path.splitOn (ch '/')).dropLast, ¬ Underscored segment
  stray : (∀ relative text, ¬ Stands entries path relative text) →
    ∀ front text, fileAt entries (front ++ htmlSuffix) = .source text → ¬ Variant front path

/-- The sources of an accepted tree and the table that is made of them. -/
structure Accepts (root : Bytes) (entries : Entries) (bundle : List EmbeddedView)
    (sources : List ViewSource) : Prop where
  each : ∀ front text, fileAt entries (front ++ htmlSuffix) = .source text →
    ∃ source ∈ sources, Adds root (front ++ htmlSuffix) text source
  only : ∀ source ∈ sources, ∃ relative text, fileAt entries relative = .source text ∧
    Adds root relative text source
  distinct : ∀ first ∈ sources, ∀ second ∈ sources, first.logical = second.logical → first = second
  find : ∀ path view, viewBundleFind bundle path = some view ↔
    ∃ source ∈ sources, source.logical = path ∧
      view = ⟨source.logical, source.relative, source.program.instructions⟩
  partials : ∀ source ∈ sources, ∀ item ∈ source.program.instructions,
    item.type = .instructionPartial → ∃ target ∈ sources, target.logical = item.value
  compiled : CompiledBundle bundle

theorem Accepts.valid {root : Bytes} {bundle : List EmbeddedView} {sources : List ViewSource}
    (haccepts : Accepts root entries bundle sources) {source : ViewSource}
    (hsource : source ∈ sources) : viewPathValid source.logical = true := by
  obtain ⟨relative, text, -, hadds⟩ := haccepts.only source hsource
  have hlogical := hadds.some.2.1
  unfold compilerLogicalName at hlogical
  split_ifs at hlogical
  exact (Option.filter_eq_some_iff.mp hlogical).2

section lookups
variable {root : Bytes} {bundle : List EmbeddedView} {sources : List ViewSource}
  {relative : Bytes} {instructions : List TemplateInstruction}

end lookups

section filesystem
variable {store : ViewStore} {root : Bytes}

end filesystem

section files
variable {root : Bytes} {bundle : List EmbeddedView} {sources : List ViewSource}
  {relative : Bytes} {instructions : List TemplateInstruction}

/-- A file under one of the two names is one that the compiler has taken in. -/
theorem Accepts.stands (haccepts : Accepts root entries bundle sources)
    (h : Stands entries view relative text) :
    ∃ source ∈ sources, Adds root relative text source := by
  cases h with
  | page hfile => exact haccepts.each view text hfile
  | partialView _ hfile => exact haccepts.each (viewPartialName view) text hfile

theorem Stands.file (h : Stands entries view relative text) :
    fileAt entries relative = .source text := by
  cases h with
  | page hfile => exact hfile
  | partialView _ hfile => exact hfile

theorem compilerLogicalName_suffix {front logical : Bytes}
    (h : compilerLogicalName (front ++ htmlSuffix) PATH_MAX = some logical) :
    compilerLogicalSegments PATH_MAX front [] = some logical ∧ viewPathValid logical = true := by
  rwa [compilerLogicalName, if_pos (stringvEndsWith_append front htmlSuffix), List.length_append,
    Nat.add_sub_cancel, List.take_left, Option.filter_eq_some_iff] at h

/-- The name of a file is put together from its segments without their underscores. -/
theorem compilerLogicalName_some {front logical : Bytes}
    (hsegments : ∀ segment ∈ front.splitOn (ch '/'), segment ≠ [])
    (h : compilerLogicalName (front ++ htmlSuffix) PATH_MAX = some logical) :
    logical = ((front.splitOn (ch '/')).map compilerSegmentName).foldl childPath [] :=
  compilerLogicalSegments_some hsegments (compilerLogicalName_suffix h).1

theorem partial_segments {directories : List Bytes} {last : Bytes}
    (hvalid : viewPathValid view = true)
    (hsplit : view.splitOn (ch '/') = directories ++ [last]) :
    ∀ segment ∈ (viewPartialName view).splitOn (ch '/'), segment ≠ [] := by
  have hparts := (viewPathValid_iff view).mp hvalid
  rw [hsplit] at hparts
  intro segment hsegment
  rw [splitOn_partialView hsplit] at hsegment
  rcases List.mem_append.mp hsegment with hdirectory | hlast
  · exact viewPathSegment_ne_nil (hparts segment (List.mem_append_left _ hdirectory))
  · rw [List.mem_singleton.mp hlast]
    exact List.cons_ne_nil _ _

/-- The compiler gives a page the name under which it is looked up if no underscore is dropped. -/
theorem page_named (haccepts : Accepts root entries bundle sources)
    (hvalid : viewPathValid view = true)
    (hfile : fileAt entries (view ++ htmlSuffix) = .source text) :
    compilerLogicalName (view ++ htmlSuffix) PATH_MAX = some view ↔
      ∀ segment ∈ view.splitOn (ch '/'), ¬ Underscored segment := by
  obtain ⟨source, -, hadds⟩ := haccepts.each view text hfile
  obtain ⟨-, hlogical, -⟩ := hadds.some
  have hname := compilerLogicalName_some (fun segment hsegment =>
    viewPathSegment_ne_nil ((viewPathValid_iff view).mp hvalid segment hsegment)) hlogical
  rw [hlogical, Option.some_inj, hname, plain_name hvalid]

/-- The same for a file with an underscore before the last segment. -/
theorem partial_named (haccepts : Accepts root entries bundle sources)
    (hvalid : viewPathValid view = true)
    (hfile : fileAt entries (viewPartialName view ++ htmlSuffix) = .source text) :
    compilerLogicalName (viewPartialName view ++ htmlSuffix) PATH_MAX = some view ↔
      ∀ segment ∈ (view.splitOn (ch '/')).dropLast, ¬ Underscored segment := by
  obtain ⟨directories, last, hsplit, -⟩ := splitOn_suffix view htmlSuffix_plain
  obtain ⟨source, -, hadds⟩ := haccepts.each (viewPartialName view) text hfile
  obtain ⟨-, hlogical, -⟩ := hadds.some
  have hname := compilerLogicalName_some (partial_segments hvalid hsplit) hlogical
  rw [splitOn_partialView hsplit] at hname
  rw [hlogical, Option.some_inj, hname, partial_name hvalid hsplit, hsplit, List.dropLast_concat]

theorem Unambiguous.named (h : Unambiguous entries view)
    (haccepts : Accepts root entries bundle sources) (hvalid : viewPathValid view = true)
    (hstands : Stands entries view relative text) :
    compilerLogicalName relative PATH_MAX = some view := by
  cases hstands with
  | page hfile => exact (page_named haccepts hvalid hfile).mpr (h.page text hfile)
  | partialView hmissing hfile =>
    exact (partial_named haccepts hvalid hfile).mpr (h.partialView text hmissing hfile)

end files

end Ceasy.ViewLookup
