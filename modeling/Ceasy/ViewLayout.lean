import Ceasy.ViewTree

set_option autoImplicit false

/-!
# Layouts

A body is rendered first and the layout around it. What the composition should
be is said by substitution: the layout's tree with the body as a text in the
place of every yield. The yield of a partial is the partial's own and stays.
-/
namespace Ceasy.ViewLayout
open StringView TemplateParse TemplateGrammar JumpForest View ViewTree

def spliceLeaf (html : Bytes) : Leaf → Leaf
  | .layoutYield => .text html
  | a => a

def splice (html : Bytes) : TemplateForest → TemplateForest
  | .nil => .nil
  | .leaf a rest => .leaf (spliceLeaf html a) (splice html rest)
  | .branch tag body rest => .branch tag (splice html body) (splice html rest)

section Meaning
variable (data : ViewData) (partialView : Bytes → Option ViewScope → Rendered)

theorem leafRendering_splice (html : Bytes) (scope : Option ViewScope) (a : Leaf) :
    leafRendering data partialView none scope (spliceLeaf html a) =
      leafRendering data partialView (some html) scope a := by
  cases a with
  | text value => rfl
  | variablePath path => rfl
  | partialView path => rfl
  | layoutYield => rfl

/-- With a yield at hand, rendering a tree is rendering the spliced tree without one. -/
theorem forestRendering_splice (html : Bytes) (f : TemplateForest) (scope : Option ViewScope) :
    forestRendering data partialView none (splice html f) scope =
      forestRendering data partialView (some html) f scope := by
  induction f generalizing scope with
  | nil => rfl
  | leaf a rest ih => rw [splice, forestRendering, leafRendering_splice, ih, forestRendering]
  | branch tag body rest ihb ihr =>
    have hbody : forestRendering data partialView none (splice html body) =
        forestRendering data partialView (some html) body := by
      funext scope
      exact ihb scope
    rw [splice, forestRendering, hbody, ihr, forestRendering]

/-- The scopes the body of a section is rendered with, one after the other. -/
def enteredScopes (tag : SectionTag) (scope : Option ViewScope) : List (Option ViewScope) :=
  match resolve data scope tag.name with
  | none => []
  | some value =>
    if tag.inverse then if viewTruthy value then [] else [scope]
    else
      match value with
      | .collection collection =>
        match collection.definition, collection.items with
        | some definition, some items =>
          (List.range' 0 collection.length).map fun index => some (itemScope items definition index)
        | _, _ => []
      | _ => if viewTruthy value then [scope] else []

def isYield : Leaf → Bool
  | .layoutYield => true
  | _ => false

/-- Rendering comes to a yield of the tree itself. -/
def reachesYield : TemplateForest → Option ViewScope → Bool
  | .nil, _ => false
  | .leaf a rest, scope => isYield a || reachesYield rest scope
  | .branch tag body rest, scope =>
    ((enteredScopes data tag scope).any fun inner => reachesYield body inner) ||
      reachesYield rest scope

end Meaning

/-- A rendering stopped by a missing yield, or else the rendering of the spliced tree. -/
def Stopped (stopped : Bool) (rendering spliced : Rendered) : Prop :=
  if stopped then rendering.error = some .yieldOutsideLayout else rendering = spliced

theorem andThen_ok {first second : Rendered} (h : (andThen first second).error = none) :
    first.error = none ∧ second.error = none := by
  unfold andThen at h
  split_ifs at h with hfirst
  · rw [h] at hfirst
    cases hfirst
  · exact ⟨Option.not_isSome_iff_eq_none.mp hfirst, h⟩

theorem Stopped.andThen {a b : Bool} {first first' second second' : Rendered}
    (hfirst : Stopped a first first') (hsecond : Stopped b second second')
    (hok : first'.error = none) :
    Stopped (a || b) (ViewTree.andThen first second) (ViewTree.andThen first' second') := by
  cases a with
  | true =>
    have herror : first.error = some .yieldOutsideLayout := hfirst
    change (ViewTree.andThen first second).error = some .yieldOutsideLayout
    simp [ViewTree.andThen, herror]
  | false =>
    obtain rfl : first = first' := hfirst
    cases b with
    | true =>
      have herror : second.error = some .yieldOutsideLayout := hsecond
      change (ViewTree.andThen first second).error = some .yieldOutsideLayout
      simp [ViewTree.andThen, hok, herror]
    | false =>
      obtain rfl : second = second' := hsecond
      exact rfl

section Stopping
variable {data : ViewData} {body spliced : Option ViewScope → Rendered}
  {reaches : Option ViewScope → Bool}

theorem stopped_items (hbody : ∀ scope, (spliced scope).error = none →
      Stopped (reaches scope) (body scope) (spliced scope))
    (items : Record) (definition : ModelDefinition) (index remaining : ℕ)
    (hok : (itemsRendering spliced items definition index remaining).error = none) :
    Stopped (((List.range' index remaining).map fun index =>
        some (itemScope items definition index)).any reaches)
      (itemsRendering body items definition index remaining)
      (itemsRendering spliced items definition index remaining) := by
  induction remaining generalizing index with
  | zero => exact rfl
  | succ remaining ih =>
    rw [itemsRendering] at hok
    rw [itemsRendering, itemsRendering]
    split_ifs at hok ⊢ with hsize
    · cases hok
    · obtain ⟨hfirst, hrest⟩ := andThen_ok hok
      rw [List.range'_succ, List.map_cons, List.any_cons]
      exact (hbody _ hfirst).andThen (ih _ hrest) hfirst

theorem stopped_once (hbody : ∀ scope, (spliced scope).error = none →
      Stopped (reaches scope) (body scope) (spliced scope)) (truthy : Bool)
    (scope : Option ViewScope) (hok : (if truthy then spliced scope else nothing).error = none) :
    Stopped ((if truthy then [scope] else []).any reaches)
      (if truthy then body scope else nothing) (if truthy then spliced scope else nothing) := by
  cases truthy with
  | false => exact rfl
  | true =>
    change Stopped (reaches scope || false) (body scope) (spliced scope)
    rw [Bool.or_false]
    exact hbody scope hok

theorem stopped_collection (hbody : ∀ scope, (spliced scope).error = none →
      Stopped (reaches scope) (body scope) (spliced scope)) (collection : ViewCollection)
    (hok : (collectionRendering spliced collection).error = none) :
    Stopped ((match collection.definition, collection.items with
        | some definition, some items =>
          (List.range' 0 collection.length).map fun index => some (itemScope items definition index)
        | _, _ => []).any reaches)
      (collectionRendering body collection) (collectionRendering spliced collection) := by
  unfold collectionRendering at hok ⊢
  cases hdefinition : collection.definition with
  | none =>
    rw [hdefinition] at hok
    cases hok
  | some definition =>
    cases hitems : collection.items with
    | none =>
      rw [hdefinition, hitems] at hok
      cases hok
    | some items =>
      rw [hdefinition, hitems] at hok
      dsimp only at hok ⊢
      split_ifs at hok ⊢
      · cases hok
      · exact stopped_items hbody items definition 0 _ hok

theorem stopped_section (hbody : ∀ scope, (spliced scope).error = none →
      Stopped (reaches scope) (body scope) (spliced scope))
    (tag : SectionTag) (scope : Option ViewScope)
    (hok : (sectionRendering data tag spliced scope).error = none) :
    Stopped ((enteredScopes data tag scope).any reaches) (sectionRendering data tag body scope)
      (sectionRendering data tag spliced scope) := by
  unfold sectionRendering at hok ⊢
  unfold enteredScopes
  cases hvalue : resolve data scope tag.name with
  | none => exact rfl
  | some value =>
    rw [hvalue] at hok
    dsimp only at hok ⊢
    by_cases hinverse : tag.inverse = true
    · rw [if_pos hinverse] at hok ⊢
      rw [if_pos hinverse, if_pos hinverse]
      cases htruthy : viewTruthy value with
      | true => exact rfl
      | false =>
        rw [htruthy] at hok
        exact stopped_once hbody true scope hok
    rw [if_neg hinverse] at hok ⊢
    rw [if_neg hinverse, if_neg hinverse]
    cases value with
    | empty => exact stopped_once hbody _ scope hok
    | string value => exact stopped_once hbody _ scope hok
    | int64 value => exact stopped_once hbody _ scope hok
    | bool value => exact stopped_once hbody _ scope hok
    | model model => exact stopped_once hbody _ scope hok
    | collection collection =>
      dsimp only at hok ⊢
      by_cases hlength : collection.length = 0
      · rw [if_pos hlength, if_pos hlength, hlength]
        cases collection.definition with
        | none => exact rfl
        | some definition => cases collection.items <;> exact rfl
      · rw [if_neg hlength] at hok ⊢
        rw [if_neg hlength]
        exact stopped_collection hbody collection hok

end Stopping

/-- Where the spliced tree renders, the tree without a yield is stopped exactly if it
    reaches one of its own yields. -/
theorem stopped_forest (data : ViewData) (partialView : Bytes → Option ViewScope → Rendered)
    (html : Bytes) (f : TemplateForest) (scope : Option ViewScope)
    (hok : (forestRendering data partialView none (splice html f) scope).error = none) :
    Stopped (reachesYield data f scope) (forestRendering data partialView none f scope)
      (forestRendering data partialView none (splice html f) scope) := by
  induction f generalizing scope with
  | nil => exact rfl
  | leaf a rest ih =>
    rw [splice, forestRendering] at hok
    obtain ⟨hleaf, hrest⟩ := andThen_ok hok
    rw [splice, forestRendering, forestRendering, reachesYield]
    refine Stopped.andThen ?_ (ih scope hrest) hleaf
    cases a with
    | layoutYield => exact rfl
    | text value => exact rfl
    | variablePath path => exact rfl
    | partialView path => exact rfl
  | branch tag body rest ihb ihr =>
    rw [splice, forestRendering] at hok
    obtain ⟨hsection, hrest⟩ := andThen_ok hok
    rw [splice, forestRendering, forestRendering, reachesYield]
    exact (stopped_section ihb tag scope hsection).andThen (ihr scope hrest) hsection

noncomputable def layoutRendering (context : Context) (body : Bytes) (f : TemplateForest) :
    Rendered :=
  treeRendering context none 0 (splice body f) none

theorem viewRenderWithLayout_body {context : Context} {path body : Bytes}
    (hbody : viewRenderToString context path [] = ⟨body, none⟩) (output : Bytes) :
    viewRenderWithLayout context path output =
      match viewLoad context.store layoutPath with
      | .missing => ⟨output ++ body, none⟩
      | .error error => ⟨output, some error⟩
      | .found layout =>
        viewRenderProgram context layout 0 layout.instructions.length none output
          (stringAsView body) true 0 := by
  unfold viewRenderToString at hbody
  unfold viewRenderWithLayout
  cases hload : viewLoad context.store path with
  | missing =>
    rw [hload] at hbody
    cases hbody
  | error error =>
    rw [hload] at hbody
    cases hbody
  | found program =>
    rw [hload] at hbody
    dsimp only at hbody ⊢
    rw [hbody]
    rfl

/-- A layout that renders around a body is rendered around it, unless the body is empty
    and the layout comes to a yield of its own. -/
theorem viewRenderWithLayout_composes (context : Context)
    (hbundle : CompiledBundle context.store.bundle) (path body output : Bytes)
    (hbody : viewRenderToString context path [] = ⟨body, none⟩) :
    (viewLoad context.store layoutPath = .missing →
      viewRenderWithLayout context path output = ⟨output ++ body, none⟩) ∧
    ∀ layout, viewLoad context.store layoutPath = .found layout →
      (∃ f, layout.instructions = forestProgram f) ∧
      ∀ f, layout.instructions = forestProgram f → (layoutRendering context body f).error = none →
        (viewRenderWithLayout context path output = onto (layoutRendering context body f) output ↔
          body ≠ [] ∨ reachesYield context.viewData f none = false) := by
  rw [viewRenderWithLayout_body hbody]
  constructor
  · intro hmissing
    rw [hmissing]
  intro layout hlayout
  rw [hlayout]
  dsimp only
  constructor
  · have htrees := viewLoad_trees hbundle layoutPath
    rw [hlayout] at htrees
    obtain ⟨f, -, hf⟩ := treeOf_program htrees
    exact ⟨f, hf⟩
  intro f hf hok
  rw [program_forest (partialsAgree hbundle 0) (Nat.zero_le _) hf]
  cases body with
  | cons c body =>
    have hsplice := forestRendering_splice context.viewData
      (partialRendering context (CEASY_VIEW_MAX_NESTING - 0)) (c :: body) f none
    refine iff_of_true ?_ (.inl (List.cons_ne_nil c body))
    exact congrArg (onto · output) hsplice.symm
  | nil =>
    have hstopped := stopped_forest context.viewData
      (partialRendering context (CEASY_VIEW_MAX_NESTING - 0)) [] f none hok
    rw [or_iff_right fun h => h rfl]
    change onto _ output = _ ↔ _
    cases hreaches : reachesYield context.viewData f none with
    | false =>
      rw [hreaches] at hstopped
      exact iff_of_true (congrArg (onto · output) hstopped) rfl
    | true =>
      rw [hreaches] at hstopped
      refine iff_of_false (fun heq => ?_) (fun h => nomatch h)
      have herror := congrArg Rendered.error heq
      change _ = (layoutRendering context [] f).error at herror
      rw [hok] at herror
      cases hstopped.symm.trans herror

def mainLayout : TemplateForest :=
  .leaf (.text (sv "<main>")) (.leaf .layoutYield (.leaf (.text (sv "</main>")) .nil))

/-- An empty view, a view with a text, and a layout around either. -/
def mainStore : ViewStore where
  root := some (sv "/srv")
  file _ := .missing
  bundle := [⟨sv "empty", [], []⟩, ⟨sv "a", [], [⟨.instructionText, sv "hi", 0⟩]⟩,
    ⟨layoutPath, [], forestProgram mainLayout⟩]

theorem mainStore_compiled : CompiledBundle mainStore.bundle := by
  intro view hview
  simp only [mainStore, List.mem_cons, List.not_mem_nil, or_false] at hview
  rcases hview with rfl | rfl | rfl
  · exact ⟨.nil, rfl⟩
  · exact ⟨.leaf (.text (sv "hi")) .nil, rfl⟩
  · exact ⟨mainLayout, rfl⟩

theorem mainStore_layout :
    viewLoad mainStore layoutPath = .found ⟨forestProgram mainLayout, layoutPath⟩ := by
  cbv

theorem viewRenderWithLayout_composes_text :
    viewRenderWithLayout ⟨{}, mainStore⟩ (sv "a") [] = ⟨sv "<main>hi</main>", none⟩ := by
  have hcomposes := (viewRenderWithLayout_composes ⟨{}, mainStore⟩ mainStore_compiled (sv "a")
    (sv "hi") [] (by decide_cbv)).2 _ mainStore_layout
  exact (hcomposes.2 mainLayout rfl rfl).mpr (.inl (by decide))

/-- The layout renders around every other body, and not around the empty one. -/
theorem viewRenderWithLayout_empty_body :
    viewRenderToString ⟨{}, mainStore⟩ (sv "empty") [] = ⟨[], none⟩ ∧
      layoutRendering ⟨{}, mainStore⟩ [] mainLayout = ⟨sv "<main></main>", none⟩ ∧
      viewRenderWithLayout ⟨{}, mainStore⟩ (sv "empty") [] =
        ⟨sv "<main>", some .yieldOutsideLayout⟩ := by
  refine ⟨?_, ?_, ?_⟩
  · decide_cbv
  · rfl
  · decide_cbv

end Ceasy.ViewLayout
