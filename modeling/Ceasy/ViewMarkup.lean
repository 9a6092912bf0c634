import Ceasy.View
import Ceasy.StringMapOperations

set_option autoImplicit false

/-!
# Values cannot change markup

Two renderings of the same templates whose data differs only in the contents of
strings and in integers walk through the same instructions, so that all that is
left of their outputs after dropping the text of values is the same.
-/
namespace Ceasy.ViewMarkup
open StringView Allocator LinearProbing TemplateParse Collection View

def isMarkup (c : UInt8) : Bool := c = ch '<' || c = ch '>' || c = ch '"' || c = ch '\''

def markup (output : Bytes) : Bytes := output.filter isMarkup

inductive SameScalar : ViewValue → ViewValue → Prop where
  | empty : SameScalar .empty .empty
  | string {a b : Bytes} (h : 0 < a.length ↔ 0 < b.length) : SameScalar (.string a) (.string b)
  | int64 {a b : Int64} (h : a ≠ 0 ↔ b ≠ 0) : SameScalar (.int64 a) (.int64 b)
  | bool (value : Bool) : SameScalar (.bool value) (.bool value)

def SameFields (definition : Option ModelDefinition) (a b : Option Record) : Prop :=
  ∀ name, Option.Rel SameScalar (viewModelField ⟨a, definition⟩ name)
    (viewModelField ⟨b, definition⟩ name)

/-- Values that agree in all but the contents of strings and integers. -/
inductive SameShape : ViewValue → ViewValue → Prop where
  | scalar {a b : ViewValue} (h : SameScalar a b) : SameShape a b
  | model {a b : Option Record} {definition : Option ModelDefinition}
    (hrecord : a.isSome = b.isSome) (hfields : SameFields definition a b) :
    SameShape (.model ⟨a, definition⟩) (.model ⟨b, definition⟩)
  | collection {a b : Option Record} {length : ℕ} {definition : Option ModelDefinition}
    (hitems : a.isSome = b.isSome)
    (hfields : ∀ d items items', definition = some d → a = some items → b = some items' →
      ∀ index < length, SameFields definition (itemScope items d index).record
        (itemScope items' d index).record) :
    SameShape (.collection ⟨a, length, definition⟩) (.collection ⟨b, length, definition⟩)

def SameData (a b : ViewData) : Prop := ∀ name, Option.Rel SameShape (viewGet a name) (viewGet b name)

def SameScope (a b : ViewScope) : Prop :=
  a.definition = b.definition ∧ SameFields a.definition a.record b.record

def SameMarkup (a b : Bytes) : Prop := markup a = markup b

structure SameRendered (a b : Rendered) : Prop where
  error : a.error = b.error
  output : SameMarkup a.output b.output

theorem sameMarkup_append {a b c d : Bytes} (h : SameMarkup a b) (h' : SameMarkup c d) :
    SameMarkup (a ++ c) (b ++ d) := by
  unfold SameMarkup markup at *
  rw [List.filter_append, List.filter_append, h, h']

theorem markup_htmlEscape (c : UInt8) : markup (htmlEscape c) = [] := by
  unfold htmlEscape
  split_ifs with h1 h2 h3 h4 h5
  · decide
  · decide
  · decide
  · decide
  · decide
  · simp [markup, isMarkup, h2, h3, h4, h5]

theorem markup_escaped (value : Bytes) : markup (value.flatMap htmlEscape) = [] := by
  induction value with
  | nil => rfl
  | cons c value ih =>
    rw [List.flatMap_cons, markup, List.filter_append]
    exact List.append_eq_nil_iff.mpr ⟨markup_htmlEscape c, ih⟩

theorem digit_plain {c : UInt8} (h : ch '0' ≤ c ∧ c ≤ ch '9') : isMarkup c = false := by
  have hlow : 48 ≤ c.toNat := UInt8.le_iff_toNat_le.mp h.1
  have hhigh : c.toNat ≤ 57 := UInt8.le_iff_toNat_le.mp h.2
  rw [← UInt8.ofNat_toNat (x := c)]
  generalize c.toNat = n at hlow hhigh
  interval_cases n <;> decide

theorem markup_decimal (n : ℕ) : markup (decimal n) = [] := by
  rw [markup, List.filter_eq_nil_iff]
  intro byte hbyte
  rw [digit_plain (decimal_digit hbyte)]
  exact Bool.false_ne_true

theorem markup_signedDecimal (n : ℤ) : markup (signedDecimal n) = [] := by
  unfold signedDecimal
  split_ifs
  · rw [markup, List.filter_cons_of_neg (by decide)]
    exact markup_decimal _
  · exact markup_decimal _

theorem sameShape_truthy {a b : ViewValue} (h : SameShape a b) : viewTruthy a = viewTruthy b := by
  cases h with
  | scalar h =>
    cases h with
    | empty => rfl
    | string h => simpa [viewTruthy] using h
    | int64 h => simpa [viewTruthy] using not_iff_not.mp h
    | bool value => rfl
  | model hrecord hfields => exact hrecord
  | collection hitems hfields => rfl

theorem sameShape_render {a b : ViewValue} (h : SameShape a b) {output output' : Bytes}
    (houtput : SameMarkup output output') :
    Option.Rel SameMarkup (viewRenderValue output a) (viewRenderValue output' b) := by
  cases h with
  | scalar h =>
    cases h with
    | empty => exact .some houtput
    | string h =>
      refine .some (sameMarkup_append houtput ?_)
      rw [SameMarkup, markup_escaped, markup_escaped]
    | int64 h =>
      refine .some (sameMarkup_append houtput ?_)
      rw [SameMarkup, markup_signedDecimal, markup_signedDecimal]
    | bool value => exact .some (sameMarkup_append houtput rfl)
  | model hrecord hfields => exact .none
  | collection hitems hfields => exact .none

theorem sameScalar_rel {x y : Option ViewValue} (h : Option.Rel SameScalar x y) :
    Option.Rel SameShape x y := by
  cases h with
  | none => exact .none
  | some h => exact .some (.scalar h)

theorem scopeField_same {scope scope' : Option ViewScope} (h : Option.Rel SameScope scope scope')
    (path : Bytes) :
    Option.Rel SameShape (viewScopeField scope path) (viewScopeField scope' path) := by
  cases h with
  | none => exact .none
  | some h =>
    rename_i a b
    obtain ⟨hdefinition, hfields⟩ := h
    simp only [viewScopeField, Option.bind_some]
    split_ifs
    · exact .none
    · rw [← hdefinition]
      exact sameScalar_rel (hfields path)

theorem viewResolve_same {a b : ViewData} (h : SameData a b) {scope scope' : Option ViewScope}
    (hscope : Option.Rel SameScope scope scope') (path : Bytes) :
    Option.Rel SameShape (viewResolve a path scope) (viewResolve b path scope') := by
  unfold viewResolve
  have hfield := scopeField_same hscope path
  generalize viewScopeField scope path = x, viewScopeField scope' path = y at hfield
  cases hfield with
  | some hvalue => exact .some hvalue
  | none =>
    dsimp only
    cases stringvFindChar path (ch '.') with
    | none => exact h path
    | some dot =>
      dsimp only
      have hroot := h (stringvSlice path 0 dot)
      generalize viewGet a _ = x, viewGet b _ = y at hroot
      cases hroot with
      | none => exact .none
      | some hvalue =>
        dsimp only
        split_ifs
        · exact .none
        · cases hvalue with
          | scalar hvalue => cases hvalue <;> exact .none
          | model hrecord hfields => exact sameScalar_rel (hfields _)
          | collection hitems hfields => exact .none

section Runs
variable {store : ViewStore} {a b : ViewData} {program : TemplateProgram} {depth : ℕ}
  {yieldHtml yieldHtml' : Option Bytes} {allowYield : Bool}

theorem sameRendered_then {r s : Rendered} (h : SameRendered r s) {next next' : Bytes → Rendered}
    (hnext : ∀ output output', SameMarkup output output' →
      SameRendered (next output) (next' output')) :
    SameRendered (if r.error.isSome then r else next r.output)
      (if s.error.isSome then s else next' s.output) := by
  rw [← h.error]
  split_ifs
  · exact h
  · exact hnext _ _ h.output

def PartialSame (store : ViewStore) (a b : ViewData) (depth : ℕ) : Prop :=
  ∀ path scope scope' output output', Option.Rel SameScope scope scope' →
    SameMarkup output output' →
    SameRendered (viewRenderPartial ⟨a, store⟩ path scope output depth)
      (viewRenderPartial ⟨b, store⟩ path scope' output' depth)

def RangeSame (store : ViewStore) (a b : ViewData) (program : TemplateProgram) (start stop : ℕ)
    (yieldHtml yieldHtml' : Option Bytes) (allowYield : Bool) (depth : ℕ) : Prop :=
  ∀ scope scope' output output', Option.Rel SameScope scope scope' → SameMarkup output output' →
    SameRendered
      (viewRenderProgram ⟨a, store⟩ program start stop scope output yieldHtml allowYield depth)
      (viewRenderProgram ⟨b, store⟩ program start stop scope' output' yieldHtml' allowYield depth)

def LoopSame (store : ViewStore) (a b : ViewData) (program : TemplateProgram) (index stop : ℕ)
    (yieldHtml yieldHtml' : Option Bytes) (allowYield : Bool) (depth : ℕ) : Prop :=
  ∀ scope scope' output output', Option.Rel SameScope scope scope' → SameMarkup output output' →
    SameRendered
      (viewRenderLoop ⟨a, store⟩ program index stop scope output yieldHtml allowYield depth)
      (viewRenderLoop ⟨b, store⟩ program index stop scope' output' yieldHtml' allowYield depth)

theorem range_same {start stop : ℕ}
    (h : LoopSame store a b program start stop yieldHtml yieldHtml' allowYield depth) :
    RangeSame store a b program start stop yieldHtml yieldHtml' allowYield depth := by
  intro scope scope' output output' hscope houtput
  rw [viewRenderProgram, viewRenderProgram]
  split_ifs
  · exact ⟨rfl, houtput⟩
  · exact h scope scope' output output' hscope houtput

theorem items_same {start stop : ℕ}
    (h : RangeSame store a b program start stop yieldHtml yieldHtml' allowYield depth)
    {items items' : Record} {definition : ModelDefinition} {index remaining : ℕ}
    (hitems : ∀ i < index + remaining, SameFields (some definition)
      (itemScope items definition i).record (itemScope items' definition i).record)
    {output output' : Bytes} (houtput : SameMarkup output output') :
    SameRendered
      (viewRenderItems ⟨a, store⟩ program items definition index remaining start stop output
        yieldHtml allowYield depth)
      (viewRenderItems ⟨b, store⟩ program items' definition index remaining start stop output'
        yieldHtml' allowYield depth) := by
  induction remaining generalizing index output output' with
  | zero =>
    rw [viewRenderItems, viewRenderItems]
    exact ⟨rfl, houtput⟩
  | succ remaining ih =>
    rw [viewRenderItems, viewRenderItems]
    split_ifs
    · exact ⟨rfl, houtput⟩
    · have hitem : SameScope (itemScope items definition index)
          (itemScope items' definition index) := ⟨rfl, hitems index (by omega)⟩
      exact sameRendered_then (h _ _ _ _ (.some hitem) houtput) fun output output' houtput =>
        ih (fun i hi => hitems i (by omega)) houtput

theorem collection_same {start stop : ℕ}
    (h : RangeSame store a b program start stop yieldHtml yieldHtml' allowYield depth)
    {x y : Option Record} {length : ℕ} {definition : Option ModelDefinition}
    (hitems : x.isSome = y.isSome)
    (hfields : ∀ d items items', definition = some d → x = some items → y = some items' →
      ∀ index < length, SameFields definition (itemScope items d index).record
        (itemScope items' d index).record)
    {output output' : Bytes} (houtput : SameMarkup output output') :
    SameRendered
      (viewRenderCollection ⟨a, store⟩ program ⟨x, length, definition⟩ start stop output yieldHtml
        allowYield depth)
      (viewRenderCollection ⟨b, store⟩ program ⟨y, length, definition⟩ start stop output'
        yieldHtml' allowYield depth) := by
  rw [viewRenderCollection.eq_def, viewRenderCollection.eq_def]
  cases definition with
  | none => exact ⟨rfl, houtput⟩
  | some d =>
    cases x with
    | none =>
      cases y with
      | none =>
        dsimp only
        split_ifs
        · exact ⟨rfl, houtput⟩
        · exact ⟨rfl, houtput⟩
      | some items' => cases hitems
    | some items =>
      cases y with
      | none => cases hitems
      | some items' =>
        dsimp only
        split_ifs
        · exact ⟨rfl, houtput⟩
        · refine items_same h (fun i hi => ?_) houtput
          exact hfields d items items' rfl rfl rfl i (by omega)

theorem section_same {start stop : ℕ}
    (h : RangeSame store a b program start stop yieldHtml yieldHtml' allowYield depth)
    {v w : ViewValue} (inverse : Bool) {scope scope' : Option ViewScope}
    (hscope : Option.Rel SameScope scope scope') {output output' : Bytes}
    (houtput : SameMarkup output output') : SameShape v w →
    SameRendered
      (if viewTruthy v == inverse then ⟨output, none⟩
      else
        match v, inverse with
        | .collection collection, false =>
          viewRenderCollection ⟨a, store⟩ program collection start stop output yieldHtml allowYield
            depth
        | _, _ =>
          viewRenderProgram ⟨a, store⟩ program start stop scope output yieldHtml allowYield depth)
      (if viewTruthy w == inverse then ⟨output', none⟩
      else
        match w, inverse with
        | .collection collection, false =>
          viewRenderCollection ⟨b, store⟩ program collection start stop output' yieldHtml' allowYield
            depth
        | _, _ =>
          viewRenderProgram ⟨b, store⟩ program start stop scope' output' yieldHtml' allowYield
            depth) := by
  intro hvalue
  have hbody := h scope scope' output output' hscope houtput
  rw [← sameShape_truthy hvalue]
  by_cases htruthy : (viewTruthy v == inverse) = true
  · rw [if_pos htruthy, if_pos htruthy]
    exact ⟨rfl, houtput⟩
  rw [if_neg htruthy, if_neg htruthy]
  cases hvalue with
  | scalar hvalue => cases hvalue <;> cases inverse <;> exact hbody
  | model hrecord hfields => exact hbody
  | collection hitems hfields =>
    cases inverse with
    | true => exact hbody
    | false => exact collection_same h hitems hfields houtput

/-- The loop does the same in both runs, by induction on the length of the range. -/
theorem loop_same (hdata : SameData a b) (hnested : PartialSame store a b depth)
    (hyield : Option.Rel SameMarkup yieldHtml yieldHtml') (index stop : ℕ) :
    LoopSame store a b program index stop yieldHtml yieldHtml' allowYield depth := by
  induction hn : stop - index using Nat.strongRecOn generalizing index stop with
  | _ n ih =>
    intro scope scope' output output' hscope houtput
    rw [viewRenderLoop.eq_def, viewRenderLoop.eq_def ⟨b, store⟩]
    by_cases hindex : index < stop
    swap
    · rw [dif_neg hindex, dif_neg hindex]
      exact ⟨rfl, houtput⟩
    rw [dif_pos hindex, dif_pos hindex]
    cases hat : program.instructions[index]? with
    | none => exact ⟨rfl, houtput⟩
    | some instruction =>
      have hnext := ih (stop - (index + 1)) (by omega) (index + 1) stop rfl
      obtain ⟨type, value, jump⟩ := instruction
      have hresolve := viewResolve_same hdata hscope value
      cases type with
      | instructionText => exact hnext _ _ _ _ hscope (sameMarkup_append houtput rfl)
      | instructionVariable =>
        dsimp only
        generalize viewResolve a value scope = x, viewResolve b value scope' = y at hresolve
        cases hresolve with
        | none => exact ⟨rfl, houtput⟩
        | some hvalue =>
          have hrender := sameShape_render hvalue houtput
          dsimp only
          generalize viewRenderValue output _ = x, viewRenderValue output' _ = y at hrender
          cases hrender with
          | none => exact ⟨rfl, houtput⟩
          | some houtput => exact hnext _ _ _ _ hscope houtput
      | instructionPartial =>
        exact sameRendered_then (hnested value _ _ _ _ hscope houtput)
          fun output output' houtput => hnext _ _ _ _ hscope houtput
      | instructionYield =>
        dsimp only
        cases hyield with
        | none => exact ⟨rfl, houtput⟩
        | some hhtml =>
          dsimp only
          split_ifs
          · exact ⟨rfl, houtput⟩
          · exact hnext _ _ _ _ hscope (sameMarkup_append houtput hhtml)
      | instructionSection =>
        dsimp only
        generalize viewResolve a value scope = x, viewResolve b value scope' = y at hresolve
        cases hresolve with
        | none => exact ⟨rfl, houtput⟩
        | some hvalue =>
          dsimp only
          by_cases hjump : jump < index + 1 ∨ stop < jump
          · rw [dif_pos hjump, dif_pos hjump]
            exact ⟨rfl, houtput⟩
          · have hrange := range_same (ih (jump - (index + 1)) (by omega) (index + 1) jump rfl)
            rw [dif_neg hjump, dif_neg hjump]
            exact sameRendered_then (section_same hrange _ hscope houtput hvalue)
              fun output output' houtput =>
                ih (stop - jump) (by omega) jump stop rfl _ _ _ _ hscope houtput
      | instructionInverseSection =>
        dsimp only
        generalize viewResolve a value scope = x, viewResolve b value scope' = y at hresolve
        cases hresolve with
        | none => exact ⟨rfl, houtput⟩
        | some hvalue =>
          dsimp only
          by_cases hjump : jump < index + 1 ∨ stop < jump
          · rw [dif_pos hjump, dif_pos hjump]
            exact ⟨rfl, houtput⟩
          · have hrange := range_same (ih (jump - (index + 1)) (by omega) (index + 1) jump rfl)
            rw [dif_neg hjump, dif_neg hjump]
            exact sameRendered_then (section_same hrange _ hscope houtput hvalue)
              fun output output' houtput =>
                ih (stop - jump) (by omega) jump stop rfl _ _ _ _ hscope houtput

/-- Partials do the same in both runs, by induction on the nesting that is left. -/
theorem partial_same (hdata : SameData a b) (depth : ℕ) : PartialSame store a b depth := by
  induction hn : CEASY_VIEW_MAX_NESTING - depth generalizing depth with
  | zero =>
    intro path scope scope' output output' hscope houtput
    have hdepth : CEASY_VIEW_MAX_NESTING ≤ depth := by omega
    rw [viewRenderPartial, dif_pos hdepth, viewRenderPartial, dif_pos hdepth]
    exact ⟨rfl, houtput⟩
  | succ n ih =>
    intro path scope scope' output output' hscope houtput
    have hdepth : ¬ CEASY_VIEW_MAX_NESTING ≤ depth := by omega
    rw [viewRenderPartial, dif_neg hdepth, viewRenderPartial, dif_neg hdepth]
    dsimp only
    cases viewLoad store path with
    | missing => exact ⟨rfl, houtput⟩
    | error error => exact ⟨rfl, houtput⟩
    | found program =>
      exact range_same (loop_same hdata (ih (depth + 1) (by omega)) .none _ _) _ _ _ _ hscope
        houtput

end Runs

/-- Data that agrees in all but the contents of strings and integers succeeds or
    fails alike and puts the same markup into the output. -/
theorem viewRenderToString_markup (store : ViewStore) (a b : ViewData) (h : SameData a b)
    (path output : Bytes) :
    (viewRenderToString ⟨a, store⟩ path output).error =
        (viewRenderToString ⟨b, store⟩ path output).error ∧
      markup (viewRenderToString ⟨a, store⟩ path output).output =
        markup (viewRenderToString ⟨b, store⟩ path output).output := by
  have hsame : SameRendered (viewRenderToString ⟨a, store⟩ path output)
      (viewRenderToString ⟨b, store⟩ path output) := by
    unfold viewRenderToString
    dsimp only
    cases viewLoad store path with
    | missing => exact ⟨rfl, rfl⟩
    | error error => exact ⟨rfl, rfl⟩
    | found program =>
      exact range_same (loop_same h (partial_same h 0) .none _ _) _ _ _ _ .none rfl
  exact ⟨hsame.error, hsame.output⟩

/-- Data that holds one string under the name `t`. -/
theorem exists_singleton (value : Bytes) :
    ∃ data : ViewData, ∀ name, viewGet data name =
      if name = sv "t" then some (.string value) else none := by
  obtain ⟨out, -, hspec⟩ := stringMapSetInternal_spec allocatorGrants [] invariant_init (sv "t")
    ⟨.object (some (ViewValue.string value)) sizeofViewValue, none, false⟩ true
  have hlimit : ¬ AtLimit (smInit : StringMap ViewValue) := by
    rw [AtLimit, smInit, capacity]
    decide
  obtain ⟨-, hcontents⟩ := setSpec_grants hspec rfl hlimit
  refine ⟨⟨out.map⟩, fun name => ?_⟩
  rw [viewGet, smGetObjectConst_eq hspec.invariant, hcontents]
  by_cases hname : name = sv "t"
  · rw [hname, Function.update_self, if_pos (by decide), if_pos rfl]
    rfl
  · rw [Function.update_of_ne hname, if_neg hname, mapContents_zero rfl]
    split_ifs <;> rfl

/-- A store whose only view shows the value of `t`. -/
def variableStore : ViewStore where
  root := some (sv "/srv")
  file _ := .missing
  bundle := [⟨sv "v", [], [⟨.instructionVariable, sv "t", 0⟩]⟩]

/-- A string made of markup and one without. -/
theorem viewRenderToString_markup_strings :
    ∃ a b : ViewData, viewGet a (sv "t") = some (.string (sv "<b>")) ∧
      viewGet b (sv "t") = some (.string (sv "x")) ∧
      markup (viewRenderToString ⟨a, variableStore⟩ (sv "v") []).output =
        markup (viewRenderToString ⟨b, variableStore⟩ (sv "v") []).output := by
  obtain ⟨a, ha⟩ := exists_singleton (sv "<b>")
  obtain ⟨b, hb⟩ := exists_singleton (sv "x")
  have hsame : SameData a b := fun name => by
    rw [ha, hb]
    split_ifs
    · exact .some (.scalar (.string (by decide)))
    · exact .none
  exact ⟨a, b, by rw [ha, if_pos rfl], by rw [hb, if_pos rfl],
    (viewRenderToString_markup variableStore a b hsame (sv "v") []).2⟩

end Ceasy.ViewMarkup
