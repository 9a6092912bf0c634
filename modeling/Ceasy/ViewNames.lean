import Ceasy.StringMapOperations
import Ceasy.ViewTree

set_option autoImplicit false

/-!
# Names that are set and names that are rendered

A name is checked when it is set, checked again as a template expression and taken apart at its
first dot when it is resolved. The three agree on names without a dot, but for the layout tag.
-/
namespace Ceasy.ViewNames
open StringView Allocator Collection TemplateParse TemplateGrammar View ViewTree Occurrence

inductive ScalarValue where
  | string (value : Bytes)
  | int64 (value : Int64)
  | bool (value : Bool)

def ScalarValue.toValue : ScalarValue → ViewValue
  | .string value => .string value
  | .int64 value => .int64 value
  | .bool value => .bool value

def ScalarValue.text : ScalarValue → Bytes
  | .string value => value.flatMap htmlEscape
  | .int64 value => signedDecimal value.toInt
  | .bool value => if value then sv "true" else sv "false"

theorem ScalarValue.valueText_eq (value : ScalarValue) : valueText value.toValue = some value.text := by
  cases value <;> rfl

/-- Calls of `view_set`, one after the other; each may return true or false. -/
def viewSetAll (allocator : AllocatorAllocFn) :
    List (Bytes × ViewValue) → ViewData → Ledger → Option (ViewData × Ledger)
  | [], data, ledger => some (data, ledger)
  | (name, value) :: calls, data, ledger =>
    match viewSet allocator data ledger name value with
    | none => none
    | some out => viewSetAll allocator calls ⟨out.map⟩ out.ledger

def expressionTemplate (name : Bytes) : Bytes := tagOpening ++ name ++ tagClosing

/-- The template `\x7b\x7bname\x7d\x7d` renders a text wherever it stands outside any section. -/
def Renders (context : Context) (name text : Bytes) : Prop :=
  ∀ sourceName output yieldHtml allowYield depth, depth ≤ CEASY_VIEW_MAX_NESTING →
    (templateParse (expressionTemplate name) sourceName).ok = true ∧
    viewRenderProgram context (templateParse (expressionTemplate name) sourceName).program 0
      (templateParse (expressionTemplate name) sourceName).program.instructions.length none output
      yieldHtml allowYield depth = ⟨output ++ text, none⟩

variable {allocator : AllocatorAllocFn} {data : ViewData} {ledger : Ledger} {name : Bytes} {value : ViewValue}

/-- View data before the first call of `view_set`, or as calls leave it. -/
def Reached (data : ViewData) : Prop := data.values = {} ∨ Invariant data.values

theorem mapContents_uninitialized : mapContents ({} : StringMap ViewValue) = fun _ => none :=
  mapContents_zero rfl

theorem reached_map (h : Reached data) :
    Invariant (if data.values.initialized then data.values else smInit) ∧
      mapContents (if data.values.initialized then data.values else smInit) = mapContents data.values := by
  rcases h with hempty | hinvariant
  · rw [hempty]
    exact ⟨invariant_init, rfl⟩
  · rw [hinvariant.initialized, if_pos rfl]
    exact ⟨hinvariant, rfl⟩

theorem smObject_data {map : StringMap ViewValue} {size : ℕ}
    (h : stringMapValueInvalid (smObject allocator map ledger (some value) size).1 = false) :
    (smObject allocator map ledger (some value) size).1.data = .object (some value) size := by
  unfold smObject at h ⊢
  split_ifs at h ⊢
  · cases h
  · cases hcopy : stringMapCopyBytes allocator ledger size with
    | mk block later =>
      rw [hcopy] at h
      cases block with
      | none => cases h
      | some block => rfl

/-- What a call of `view_set` does. -/
structure Sets (data : ViewData) (name : Bytes) (value : ViewValue) (out : Outcome ViewValue) : Prop where
  reached : Reached ⟨out.map⟩
  done : out.ok = true → viewNameValid name = true ∧ mapContents out.map =
    Function.update (mapContents data.values) name (some (.object (some value) sizeofViewValue))
  refused : out.ok = false → mapContents out.map = mapContents data.values

theorem viewSet_sets (h : Reached data) :
    ∃ out, viewSet allocator data ledger name value = some out ∧ Sets data name value out := by
  unfold viewSet
  by_cases hname : viewNameValid name = true
  · rw [hname, Bool.not_true, if_neg Bool.false_ne_true]
    obtain ⟨hinvariant, hcontents⟩ := reached_map h
    dsimp only
    generalize (if data.values.initialized then data.values else smInit) = map at hinvariant hcontents ⊢
    obtain ⟨out, hout, hspec⟩ := stringMapSetInternal_spec allocator
      (smObject allocator map ledger (some value) sizeofViewValue).2 hinvariant name
      (smObject allocator map ledger (some value) sizeofViewValue).1 true
    refine ⟨out, hout, .inr hspec.invariant, fun hok => ?_, fun hok => ?_⟩
    · obtain ⟨hvalid, hupdate⟩ := hspec.done hok
      rw [hupdate, hcontents, smObject_data hvalid]
      exact ⟨hname, rfl⟩
    · rw [(hspec.refused hok).1, hcontents]
  · rw [Bool.not_eq_true] at hname
    rw [hname, Bool.not_false, if_pos rfl]
    exact ⟨_, rfl, h, fun hok => (Bool.false_ne_true hok).elim, fun _ => rfl⟩

theorem viewGet_contents (h : Reached data) (hname : viewNameValid name = true)
    (hcontents : mapContents data.values name = some (.object (some value) sizeofViewValue)) :
    viewGet data name = some value := by
  rw [viewGet, if_pos hname]
  rcases h with hempty | hinvariant
  · rw [hempty, mapContents_uninitialized] at hcontents
    cases hcontents
  · rw [smGetObjectConst_eq hinvariant, hcontents]
    exact if_pos rfl

theorem viewSetAll_reached {calls : List (Bytes × ViewValue)} {last : ViewData} {later : Ledger}
    (h : Reached data) (hcalls : viewSetAll allocator calls data ledger = some (last, later)) :
    Reached last ∧ ∀ name, (∀ call ∈ calls, call.1 ≠ name) →
      mapContents last.values name = mapContents data.values name := by
  induction calls generalizing data ledger with
  | nil =>
    obtain ⟨rfl, rfl⟩ := Prod.mk.inj (Option.some.inj hcalls)
    exact ⟨h, fun _ _ => rfl⟩
  | cons call calls ih =>
    obtain ⟨out, hout, hsets⟩ := @viewSet_sets allocator data ledger call.1 call.2 h
    rw [viewSetAll, hout] at hcalls
    obtain ⟨hlast, hsame⟩ := ih hsets.reached hcalls
    refine ⟨hlast, fun name hother => ?_⟩
    rw [List.forall_mem_cons] at hother
    rw [hsame name hother.2]
    cases hok : out.ok with
    | false => rw [hsets.refused hok]
    | true =>
      rw [(hsets.done hok).2]
      exact Function.update_of_ne (Ne.symm hother.1) ..

/-- A name that has been set is found, whatever is set under other names. -/
theorem viewSet_found {out : Outcome ViewValue} {calls : List (Bytes × ViewValue)} {last : ViewData}
    {later : Ledger} (h : Reached data) (hset : viewSet allocator data ledger name value = some out)
    (hok : out.ok = true) (hcalls : viewSetAll allocator calls ⟨out.map⟩ out.ledger = some (last, later))
    (hother : ∀ call ∈ calls, call.1 ≠ name) : viewGet last name = some value := by
  obtain ⟨out', hout, hsets⟩ := @viewSet_sets allocator data ledger name value h
  obtain rfl := Option.some.inj (hout.symm.trans hset)
  obtain ⟨hname, hcontents⟩ := hsets.done hok
  obtain ⟨hlast, hsame⟩ := viewSetAll_reached hsets.reached hcalls
  refine viewGet_contents hlast hname ?_
  rw [hsame name hother, hcontents]
  exact Function.update_self ..

theorem nameChar_space : ∀ c : UInt8, (asciiLetter c || asciiDigit c || c == ch '_' || c == ch '.') = true →
    stringvAsciiSpace c = false := by
  decide +kernel

/-- The characters of a name are neither braces nor blanks, and none of them marks a tag. -/
theorem viewNameValid_char (h : viewNameValid name = true) {c : UInt8} (hc : c ∈ name) :
    c ≠ ch '\x7d' ∧ stringvAsciiSpace c = false ∧ c ≠ ch '#' ∧ c ≠ ch '^' ∧ c ≠ ch '/' ∧ c ≠ ch '>' := by
  rw [viewNameValid, Bool.and_eq_true, List.all_eq_true] at h
  have hchar := h.2 c hc
  refine ⟨?_, nameChar_space c hchar, ?_, ?_, ?_, ?_⟩ <;>
  · rintro rfl
    revert hchar
    decide

theorem viewNameValid_trim (h : viewNameValid name = true) : stringvTrim name = name := by
  have hspace : ∀ c ∈ name, stringvAsciiSpace c = false := fun c hc => (viewNameValid_char h hc).2.1
  have hleft : stringvTrimLeft name = name := by
    rw [stringvTrimLeft, List.dropWhile_eq_self_iff]
    intro hpos
    rw [hspace _ (List.getElem_mem hpos)]
    decide
  rw [stringvTrim, hleft, stringvTrimRight, List.rdropWhile_eq_self_iff]
  intro hne
  rw [hspace _ (List.getLast_mem hne)]
  decide

theorem viewNameValid_closing (h : viewNameValid name = true) :
    stringvFind (name ++ tagClosing) tagClosing = some name.length := by
  rw [stringvFind_some (by decide)]
  refine ⟨?_, fun j hj hocc => ?_⟩
  · have hsplit := occursAt_of_split name tagClosing []
    rwa [List.append_nil] at hsplit
  · have hfirst : (name ++ tagClosing)[j]? = some (ch '\x7d') := by
      have hprefix := List.prefix_iff_getElem?.mp hocc 0 (by decide)
      rw [List.getElem?_drop, Nat.add_zero] at hprefix
      exact hprefix
    rw [List.getElem?_append_left hj] at hfirst
    exact (viewNameValid_char h (List.mem_of_getElem? hfirst)).1 rfl

theorem templateScan_expression (h : viewNameValid name = true) :
    templateScan (expressionTemplate name) 0 {} =
      match templateTag {} name with
      | .error message => .error (0, message)
      | .ok state => .ok state := by
  have hlength : (expressionTemplate name).length = name.length + 4 := by
    rw [expressionTemplate, List.length_append, List.length_append]
    have hbraces : tagOpening.length = 2 ∧ tagClosing.length = 2 := ⟨rfl, rfl⟩
    omega
  have hopening : stringvFind (stringvFrom (expressionTemplate name) 0) tagOpening = some 0 := by
    rw [stringvFind_some (by decide)]
    refine ⟨?_, fun j hj => absurd hj (Nat.not_lt_zero j)⟩
    have hsplit := occursAt_of_split [] tagOpening (name ++ tagClosing)
    rwa [List.nil_append, ← List.append_assoc] at hsplit
  have hrest : stringvFrom (expressionTemplate name) 2 = name ++ tagClosing := by
    rw [stringvFrom, expressionTemplate, List.append_assoc]
    rfl
  have hslice : stringvSlice (expressionTemplate name) 2 name.length = name := by
    have hdrop : (expressionTemplate name).drop 2 = name ++ tagClosing := hrest
    rw [stringvSlice, hdrop, List.take_left]
  rw [templateScan, dif_pos (by omega), hopening]
  dsimp only
  rw [Nat.zero_add, hrest, viewNameValid_closing h]
  dsimp only
  have hclose : 2 + name.length - 0 - 2 = name.length := by omega
  rw [Nat.zero_add, hclose, hslice, viewNameValid_trim h]
  have htext : templateTextPush {} (stringvSlice (expressionTemplate name) 0 (0 - 0)) = {} := rfl
  rw [htext]
  cases templateTag {} name with
  | error message => rfl
  | ok state =>
    dsimp only
    rw [templateScan, dif_neg (by omega)]

theorem templateParse_variable (hname : viewNameValid name = true) (hpath : templateVariablePath name = true)
    (hyield : name ≠ sv "yield") (sourceName : Bytes) :
    templateParse (expressionTemplate name) sourceName =
      ⟨true, ⟨[⟨.instructionVariable, name, 0⟩], sourceName⟩, {}⟩ := by
  cases name with
  | nil => cases hpath
  | cons c rest =>
    obtain ⟨-, -, h1, h2, h3, h4⟩ := viewNameValid_char hname (List.mem_cons_self (a := c) (l := rest))
    rw [templateParse, templateScan_expression hname, templateTag_variablePath {} hyield h1 h2 h3 h4, if_pos hpath]
    rfl

theorem viewRenderProgram_variable {context : Context} {text : Bytes} (sourceName output : Bytes)
    (yieldHtml : Option Bytes) (allowYield : Bool) {depth : ℕ} (hdepth : depth ≤ CEASY_VIEW_MAX_NESTING) :
    viewRenderProgram context ⟨[⟨.instructionVariable, name, 0⟩], sourceName⟩ 0 1 none output yieldHtml
        allowYield depth = ⟨output ++ text, none⟩ ↔
      (viewResolve context.viewData name none).bind valueText = some text := by
  rw [viewRenderProgram, if_neg (by
    rintro (h | h | h)
    · omega
    · exact absurd h (Nat.lt_irrefl 1)
    · exact absurd h (Nat.not_lt_zero 1)), viewRenderLoop.eq_def, dif_pos Nat.one_pos]
  dsimp only [List.getElem?_cons_zero]
  cases viewResolve context.viewData name none with
  | none => exact iff_of_false (fun h => by cases congrArg Rendered.error h) fun h => by cases h
  | some value =>
    dsimp only
    rw [viewRenderValue_eq, Option.bind_some]
    cases valueText value with
    | none => exact iff_of_false (fun h => by cases congrArg Rendered.error h) fun h => by cases h
    | some rendered =>
      rw [Option.map_some]
      dsimp only
      rw [viewRenderLoop.eq_def, dif_neg (Nat.lt_irrefl 1), Rendered.mk.injEq, List.append_cancel_left_eq,
        and_iff_left rfl, Option.some.injEq]

/-- A name that is not the layout tag renders the text of what it is resolved to. -/
theorem renders_iff {context : Context} {text : Bytes} (hname : viewNameValid name = true)
    (hpath : templateVariablePath name = true) (hyield : name ≠ sv "yield") :
    Renders context name text ↔ (viewResolve context.viewData name none).bind valueText = some text := by
  constructor
  · intro h
    have hrendered := (h [] [] none false 0 (Nat.zero_le _)).2
    rw [templateParse_variable hname hpath hyield] at hrendered
    exact (viewRenderProgram_variable [] [] none false (Nat.zero_le _)).mp hrendered
  · intro h sourceName output yieldHtml allowYield depth hdepth
    rw [templateParse_variable hname hpath hyield]
    exact ⟨rfl, (viewRenderProgram_variable sourceName output yieldHtml allowYield hdepth).mpr h⟩

theorem renders_yield (context : Context) (text : Bytes) : ¬ Renders context (sv "yield") text := by
  intro h
  have hrendered := (h [] [] none false 0 (Nat.zero_le _)).2
  have hparse : templateParse (expressionTemplate (sv "yield")) [] =
      ⟨true, ⟨[⟨.instructionYield, [], 0⟩], []⟩, {}⟩ := by
    rw [templateParse, templateScan_expression (by decide), templateTag_yield]
    rfl
  rw [hparse, viewRenderProgram, if_neg (by decide), viewRenderLoop.eq_def, dif_pos (by decide)] at hrendered
  cases congrArg Rendered.error hrendered

theorem resolve_plain {data : ViewData} (h : ch '.' ∉ name) : viewResolve data name none = viewGet data name := by
  rw [viewResolve_eq, resolve, List.splitOn_eq_singleton h]
  rfl

theorem resolve_field {data : ViewData} {root field : Bytes} (hroot : ch '.' ∉ root) (hfield : ch '.' ∉ field)
    (hne : field ≠ []) :
    viewResolve data (root ++ ch '.' :: field) none =
      match viewGet data root with
      | some (.model model) => viewModelField model field
      | _ => none := by
  rw [viewResolve_eq, resolve, List.splitOn_append_cons_self_of_not_mem hroot, List.splitOn_eq_singleton hfield]
  dsimp only
  cases viewGet data root with
  | none => rfl
  | some value =>
    cases value with
    | model model => exact if_neg hne
    | empty => rfl
    | string value => rfl
    | int64 value => rfl
    | bool value => rfl
    | collection collection => rfl

theorem templateVariablePath_field {root field : Bytes} (h : templateVariablePath (root ++ ch '.' :: field) = true)
    (hroot : ch '.' ∉ root) (hfield : ch '.' ∉ field) : field ≠ [] := by
  rw [templateVariablePath_iff, DottedPath, List.splitOn_append_cons_self_of_not_mem hroot,
    List.splitOn_eq_singleton hfield] at h
  have hidentifier := h field (List.mem_cons_of_mem root List.mem_cons_self)
  rintro rfl
  cases hidentifier

/-- Whatever is set before, and whatever is set under other names afterwards, a name without a dot
renders its value, unless it is the layout tag. A name with one dot renders the field of the model
before the dot. -/
theorem viewSet_renders (allocator : AllocatorAllocFn) (ledger : Ledger) (store : ViewStore)
    {before after : List (Bytes × ViewValue)} {name : Bytes} {value : ScalarValue} {first last : ViewData}
    {out : Outcome ViewValue} {started later : Ledger}
    (hbefore : viewSetAll allocator before {} ledger = some (first, started))
    (hset : viewSet allocator first started name value.toValue = some out) (hok : out.ok = true)
    (hafter : viewSetAll allocator after ⟨out.map⟩ out.ledger = some (last, later))
    (hother : ∀ call ∈ after, call.1 ≠ name) (hpath : templateVariablePath name = true) :
    (ch '.' ∉ name → name ≠ sv "yield" → Renders ⟨last, store⟩ name value.text) ∧
    ∀ root field, name = root ++ ch '.' :: field → ch '.' ∉ root → ch '.' ∉ field → ∀ text,
      (Renders ⟨last, store⟩ name text ↔ ∃ model fieldValue, viewGet last root = some (.model model) ∧
        viewModelField model field = some fieldValue ∧ valueText fieldValue = some text) := by
  have hfirst := (viewSetAll_reached (.inl rfl) hbefore).1
  have hfound := viewSet_found hfirst hset hok hafter hother
  have hname : viewNameValid name = true := by
    obtain ⟨out', hout, hsets⟩ := @viewSet_sets allocator first started name value.toValue hfirst
    obtain rfl := Option.some.inj (hout.symm.trans hset)
    exact (hsets.done hok).1
  refine ⟨fun hplain hyield => ?_, ?_⟩
  · rw [renders_iff hname hpath hyield, resolve_plain hplain, hfound, Option.bind_some]
    exact value.valueText_eq
  · rintro root field rfl hroot hfield text
    have hyield : root ++ ch '.' :: field ≠ sv "yield" := by
      intro hyield
      have hdot : ch '.' ∈ sv "yield" := by
        rw [← hyield]
        exact List.mem_append_right root List.mem_cons_self
      revert hdot
      decide
    rw [renders_iff hname hpath hyield, resolve_field hroot hfield (templateVariablePath_field hpath hroot hfield)]
    constructor
    · intro h
      cases hroot : viewGet last root with
      | none =>
        rw [hroot] at h
        cases h
      | some stored =>
        rw [hroot] at h
        cases stored with
        | model model =>
          obtain ⟨fieldValue, hvalue, htext⟩ := Option.bind_eq_some_iff.mp h
          exact ⟨model, fieldValue, rfl, hvalue, htext⟩
        | empty => cases h
        | string text => cases h
        | int64 number => cases h
        | bool boolean => cases h
        | collection collection => cases h
    · rintro ⟨model, fieldValue, hmodel, hvalue, htext⟩
      rw [hmodel]
      exact Option.bind_eq_some_iff.mpr ⟨fieldValue, hvalue, htext⟩

def emptyStore : ViewStore := ⟨none, fun _ => .missing, []⟩

/-- A title is set between two other names. -/
theorem viewSet_renders_title :
    ∃ first started out last later,
      viewSetAll (fun _ _ => true) [(sv "a", .bool true)] {} [] = some (first, started) ∧
      viewSet (fun _ _ => true) first started (sv "title") (.string (sv "R&D")) = some out ∧
      viewSetAll (fun _ _ => true) [(sv "b", .int64 1)] ⟨out.map⟩ out.ledger = some (last, later) ∧
      Renders ⟨last, emptyStore⟩ (sv "title") (sv "R&amp;D") := by
  refine ⟨_, _, _, _, _, rfl, rfl, rfl, ?_⟩
  exact (@viewSet_renders (fun _ _ => true) [] emptyStore [(sv "a", .bool true)] [(sv "b", .int64 1)] (sv "title")
    (.string (sv "R&D")) _ _ _ _ _ rfl rfl rfl rfl (by decide) (by cbv)).1 (by decide) (by decide)

/-- A name with a dot can be set and so can the layout tag, and neither is rendered. -/
theorem viewSet_unrendered :
    (∃ out, viewSet (fun _ _ => true) {} [] (sv "user.name") (.string (sv "ann")) = some out ∧ out.ok = true ∧
      templateVariablePath (sv "user.name") = true ∧
      ¬ Renders ⟨⟨out.map⟩, emptyStore⟩ (sv "user.name") (sv "ann")) ∧
    ∃ out, viewSet (fun _ _ => true) {} [] (sv "yield") (.string (sv "ann")) = some out ∧ out.ok = true ∧
      templateVariablePath (sv "yield") = true ∧ ¬ Renders ⟨⟨out.map⟩, emptyStore⟩ (sv "yield") (sv "ann") := by
  refine ⟨⟨_, rfl, rfl, by cbv, fun h => ?_⟩, ⟨_, rfl, rfl, by cbv, renders_yield _ _⟩⟩
  rw [renders_iff (by decide) (by cbv) (by decide)] at h
  cases h

end Ceasy.ViewNames
