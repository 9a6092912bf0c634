import Ceasy.View

set_option autoImplicit false

/-!
# Rendering, step by step

The calls that rendering has under way, as a stack: a loop over instructions, a loop over the
items of a collection, and a layout that waits for its body. A step is one turn of a loop or one
return. The calls can nest as the files and the jumps like, and yet every run comes to its end.
-/
namespace Ceasy.RenderMachine
open StringView TemplateParse View

inductive Frame where
  | program (program : TemplateProgram) (index stop : ℕ) (scope : Option ViewScope)
    (yieldHtml : Option Bytes) (allowYield : Bool) (depth : ℕ)
  | items (program : TemplateProgram) (items : Record) (definition : ModelDefinition)
    (itemIndex length start stop : ℕ) (yieldHtml : Option Bytes) (allowYield : Bool) (depth : ℕ)
  | layout (output : Bytes)

/-- A call has `returned`, `running` calls go on, and `failing` ones return false. -/
inductive Machine where
  | running (calls : List Frame) (output : Bytes)
  | failing (calls : List Frame) (output : Bytes) (error : ViewError)
  | returned (result : Rendered)

/-- A call of `view_render_program`. -/
def enterProgram (program : TemplateProgram) (start stop : ℕ) (scope : Option ViewScope)
    (yieldHtml : Option Bytes) (allowYield : Bool) (depth : ℕ) (calls : List Frame)
    (output : Bytes) : Machine :=
  if CEASY_VIEW_MAX_NESTING < depth ∨ program.instructions.length < stop ∨ stop < start then
    .failing calls output .invalidProgram
  else .running (.program program start stop scope yieldHtml allowYield depth :: calls) output

/-- A call of `view_render_partial`, which returns what its program returns. -/
def enterPartial (context : Context) (path : Bytes) (scope : Option ViewScope) (depth : ℕ)
    (calls : List Frame) (output : Bytes) : Machine :=
  if CEASY_VIEW_MAX_NESTING ≤ depth then .failing calls output .nestingExceeded
  else
    match viewLoad context.store path with
    | .missing => .failing calls output (.viewNotFound path)
    | .error error => .failing calls output error
    | .found program =>
      enterProgram program 0 program.instructions.length scope none false (depth + 1) calls output

def enterCollection (program : TemplateProgram) (collection : ViewCollection) (start stop : ℕ)
    (yieldHtml : Option Bytes) (allowYield : Bool) (depth : ℕ) (calls : List Frame)
    (output : Bytes) : Machine :=
  match collection.definition, collection.items with
  | some definition, some items =>
    if definition.size = 0 then .failing calls output .invalidCollection
    else
      .running (.items program items definition 0 collection.length start stop yieldHtml allowYield
        depth :: calls) output
  | some definition, none =>
    if definition.size = 0 ∨ 0 < collection.length then .failing calls output .invalidCollection
    else .running calls output
  | none, _ => .failing calls output .invalidCollection

/-- One turn of the loop of `view_render_program`. -/
def stepInstruction (context : Context) (program : TemplateProgram) (index stop : ℕ)
    (scope : Option ViewScope) (yieldHtml : Option Bytes) (allowYield : Bool) (depth : ℕ)
    (calls : List Frame) (output : Bytes) (instruction : TemplateInstruction) : Machine :=
  let resume (index : ℕ) : List Frame :=
    .program program index stop scope yieldHtml allowYield depth :: calls
  match instruction.type with
  | .instructionText => .running (resume (index + 1)) (output ++ instruction.value)
  | .instructionVariable =>
    match viewResolve context.viewData instruction.value scope with
    | none => .failing calls output (.unknownValue instruction.value)
    | some value =>
      match viewRenderValue output value with
      | none => .failing calls output .notRenderable
      | some output => .running (resume (index + 1)) output
  | .instructionPartial =>
    enterPartial context instruction.value scope depth (resume (index + 1)) output
  | .instructionYield =>
    match yieldHtml with
    | none => .failing calls output .yieldOutsideLayout
    | some html =>
      if !allowYield then .failing calls output .yieldOutsideLayout
      else .running (resume (index + 1)) (output ++ html)
  | type =>
    match viewResolve context.viewData instruction.value scope with
    | none => .failing calls output (.unknownValue instruction.value)
    | some value =>
      let inverse := type == .instructionInverseSection
      if instruction.jump < index + 1 ∨ stop < instruction.jump then
        .failing calls output .invalidJump
      else if viewTruthy value == inverse then .running (resume instruction.jump) output
      else
        match value, inverse with
        | .collection collection, false =>
          enterCollection program collection (index + 1) instruction.jump yieldHtml allowYield depth
            (resume instruction.jump) output
        | _, _ =>
          enterProgram program (index + 1) instruction.jump scope yieldHtml allowYield depth
            (resume instruction.jump) output

def machineStep (context : Context) : Machine → Machine
  | .running [] output => .returned ⟨output, none⟩
  | .running (.program program index stop scope yieldHtml allowYield depth :: calls) output =>
    if index < stop then
      match program.instructions[index]? with
      | none => .failing calls output .invalidProgram
      | some instruction =>
        stepInstruction context program index stop scope yieldHtml allowYield depth calls output
          instruction
    else .running calls output
  | .running (.items program items definition itemIndex length start stop yieldHtml allowYield depth ::
      calls) output =>
    if itemIndex < length then
      if SIZE_MAX / definition.size < itemIndex then .failing calls output .invalidCollectionSize
      else
        enterProgram program start stop (some (itemScope items definition itemIndex)) yieldHtml
          allowYield depth (.items program items definition (itemIndex + 1) length start stop yieldHtml
            allowYield depth :: calls) output
    else .running calls output
  | .running (.layout output :: calls) body =>
    match viewLoad context.store layoutPath with
    | .missing => .running calls (output ++ body)
    | .error error => .failing calls output error
    | .found program =>
      enterProgram program 0 program.instructions.length none (stringAsView body) true 0 calls output
  | .failing [] output error => .returned ⟨output, some error⟩
  | .failing (.layout output :: calls) _ error => .failing calls output error
  | .failing (_ :: calls) output error => .failing calls output error
  | .returned result => .returned result

/-- A call of `view_render_to_string`. -/
def enterToString (context : Context) (path output : Bytes) : Machine :=
  match viewLoad context.store path with
  | .missing => .failing [] output (.viewNotFound path)
  | .error error => .failing [] output error
  | .found program =>
    enterProgram program 0 program.instructions.length none none false 0 [] output

/-- A call of `view_render_with_layout`; the body is rendered to a string of its own. -/
def enterWithLayout (context : Context) (path output : Bytes) : Machine :=
  match viewLoad context.store path with
  | .missing => .failing [] output (.viewNotFound path)
  | .error error => .failing [] output error
  | .found program =>
    enterProgram program 0 program.instructions.length none none false 0 [.layout output] []

def Reaches (context : Context) (machine later : Machine) : Prop :=
  ∃ steps, (machineStep context)^[steps] machine = later

def hand (calls : List Frame) (rendered : Rendered) : Machine :=
  match rendered.error with
  | none => .running calls rendered.output
  | some error => .failing calls rendered.output error

section Reaching

variable {context : Context} {machine middle later : Machine} {calls : List Frame} {output : Bytes}

theorem Reaches.refl (context : Context) (machine : Machine) : Reaches context machine machine := ⟨0, rfl⟩

theorem Reaches.trans (first : Reaches context machine middle) (second : Reaches context middle later) :
    Reaches context machine later := by
  obtain ⟨n, rfl⟩ := first
  obtain ⟨m, rfl⟩ := second
  exact ⟨m + n, Function.iterate_add_apply _ m n machine⟩

theorem Reaches.step (h : Reaches context (machineStep context machine) later) :
    Reaches context machine later := by
  obtain ⟨n, rfl⟩ := h
  exact ⟨n + 1, rfl⟩

theorem Reaches.fails {frame : Frame} {error : ViewError} (hframe : ∀ saved, frame ≠ .layout saved)
    (h : Reaches context machine (.failing (frame :: calls) output error)) :
    Reaches context machine (.failing calls output error) := by
  refine h.trans ⟨1, ?_⟩
  cases frame with
  | layout saved => exact absurd rfl (hframe saved)
  | _ => rfl

/-- A call goes on with what a call above it has rendered, or fails with it. -/
theorem Reaches.next {frame : Frame} {rendered : Rendered} (continued : Bytes → Rendered)
    (hframe : ∀ saved, frame ≠ .layout saved)
    (h : Reaches context machine (hand (frame :: calls) rendered))
    (hnext : ∀ output, Reaches context (.running (frame :: calls) output)
      (hand calls (continued output))) :
    Reaches context machine
      (hand calls (if rendered.error.isSome then rendered else continued rendered.output)) := by
  obtain ⟨output, error⟩ := rendered
  cases error with
  | none => exact h.trans (hnext output)
  | some error => exact h.fails hframe

end Reaching

def PartialReaches (context : Context) (depth : ℕ) : Prop :=
  ∀ path scope output calls, Reaches context (enterPartial context path scope depth calls output)
    (hand calls (viewRenderPartial context path scope output depth))

def RangeReaches (context : Context) (program : TemplateProgram) (start stop : ℕ)
    (yieldHtml : Option Bytes) (allowYield : Bool) (depth : ℕ) : Prop :=
  ∀ scope output calls, Reaches context
    (enterProgram program start stop scope yieldHtml allowYield depth calls output)
    (hand calls (viewRenderProgram context program start stop scope output yieldHtml allowYield depth))

def LoopReaches (context : Context) (program : TemplateProgram) (index stop : ℕ)
    (yieldHtml : Option Bytes) (allowYield : Bool) (depth : ℕ) : Prop :=
  ∀ scope output calls, Reaches context
    (.running (.program program index stop scope yieldHtml allowYield depth :: calls) output)
    (hand calls (viewRenderLoop context program index stop scope output yieldHtml allowYield depth))

section Calls

variable {context : Context} {program : TemplateProgram} {index start stop jump depth : ℕ}
  {yieldHtml : Option Bytes} {allowYield : Bool}

theorem LoopReaches.range (h : LoopReaches context program start stop yieldHtml allowYield depth) :
    RangeReaches context program start stop yieldHtml allowYield depth := by
  intro scope output calls
  rw [viewRenderProgram, enterProgram]
  split_ifs
  · exact .refl _ _
  · exact h scope output calls

theorem LoopReaches.next (hloop : LoopReaches context program index stop yieldHtml allowYield depth)
    {scope : Option ViewScope} {machine : Machine} {calls : List Frame} {rendered : Rendered}
    (h : Reaches context machine
      (hand (.program program index stop scope yieldHtml allowYield depth :: calls) rendered)) :
    Reaches context machine (hand calls (if rendered.error.isSome then rendered
      else viewRenderLoop context program index stop scope rendered.output yieldHtml allowYield depth)) :=
  h.next (viewRenderLoop context program index stop scope · yieldHtml allowYield depth)
    (by rintro _ ⟨⟩) fun output => hloop scope output calls

theorem items_reaches (h : RangeReaches context program start stop yieldHtml allowYield depth)
    (items : Record) (definition : ModelDefinition) (itemIndex remaining : ℕ) (output : Bytes)
    (calls : List Frame) :
    Reaches context
      (.running (.items program items definition itemIndex (itemIndex + remaining) start stop yieldHtml
        allowYield depth :: calls) output)
      (hand calls (viewRenderItems context program items definition itemIndex remaining start stop
        output yieldHtml allowYield depth)) := by
  induction remaining generalizing itemIndex output with
  | zero =>
    apply Reaches.step
    rw [viewRenderItems, machineStep, if_neg (by omega)]
    exact .refl _ _
  | succ remaining ih =>
    apply Reaches.step
    rw [viewRenderItems, machineStep, if_pos (by omega)]
    split_ifs with hsize
    · exact .refl _ _
    · have hlength : itemIndex + (remaining + 1) = itemIndex + 1 + remaining := by omega
      rw [hlength]
      exact (h _ output _).next (viewRenderItems context program items definition (itemIndex + 1)
        remaining start stop · yieldHtml allowYield depth) (by rintro _ ⟨⟩) (ih (itemIndex + 1))

theorem collection_reaches (h : RangeReaches context program start stop yieldHtml allowYield depth)
    (collection : ViewCollection) (output : Bytes) (calls : List Frame) :
    Reaches context
      (enterCollection program collection start stop yieldHtml allowYield depth calls output)
      (hand calls (viewRenderCollection context program collection start stop output yieldHtml
        allowYield depth)) := by
  rw [viewRenderCollection.eq_def, enterCollection]
  cases collection.definition with
  | none => exact .refl _ _
  | some definition =>
    cases collection.items with
    | none =>
      dsimp only
      split_ifs <;> exact .refl _ _
    | some items =>
      dsimp only
      split_ifs
      · exact .refl _ _
      · have hitems := items_reaches h items definition 0 collection.length output calls
        rwa [Nat.zero_add] at hitems

/-- A section's body is rendered, for every item or once, and the loop goes on at the jump. -/
theorem section_reaches {scope : Option ViewScope} {resume calls : List Frame}
    (hresume : resume = .program program jump stop scope yieldHtml allowYield depth :: calls)
    (hrange : RangeReaches context program start jump yieldHtml allowYield depth)
    (hjump : LoopReaches context program jump stop yieldHtml allowYield depth)
    (inverse : Bool) (value : ViewValue) (output : Bytes) :
    Reaches context
      (match value, inverse with
        | .collection collection, false =>
          enterCollection program collection start jump yieldHtml allowYield depth resume output
        | _, _ => enterProgram program start jump scope yieldHtml allowYield depth resume output)
      (hand calls
        (let rendered :=
          match value, inverse with
          | .collection collection, false =>
            viewRenderCollection context program collection start jump output yieldHtml allowYield depth
          | _, _ =>
            viewRenderProgram context program start jump scope output yieldHtml allowYield depth
        if rendered.error.isSome then rendered
        else viewRenderLoop context program jump stop scope rendered.output yieldHtml allowYield depth)) := by
  subst hresume
  have honce := hrange scope output
    (.program program jump stop scope yieldHtml allowYield depth :: calls)
  cases value with
  | collection collection =>
    cases inverse with
    | false => exact hjump.next (collection_reaches hrange collection output _)
    | true => exact hjump.next honce
  | _ => exact hjump.next honce

/-- A turn of the loop, where the turns after it and the calls in it come to what they should. -/
theorem instruction_reaches (hpartials : PartialReaches context depth) (hindex : index < stop)
    (hrange : ∀ jump ≤ stop, RangeReaches context program (index + 1) jump yieldHtml allowYield depth)
    (hjump : ∀ jump, index + 1 ≤ jump → LoopReaches context program jump stop yieldHtml allowYield depth) :
    LoopReaches context program index stop yieldHtml allowYield depth := by
  intro scope output calls
  have hnext := hjump (index + 1) (Nat.le_refl _)
  apply Reaches.step
  rw [machineStep, if_pos hindex, viewRenderLoop.eq_def, dif_pos hindex]
  cases hinstruction : program.instructions[index]? with
  | none => exact .refl _ _
  | some instruction =>
    obtain ⟨type, value, jump⟩ := instruction
    have hsection : ∀ inverse : Bool, Reaches context
        (match viewResolve context.viewData value scope with
          | none => .failing calls output (.unknownValue value)
          | some resolved =>
            if jump < index + 1 ∨ stop < jump then .failing calls output .invalidJump
            else if viewTruthy resolved == inverse then
              .running (.program program jump stop scope yieldHtml allowYield depth :: calls) output
            else
              match resolved, inverse with
              | .collection collection, false =>
                enterCollection program collection (index + 1) jump yieldHtml allowYield depth
                  (.program program jump stop scope yieldHtml allowYield depth :: calls) output
              | _, _ =>
                enterProgram program (index + 1) jump scope yieldHtml allowYield depth
                  (.program program jump stop scope yieldHtml allowYield depth :: calls) output)
        (hand calls
          (match viewResolve context.viewData value scope with
            | none => ⟨output, some (.unknownValue value)⟩
            | some resolved =>
              if _hjump : jump < index + 1 ∨ stop < jump then ⟨output, some .invalidJump⟩
              else
                let rendered :=
                  if viewTruthy resolved == inverse then ⟨output, none⟩
                  else
                    match resolved, inverse with
                    | .collection collection, false =>
                      viewRenderCollection context program collection (index + 1) jump output yieldHtml
                        allowYield depth
                    | _, _ =>
                      viewRenderProgram context program (index + 1) jump scope output yieldHtml
                        allowYield depth
                if rendered.error.isSome then rendered
                else
                  viewRenderLoop context program jump stop scope rendered.output yieldHtml allowYield
                    depth)) := by
      intro inverse
      cases viewResolve context.viewData value scope with
      | none => exact .refl _ _
      | some resolved =>
        dsimp only
        by_cases hbounds : jump < index + 1 ∨ stop < jump
        · rw [if_pos hbounds, dif_pos hbounds]
          exact .refl _ _
        · rw [if_neg hbounds, dif_neg hbounds]
          by_cases hpassed : (viewTruthy resolved == inverse) = true
          · rw [if_pos hpassed, if_pos hpassed]
            exact hjump jump (by omega) scope output calls
          · rw [if_neg hpassed, if_neg hpassed]
            exact section_reaches rfl (hrange jump (by omega)) (hjump jump (by omega)) inverse resolved
              output
    cases type with
    | instructionText => exact hnext _ _ _
    | instructionVariable =>
      dsimp only [stepInstruction]
      cases viewResolve context.viewData value scope with
      | none => exact .refl _ _
      | some resolved =>
        dsimp only
        cases viewRenderValue output resolved with
        | none => exact .refl _ _
        | some output => exact hnext scope output calls
    | instructionPartial =>
      exact hnext.next (hpartials value scope output _)
    | instructionYield =>
      dsimp only [stepInstruction]
      cases yieldHtml with
      | none => exact .refl _ _
      | some html =>
        cases allowYield with
        | false => exact .refl _ _
        | true => exact hnext _ _ _
    | instructionSection => exact hsection false
    | instructionInverseSection => exact hsection true

/-- The loop ends: a turn of it leaves less of the range, and so does a section's body. -/
theorem loop_reaches (hpartials : PartialReaches context depth) (index stop : ℕ) :
    LoopReaches context program index stop yieldHtml allowYield depth := by
  by_cases hindex : index < stop
  · exact instruction_reaches hpartials hindex
      (fun jump _ => (loop_reaches hpartials (index + 1) jump).range)
      (fun jump _ => loop_reaches hpartials jump stop)
  · intro scope output calls
    apply Reaches.step
    rw [machineStep, if_neg hindex, viewRenderLoop.eq_def, dif_neg hindex]
    exact .refl _ _
termination_by stop - index

theorem partial_reaches (context : Context) (depth : ℕ) : PartialReaches context depth := by
  intro path scope output calls
  rw [viewRenderPartial, enterPartial]
  split_ifs with hdepth
  · exact .refl _ _
  · cases viewLoad context.store path with
    | missing => exact .refl _ _
    | error error => exact .refl _ _
    | found program =>
      exact (loop_reaches (partial_reaches context (depth + 1)) 0 _).range scope output calls
termination_by CEASY_VIEW_MAX_NESTING - depth

theorem program_reaches (context : Context) (program : TemplateProgram) (start stop : ℕ)
    (yieldHtml : Option Bytes) (allowYield : Bool) (depth : ℕ) :
    RangeReaches context program start stop yieldHtml allowYield depth :=
  (loop_reaches (partial_reaches context depth) start stop).range

end Calls

section Whole

variable {context : Context} {path output : Bytes}

theorem hand_returned (rendered : Rendered) : Reaches context (hand [] rendered) (.returned rendered) := by
  obtain ⟨output, error⟩ := rendered
  cases error with
  | none => exact ⟨1, rfl⟩
  | some error => exact ⟨1, rfl⟩

theorem toString_returns (context : Context) (path output : Bytes) :
    Reaches context (enterToString context path output)
      (.returned (viewRenderToString context path output)) := by
  unfold enterToString viewRenderToString
  cases viewLoad context.store path with
  | missing => exact hand_returned ⟨output, some (.viewNotFound path)⟩
  | error error => exact hand_returned ⟨output, some error⟩
  | found program =>
    exact (program_reaches context program 0 _ none false 0 none output []).trans (hand_returned _)

theorem withLayout_returns (context : Context) (path output : Bytes) :
    Reaches context (enterWithLayout context path output)
      (.returned (viewRenderWithLayout context path output)) := by
  unfold enterWithLayout viewRenderWithLayout
  cases viewLoad context.store path with
  | missing => exact hand_returned ⟨output, some (.viewNotFound path)⟩
  | error error => exact hand_returned ⟨output, some error⟩
  | found program =>
    refine (program_reaches context program 0 _ none false 0 none [] [.layout output]).trans ?_
    dsimp only
    cases hbody : viewRenderProgram context program 0 program.instructions.length none [] none false 0 with
    | mk body error =>
      cases error with
      | some error => exact Reaches.step (hand_returned ⟨output, some error⟩)
      | none =>
        apply Reaches.step
        change Reaches context (match viewLoad context.store layoutPath with
          | .missing => .running [] (output ++ body)
          | .error error => .failing [] output error
          | .found program => enterProgram program 0 program.instructions.length none
              (stringAsView body) true 0 [] output) _
        cases viewLoad context.store layoutPath with
        | missing => exact hand_returned ⟨output ++ body, none⟩
        | error error => exact hand_returned ⟨output, some error⟩
        | found layout =>
          exact (program_reaches context layout 0 _ (stringAsView body) true 0 none output []).trans
            (hand_returned _)

theorem failing_returns (calls : List Frame) (output : Bytes) (error : ViewError) :
    ∃ last, Reaches context (.failing calls output error) (.returned ⟨last, some error⟩) := by
  induction calls generalizing output with
  | nil => exact ⟨output, 1, rfl⟩
  | cons frame calls ih =>
    cases frame with
    | layout saved =>
      obtain ⟨last, hlast⟩ := ih saved
      exact ⟨last, hlast.step⟩
    | _ =>
      obtain ⟨last, hlast⟩ := ih output
      exact ⟨last, hlast.step⟩

theorem returned_stays (context : Context) (steps : ℕ) (result : Rendered) :
    (machineStep context)^[steps] (.returned result) = .returned result :=
  Function.iterate_fixed rfl steps

theorem Reaches.unique {machine : Machine} {first second : Rendered}
    (hfirst : Reaches context machine (.returned first))
    (hsecond : Reaches context machine (.returned second)) : first = second := by
  obtain ⟨n, hn⟩ := hfirst
  obtain ⟨m, hm⟩ := hsecond
  have hlater : (machineStep context)^[m + n] machine = .returned first := by
    rw [Function.iterate_add_apply, hn, returned_stays]
  rw [Nat.add_comm, Function.iterate_add_apply, hm, returned_stays] at hlater
  exact (Machine.returned.inj hlater).symm

/-- A run comes to its end with this result, and a partial that is called at the greatest nesting
makes it fail. -/
structure Terminates (context : Context) (start : Machine) (result : Rendered) : Prop where
  returns : ∃ steps, (machineStep context)^[steps] start = .returned result
  nesting : ∀ {steps program index stop scope yieldHtml allowYield depth calls output},
    (machineStep context)^[steps] start =
      .running (.program program index stop scope yieldHtml allowYield depth :: calls) output →
    index < stop → program.instructions[index]?.map (·.type) = some .instructionPartial →
    CEASY_VIEW_MAX_NESTING ≤ depth → result.error = some .nestingExceeded

theorem Reaches.terminates {start : Machine} {result : Rendered}
    (h : Reaches context start (.returned result)) : Terminates context start result where
  returns := h
  nesting := by
    intro steps program index stop scope yieldHtml allowYield depth calls output hsteps hindex hpartial
      hdepth
    obtain ⟨instruction, hinstruction, htype⟩ := Option.map_eq_some_iff.mp hpartial
    obtain ⟨type, path, jump⟩ := instruction
    obtain rfl : type = .instructionPartial := htype
    obtain ⟨last, hlast⟩ := @failing_returns context
      (.program program (index + 1) stop scope yieldHtml allowYield depth :: calls) output .nestingExceeded
    have hfails : machineStep context
        (.running (.program program index stop scope yieldHtml allowYield depth :: calls) output) =
        .failing (.program program (index + 1) stop scope yieldHtml allowYield depth :: calls) output
          .nestingExceeded := by
      rw [machineStep, if_pos hindex, hinstruction]
      exact if_pos hdepth
    rw [← hfails] at hlast
    have hreturned : Reaches context start (.returned ⟨last, some .nestingExceeded⟩) :=
      Reaches.trans ⟨steps, hsteps⟩ hlast.step
    rw [h.unique hreturned]

/-- Rendering terminates for every set of files, every program and every data, with what the
renderer is defined to give. -/
theorem render_terminates (context : Context) (path output : Bytes) :
    Terminates context (enterToString context path output) (viewRenderToString context path output) ∧
      Terminates context (enterWithLayout context path output)
        (viewRenderWithLayout context path output) :=
  ⟨(toString_returns context path output).terminates, (withLayout_returns context path output).terminates⟩

end Whole

end Ceasy.RenderMachine
