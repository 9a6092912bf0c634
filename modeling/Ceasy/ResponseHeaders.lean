import Ceasy.Cookie

set_option autoImplicit false

/-!
# The headers of a response

The table of headers is meant to be a list in which setting replaces the first value under a
name, whatever its case, and adding appends. The copy of an empty value has no data, and the
library takes it for a copy that has failed.
-/
namespace Ceasy.Sessions
open StringView

/-- Replacing the value of the first header with a name, if there is one. -/
def contextReplaceHeader (name value : Bytes) : List ResponseHeader → Option (List ResponseHeader)
  | [] => none
  | header :: headers =>
    if stringvEqualIgnoreCase header.name name then some ({ header with value := value } :: headers)
    else (contextReplaceHeader name value headers).map (header :: ·)

/-- The loop of `context_set_header` ends at the first header with the name, whether or not its
value could be copied. -/
def contextSetHeader (context : Context) (name value : Bytes) : Bool × Context :=
  if name.length = 0 || !contextHeaderValueValid name || !contextHeaderValueValid value then
    (false, context)
  else
    match contextReplaceHeader name value context.responseHeaders with
    | some headers =>
      if value.length = 0 then (false, context)
      else (true, { context with responseHeaders := headers })
    | none => contextAddHeader context name value

inductive HeaderCall where
  | set (name value : Bytes)
  | add (name value : Bytes)
deriving DecidableEq, Repr

def HeaderCall.name : HeaderCall → Bytes
  | .set name _ => name
  | .add name _ => name

def HeaderCall.value : HeaderCall → Bytes
  | .set _ value => value
  | .add _ value => value

def headerPerform (context : Context) : HeaderCall → Bool × Context
  | .set name value => contextSetHeader context name value
  | .add name value => contextAddHeader context name value

/-- The answers to a sequence of calls, and the context behind it. -/
def headerPerformAll (context : Context) : List HeaderCall → List Bool × Context
  | [] => ([], context)
  | call :: calls =>
    let performed := headerPerform context call
    let rest := headerPerformAll performed.2 calls
    (performed.1 :: rest.1, rest.2)

def referenceSet (name value : Bytes) (headers : List ResponseHeader) : List ResponseHeader :=
  (contextReplaceHeader name value headers).getD (headers ++ [⟨name, value⟩])

def LineFree (text : Bytes) : Prop := ch '\r' ∉ text ∧ ch '\n' ∉ text

instance (text : Bytes) : Decidable (LineFree text) := inferInstanceAs (Decidable (_ ∧ _))

/-- There is room for one more header, or the header that is set is there. -/
def HeaderCall.HasRoom (headers : List ResponseHeader) : HeaderCall → Prop
  | .set name _ => headers.length < CEASY_MAX_RESPONSE_HEADERS ∨
      ∃ header ∈ headers, stringvEqualIgnoreCase header.name name = true
  | .add _ _ => headers.length < CEASY_MAX_RESPONSE_HEADERS

instance (headers : List ResponseHeader) (call : HeaderCall) : Decidable (call.HasRoom headers) := by
  cases call <;> unfold HeaderCall.HasRoom <;> infer_instance

structure HeaderCall.Acceptable (headers : List ResponseHeader) (call : HeaderCall) : Prop where
  name : call.name ≠ []
  nameLineFree : LineFree call.name
  valueLineFree : LineFree call.value
  room : call.HasRoom headers

instance (headers : List ResponseHeader) (call : HeaderCall) : Decidable (call.Acceptable headers) :=
  decidable_of_iff (call.name ≠ [] ∧ LineFree call.name ∧ LineFree call.value ∧ call.HasRoom headers)
    ⟨fun h => ⟨h.1, h.2.1, h.2.2.1, h.2.2.2⟩, fun h => ⟨h.name, h.nameLineFree, h.valueLineFree, h.room⟩⟩

def HeaderCall.effect (headers : List ResponseHeader) : HeaderCall → List ResponseHeader
  | .set name value => referenceSet name value headers
  | .add name value => headers ++ [⟨name, value⟩]

/-- A call is accepted and has its effect, or is refused and has none. -/
def referencePerform (headers : List ResponseHeader) (call : HeaderCall) :
    Bool × List ResponseHeader :=
  if call.Acceptable headers then (true, call.effect headers) else (false, headers)

def referencePerformAll (headers : List ResponseHeader) : List HeaderCall → List Bool × List ResponseHeader
  | [] => ([], headers)
  | call :: calls =>
    let performed := referencePerform headers call
    let rest := referencePerformAll performed.2 calls
    (performed.1 :: rest.1, rest.2)

/-- No call that is to be accepted has an empty value. -/
def Valued (headers : List ResponseHeader) : List HeaderCall → Prop
  | [] => True
  | call :: calls =>
    (call.Acceptable headers → call.value ≠ []) ∧ Valued (referencePerform headers call).2 calls

variable {headers : List ResponseHeader} {context : Context} {call : HeaderCall} {name value : Bytes}

theorem contextReplaceHeader_isSome :
    (contextReplaceHeader name value headers).isSome = true ↔
      ∃ header ∈ headers, stringvEqualIgnoreCase header.name name = true := by
  induction headers with
  | nil => simp [contextReplaceHeader]
  | cons header headers ih =>
    rw [contextReplaceHeader]
    split_ifs with hsame
    · exact ⟨fun _ => ⟨header, List.mem_cons_self, hsame⟩, fun _ => rfl⟩
    · rw [Option.isSome_map, ih, List.exists_mem_cons_iff]
      exact ⟨.inr, fun h => h.resolve_left hsame⟩

theorem lineFree_iff {text : Bytes} : contextHeaderValueValid text = true ↔ LineFree text :=
  contextHeaderValueValid_iff

theorem contextAddHeader_eq (context : Context) (name value : Bytes) :
    contextAddHeader context name value =
      if (HeaderCall.add name value).Acceptable context.responseHeaders ∧ value ≠ [] then
        (true, { context with responseHeaders := context.responseHeaders ++ [⟨name, value⟩] })
      else (false, context) := by
  unfold contextAddHeader
  by_cases haccepted : (HeaderCall.add name value).Acceptable context.responseHeaders
  · have hname : name.length ≠ 0 := fun h => haccepted.name (List.length_eq_zero_iff.mp h)
    have hroom : context.responseHeaders.length < CEASY_MAX_RESPONSE_HEADERS := haccepted.room
    have hnameValid : contextHeaderValueValid name = true := lineFree_iff.mpr haccepted.nameLineFree
    have hvalueValid : contextHeaderValueValid value = true := lineFree_iff.mpr haccepted.valueLineFree
    rw [hnameValid, hvalueValid, decide_eq_false hname, decide_eq_false (Nat.not_le.mpr hroom)]
    by_cases hvalue : value = []
    · rw [if_neg (by decide), if_pos (List.length_eq_zero_iff.mpr hvalue),
        if_neg fun h => h.2 hvalue]
    · rw [if_neg (by decide), if_neg fun h => hvalue (List.length_eq_zero_iff.mp h),
        if_pos ⟨haccepted, hvalue⟩]
  · rw [if_pos, if_neg fun h => haccepted h.1]
    by_contra hpassed
    simp only [Bool.or_eq_true, decide_eq_true_eq, Bool.not_eq_true', not_or, Bool.not_eq_false,
      Nat.not_le] at hpassed
    exact haccepted ⟨fun h => hpassed.1.1.1 (List.length_eq_zero_iff.mpr h),
      lineFree_iff.mp hpassed.1.1.2, lineFree_iff.mp hpassed.1.2, hpassed.2⟩

theorem contextSetHeader_eq (context : Context) (name value : Bytes) :
    contextSetHeader context name value =
      if (HeaderCall.set name value).Acceptable context.responseHeaders ∧ value ≠ [] then
        (true, { context with responseHeaders := referenceSet name value context.responseHeaders })
      else (false, context) := by
  unfold contextSetHeader
  by_cases hchecked : name.length ≠ 0 ∧ LineFree name ∧ LineFree value
  · rw [lineFree_iff.mpr hchecked.2.1, lineFree_iff.mpr hchecked.2.2, decide_eq_false hchecked.1,
      if_neg (by decide)]
    have hname : name ≠ [] := fun h => hchecked.1 (List.length_eq_zero_iff.mpr h)
    cases hreplaced : contextReplaceHeader name value context.responseHeaders with
    | some replaced =>
      have hfound : ∃ header ∈ context.responseHeaders,
          stringvEqualIgnoreCase header.name name = true :=
        contextReplaceHeader_isSome.mp (by rw [hreplaced]; rfl)
      have haccepted : (HeaderCall.set name value).Acceptable context.responseHeaders :=
        ⟨hname, hchecked.2.1, hchecked.2.2, .inr hfound⟩
      dsimp only
      by_cases hvalue : value = []
      · rw [if_pos (List.length_eq_zero_iff.mpr hvalue), if_neg fun h => h.2 hvalue]
      · rw [if_neg fun h => hvalue (List.length_eq_zero_iff.mp h), if_pos ⟨haccepted, hvalue⟩,
          referenceSet, hreplaced, Option.getD_some]
    | none =>
      have hmissing : ¬ ∃ header ∈ context.responseHeaders,
          stringvEqualIgnoreCase header.name name = true := by
        rw [← @contextReplaceHeader_isSome context.responseHeaders name value, hreplaced]
        exact Bool.false_ne_true
      have hsame : (HeaderCall.add name value).Acceptable context.responseHeaders ↔
          (HeaderCall.set name value).Acceptable context.responseHeaders :=
        ⟨fun h => ⟨h.name, h.nameLineFree, h.valueLineFree, .inl h.room⟩,
          fun h => ⟨h.name, h.nameLineFree, h.valueLineFree, h.room.resolve_right hmissing⟩⟩
      dsimp only
      rw [contextAddHeader_eq, referenceSet, hreplaced, Option.getD_none]
      exact if_congr (and_congr hsame Iff.rfl) rfl rfl
  · rw [if_pos, if_neg]
    · rintro ⟨haccepted, -⟩
      exact hchecked ⟨fun h => haccepted.name (List.length_eq_zero_iff.mp h),
        haccepted.nameLineFree, haccepted.valueLineFree⟩
    · by_contra hpassed
      simp only [Bool.or_eq_true, decide_eq_true_eq, Bool.not_eq_true', not_or,
        Bool.not_eq_false] at hpassed
      exact hchecked ⟨hpassed.1.1, lineFree_iff.mp hpassed.1.2, lineFree_iff.mp hpassed.2⟩

/-- What a call comes to: it is the reference's, but for an empty value. -/
theorem headerPerform_eq (context : Context) (call : HeaderCall) :
    headerPerform context call =
      if call.Acceptable context.responseHeaders ∧ call.value ≠ [] then
        (true, { context with responseHeaders := call.effect context.responseHeaders })
      else (false, context) := by
  cases call with
  | set name value => exact contextSetHeader_eq context name value
  | add name value => exact contextAddHeader_eq context name value

theorem headerPerform_reference (h : call.Acceptable context.responseHeaders → call.value ≠ []) :
    headerPerform context call =
      ((referencePerform context.responseHeaders call).1,
        { context with responseHeaders := (referencePerform context.responseHeaders call).2 }) := by
  rw [headerPerform_eq, referencePerform]
  by_cases haccepted : call.Acceptable context.responseHeaders
  · rw [if_pos ⟨haccepted, h haccepted⟩, if_pos haccepted]
  · rw [if_neg fun hboth => haccepted hboth.1, if_neg haccepted]

/-- The table is the list it is meant to be, with the same answers, exactly where no call that is
to be accepted has an empty value. -/
theorem headerPerformAll_reference_iff (context : Context) (calls : List HeaderCall) :
    headerPerformAll context calls =
        ((referencePerformAll context.responseHeaders calls).1,
          { context with responseHeaders := (referencePerformAll context.responseHeaders calls).2 }) ↔
      Valued context.responseHeaders calls := by
  induction calls generalizing context with
  | nil => exact ⟨fun _ => trivial, fun _ => rfl⟩
  | cons call calls ih =>
    rw [headerPerformAll, referencePerformAll, Valued]
    dsimp only
    by_cases hvalue : call.Acceptable context.responseHeaders → call.value ≠ []
    · have hrest := ih { context with
        responseHeaders := (referencePerform context.responseHeaders call).2 }
      rw [headerPerform_reference hvalue, ← hrest, Prod.mk.injEq, Prod.ext_iff, List.cons.injEq]
      dsimp only
      exact ⟨fun h => ⟨hvalue, h.1.2, h.2⟩, fun h => ⟨⟨rfl, h.2.1⟩, h.2.2⟩⟩
    · refine ⟨fun h => ?_, fun h => absurd h.1 hvalue⟩
      rw [Classical.not_imp, not_not] at hvalue
      have hanswer := (List.cons.inj (congrArg Prod.fst h)).1
      rw [headerPerform_eq, if_neg fun hboth => hboth.2 hvalue.2, referencePerform,
        if_pos hvalue.1] at hanswer
      cases hanswer

/-- An empty value is refused, though there is nothing against it. -/
theorem contextAddHeader_refuses_empty :
    headerPerformAll { request := {} } [.add (sv "X-Note") []] = ([false], { request := {} }) ∧
      referencePerformAll [] [.add (sv "X-Note") []] = ([true], [⟨sv "X-Note", []⟩]) := by
  refine ⟨rfl, ?_⟩
  decide +kernel

end Ceasy.Sessions
