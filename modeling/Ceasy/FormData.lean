import Ceasy.RequestParse
import Ceasy.UrlEncoding

set_option autoImplicit false

/-!
# Form and query parameters

A body or a query is cut at `&`, and each piece at its first `=`. What was parsed is kept with
the context, and so is a failure. Decoded bytes are written to the request's arena, which is
taken to have room.
-/
namespace Ceasy.Forms
open StringView RequestParse UrlEncoding

def CEASY_MAX_FORM_PARAMS : ℕ := 64

def CEASY_MAX_QUERY_PARAMS : ℕ := 64

structure Param where
  name : Bytes
  value : Bytes
deriving DecidableEq, Repr

abbrev FormParam := Param

abbrev QueryParam := Param

structure Context where
  request : Request
  formParams : List FormParam := []
  formsParsed : Bool := false
  formParseOk : Bool := false
  queryParams : List QueryParam := []
  queryParsed : Bool := false
  queryParseOk : Bool := false

def contextHexDigit (value : UInt8) : Option UInt8 :=
  if ch '0' ≤ value ∧ value ≤ ch '9' then some (value - ch '0')
  else if ch 'a' ≤ value ∧ value ≤ ch 'f' then some (value - ch 'a' + 10)
  else if ch 'A' ≤ value ∧ value ≤ ch 'F' then some (value - ch 'A' + 10)
  else none

def contextIsFormContentType (value : Bytes) : Bool :=
  let formType := sv "application/x-www-form-urlencoded"
  decide (formType.length ≤ value.length) &&
    stringvEqualIgnoreCase (stringvSlice value 0 formType.length) formType

def contextFormDecodeLoop (source : Bytes) (index : ℕ) (data : Bytes) : Option Bytes :=
  if _h : index < source.length then
    if source[index] = ch '+' then contextFormDecodeLoop source (index + 1) (data ++ [ch ' '])
    else if source[index] = ch '%' then
      if _hend : source.length ≤ index + 2 then none
      else
        match contextHexDigit source[index + 1], contextHexDigit source[index + 2] with
        | some high, some low =>
          contextFormDecodeLoop source (index + 3) (data ++ [high <<< 4 ||| low])
        | none, _ => none
        | some _, none => none
    else contextFormDecodeLoop source (index + 1) (data ++ [source[index]])
  else some data
termination_by source.length - index

def contextFormDecode (source : Bytes) : Option Bytes :=
  if source.any fun c => c == ch '+' || c == ch '%' then contextFormDecodeLoop source 0 []
  else some source

def nextPair (remaining : Bytes) : Bytes × Bytes :=
  (stringvSplitOnceChar remaining (ch '&')).getD (remaining, [])

/-- A pair without `=` has an empty value. -/
def pairParts (pair : Bytes) : Bytes × Bytes :=
  (stringvSplitOnceChar pair (ch '=')).getD (pair, [])

theorem nextPair_lt {remaining : Bytes} (h : remaining ≠ []) :
    (nextPair remaining).2.length < remaining.length := by
  unfold nextPair
  cases hsplit : stringvSplitOnceChar remaining (ch '&') with
  | none => exact List.length_pos_iff.mpr h
  | some pair =>
    obtain ⟨left, right⟩ := pair
    obtain ⟨rfl, -⟩ := stringvSplitOnceChar_some.mp hsplit
    change right.length < _
    rw [List.length_append, List.length_cons]
    omega

/-- The loop of `context_parse_form` and of `context_parse_query`. -/
def contextParseParams (limit : ℕ) (remaining : Bytes) (params : List Param) : Bool × List Param :=
  if _h : remaining ≠ [] then
    if limit ≤ params.length then (false, params)
    else
      match contextFormDecode (pairParts (nextPair remaining).1).1,
        contextFormDecode (pairParts (nextPair remaining).1).2 with
      | some name, some value =>
        contextParseParams limit (nextPair remaining).2 (params ++ [⟨name, value⟩])
      | _, _ => (false, params)
  else (true, params)
termination_by remaining.length
decreasing_by exact nextPair_lt _h

def contextParseForm (context : Context) : Bool × Context :=
  if context.formsParsed then (context.formParseOk, context)
  else if !contextIsFormContentType context.request.contentType then
    (true, { context with formsParsed := true, formParseOk := true })
  else
    let (ok, params) :=
      contextParseParams CEASY_MAX_FORM_PARAMS context.request.body context.formParams
    (ok, { context with formsParsed := true, formParseOk := ok, formParams := params })

def contextParseQuery (context : Context) : Bool × Context :=
  if context.queryParsed then (context.queryParseOk, context)
  else
    let (ok, params) :=
      contextParseParams CEASY_MAX_QUERY_PARAMS context.request.queryString context.queryParams
    (ok, { context with queryParsed := true, queryParseOk := ok, queryParams := params })

def findParam (params : List Param) (name : Bytes) : Bytes :=
  ((params.find? fun param => stringvEqual param.name name).map (·.value)).getD []

def contextForm (context : Context) (name : Bytes) : Bytes × Context :=
  let (ok, context) := contextParseForm context
  (if ok then findParam context.formParams name else [], context)

def contextQuery (context : Context) (name : Bytes) : Bytes × Context :=
  let (ok, context) := contextParseQuery context
  (if ok then findParam context.queryParams name else [], context)

inductive ParamCall where
  | parseForm
  | parseQuery
  | form (name : Bytes)
  | query (name : Bytes)
deriving DecidableEq, Repr

def paramPerform (context : Context) : ParamCall → Context
  | .parseForm => (contextParseForm context).2
  | .parseQuery => (contextParseQuery context).2
  | .form name => (contextForm context name).2
  | .query name => (contextQuery context name).2

/-- The pairs of a text; nothing comes behind a last `&`. -/
def pairsOf (text : Bytes) : List Bytes :=
  if (text.splitOn (ch '&')).getLast? = some [] then (text.splitOn (ch '&')).dropLast
  else text.splitOn (ch '&')

def nameOf (pair : Bytes) : Bytes := pair.takeWhile (· != ch '=')

def valueOf (pair : Bytes) : Bytes := (pair.dropWhile (· != ch '=')).tail

def NamePlain (c : UInt8) : Prop := c ∉ sv "%+&="

def ValuePlain (c : UInt8) : Prop := c ∉ sv "%+&"

structure EncodesPair (param : Param) (pair : Bytes) : Prop where
  parts : ∃ name value, Encodes NamePlain param.name name ∧ Encodes ValuePlain param.value value ∧
    pair = name ++ ch '=' :: value

def EncodesParams (params : List Param) (text : Bytes) : Prop :=
  ∃ pairs, List.Forall₂ EncodesPair params pairs ∧ text = [ch '&'].intercalate pairs

/-- A pair with a percent sign that is not followed by two digits. -/
def BadPair (pair : Bytes) : Prop := Malformed (nameOf pair) ∨ Malformed (valueOf pair)

structure Decodes (limit : ℕ) (text : Bytes) (ok : Bool) (params : List Param) (get : Bytes → Bytes) :
    Prop where
  encoded : ∀ encoded : List Param, encoded.length ≤ limit → EncodesParams encoded text →
    ok = true ∧ params = encoded
  refused : ok = false ↔ (∃ pair ∈ pairsOf text, BadPair pair) ∨ limit < (pairsOf text).length
  nothing : ok = false → ∀ name, get name = []

theorem contextHexDigit_eq (value : UInt8) : contextHexDigit value = hexValue value := rfl

theorem contextFormDecodeLoop_eq (source : Bytes) (index : ℕ) (data : Bytes) :
    contextFormDecodeLoop source index data = (decode (source.drop index)).map (data ++ ·) := by
  rw [contextFormDecodeLoop]
  split_ifs with hindex hplus hpercent hend
  · rw [contextFormDecodeLoop_eq, List.drop_eq_getElem_cons hindex, hplus, show ch '+' = plus from rfl,
      decode_plus, Option.map_map]
    congr 1
    funext rest
    exact List.append_assoc _ _ _
  · rw [List.drop_eq_getElem_cons hindex, hpercent, show ch '%' = percent from rfl, decode_bad]
    · rfl
    · rintro ⟨high, low, rest, h, l, hbehind, -, -⟩
      have hlength := congrArg List.length hbehind
      rw [List.length_drop, List.length_cons, List.length_cons] at hlength
      omega
  · have hnext : index + 1 < source.length := by omega
    have hlast : index + 1 + 1 < source.length := by omega
    rw [List.drop_eq_getElem_cons hindex, hpercent, List.drop_eq_getElem_cons hnext,
      List.drop_eq_getElem_cons hlast, show ch '%' = percent from rfl, contextHexDigit_eq,
      contextHexDigit_eq]
    cases hhigh : hexValue source[index + 1] with
    | none =>
      rw [decode_bad]
      · rfl
      · rintro ⟨high, low, rest, h, l, ⟨⟩, hdigit, -⟩
        cases hhigh.symm.trans (hexValue_isDigit hdigit)
    | some high =>
      cases hlow : hexValue source[index + 2] with
      | none =>
        rw [decode_bad]
        · rfl
        · rintro ⟨_, low, rest, h, l, ⟨⟩, -, hdigit⟩
          cases hlow.symm.trans (hexValue_isDigit hdigit)
      | some low =>
        dsimp only
        rw [contextFormDecodeLoop_eq, decode_escape hhigh hlow, Option.map_map]
        congr 1
        funext rest
        exact List.append_assoc _ _ _
  · rw [contextFormDecodeLoop_eq, List.drop_eq_getElem_cons hindex, decode_plain hplus hpercent,
      Option.map_map]
    congr 1
    funext rest
    exact List.append_assoc _ _ _
  · rw [List.drop_eq_nil_of_le (Nat.le_of_not_lt hindex), decode, Option.map_some, List.append_nil]
termination_by source.length - index

theorem contextFormDecode_eq (source : Bytes) : contextFormDecode source = decode source := by
  unfold contextFormDecode
  split_ifs with hneeds
  · rw [contextFormDecodeLoop_eq, List.drop_zero]
    exact Option.map_id'
  · rw [List.any_eq_true, not_exists] at hneeds
    have hplain : ∀ c ∈ source, c ≠ plus ∧ c ≠ percent := by
      intro c hc
      have hboth := hneeds c
      rw [Bool.or_eq_true, beq_iff_eq, beq_iff_eq, not_and, not_or] at hboth
      exact hboth hc
    exact (decode_literal (fun h => (hplain _ h).1 rfl) fun h => (hplain _ h).2 rfl).symm

theorem pairParts_eq (pair : Bytes) : pairParts pair = (nameOf pair, valueOf pair) := by
  unfold pairParts nameOf valueOf
  cases hsplit : stringvSplitOnceChar pair (ch '=') with
  | none =>
    have hall : ∀ c ∈ pair, (c != ch '=') = true := by
      intro c hc
      rw [bne_iff_ne]
      rintro rfl
      exact stringvSplitOnceChar_none.mp hsplit hc
    rw [List.takeWhile_eq_self_iff.mpr hall, List.dropWhile_eq_nil_iff.mpr hall]
    rfl
  | some parts =>
    obtain ⟨name, value⟩ := parts
    obtain ⟨rfl, hname⟩ := stringvSplitOnceChar_some.mp hsplit
    have hall : ∀ c ∈ name, (c != ch '=') = true := by
      intro c hc
      rw [bne_iff_ne]
      rintro rfl
      exact hname hc
    rw [List.takeWhile_append_of_pos hall, List.dropWhile_append_of_pos hall,
      List.takeWhile_cons_of_neg (by decide), List.dropWhile_cons_of_neg (by decide), List.append_nil]
    rfl

def paramOf (pair : Bytes) : Option Param :=
  (decode (nameOf pair)).bind fun name => (decode (valueOf pair)).map fun value => ⟨name, value⟩

theorem paramOf_none {pair : Bytes} : paramOf pair = none ↔ BadPair pair := by
  rw [paramOf, BadPair, ← decode_none_iff, ← decode_none_iff]
  cases decode (nameOf pair) with
  | none => exact iff_of_true rfl (.inl rfl)
  | some name =>
    rw [Option.bind_some, Option.map_eq_none_iff]
    exact ⟨.inr, fun h => h.resolve_left (Option.some_ne_none name)⟩

theorem contextParseParams_pair {limit : ℕ} {remaining : Bytes} {params : List Param}
    (h : remaining ≠ []) :
    contextParseParams limit remaining params =
      if limit ≤ params.length then (false, params)
      else
        match paramOf (nextPair remaining).1 with
        | some param => contextParseParams limit (nextPair remaining).2 (params ++ [param])
        | none => (false, params) := by
  rw [contextParseParams, dif_pos h]
  simp only [contextFormDecode_eq, pairParts_eq]
  rw [paramOf]
  cases decode (nameOf (nextPair remaining).1) with
  | none => rfl
  | some name => cases decode (valueOf (nextPair remaining).1) <;> rfl

theorem contextParseParams_nil (limit : ℕ) (params : List Param) :
    contextParseParams limit [] params = (true, params) := by
  rw [contextParseParams, dif_neg (by decide)]

theorem pairsOf_nil : pairsOf [] = [] := rfl

theorem pairsOf_last {pair : Bytes} (h : ch '&' ∉ pair) (hne : pair ≠ []) : pairsOf pair = [pair] := by
  rw [pairsOf, List.splitOn_eq_singleton h, if_neg]
  rw [List.getLast?_singleton, Option.some_inj]
  exact hne

theorem pairsOf_cons {pair : Bytes} (h : ch '&' ∉ pair) (rest : Bytes) :
    pairsOf (pair ++ ch '&' :: rest) = pair :: pairsOf rest := by
  obtain ⟨first, pairs, hpairs⟩ := List.exists_cons_of_ne_nil (List.splitOn_ne_nil (ch '&') rest)
  rw [pairsOf, pairsOf, List.splitOn_append_cons_self_of_not_mem h, hpairs, List.getLast?_cons_cons,
    List.dropLast_cons_cons]
  split_ifs <;> rfl

theorem pairsOf_next {remaining : Bytes} (h : remaining ≠ []) :
    pairsOf remaining = (nextPair remaining).1 :: pairsOf (nextPair remaining).2 := by
  unfold nextPair
  cases hsplit : stringvSplitOnceChar remaining (ch '&') with
  | none =>
    rw [Option.getD_none, pairsOf_nil]
    exact pairsOf_last (stringvSplitOnceChar_none.mp hsplit) h
  | some parts =>
    obtain ⟨pair, rest⟩ := parts
    obtain ⟨rfl, hpair⟩ := stringvSplitOnceChar_some.mp hsplit
    exact pairsOf_cons hpair rest

theorem pairsOf_intercalate {pairs : List Bytes} (h : ∀ pair ∈ pairs, ch '&' ∉ pair ∧ pair ≠ []) :
    pairsOf ([ch '&'].intercalate pairs) = pairs := by
  induction pairs with
  | nil => exact pairsOf_nil
  | cons pair pairs ih =>
    rw [List.forall_mem_cons] at h
    cases pairs with
    | nil => rw [List.intercalate_singleton, pairsOf_last h.1.1 h.1.2]
    | cons next pairs =>
      rw [List.intercalate_cons_cons, List.append_assoc, List.singleton_append, pairsOf_cons h.1.1,
        ih h.2]

theorem contextParseParams_served {limit : ℕ} {remaining : Bytes} {params served : List Param}
    (h : (pairsOf remaining).mapM paramOf = some served)
    (hroom : params.length + (pairsOf remaining).length ≤ limit) :
    contextParseParams limit remaining params = (true, params ++ served) := by
  by_cases hne : remaining = []
  · rw [hne, pairsOf_nil] at h
    cases h
    rw [hne, contextParseParams_nil]
    exact Prod.ext rfl (List.append_nil params).symm
  · have hnext := nextPair_lt hne
    rw [pairsOf_next hne, List.length_cons] at hroom
    rw [pairsOf_next hne, List.mapM_cons, Option.bind_eq_bind, Option.bind_eq_some_iff] at h
    obtain ⟨param, hparam, h⟩ := h
    rw [Option.bind_eq_bind, Option.bind_eq_some_iff] at h
    obtain ⟨rest, hrest, h⟩ := h
    cases h
    rw [contextParseParams_pair hne, if_neg (by omega), hparam]
    dsimp only
    rw [contextParseParams_served hrest (by rw [List.length_append, List.length_singleton]; omega),
      List.append_assoc, List.singleton_append]
termination_by remaining.length

/-- The loop fails at a bad pair, or at the first pair too many. -/
theorem contextParseParams_refused {limit : ℕ} {remaining : Bytes} {params : List Param}
    (hparams : params.length ≤ limit) :
    (contextParseParams limit remaining params).1 = false ↔
      (∃ pair ∈ pairsOf remaining, BadPair pair) ∨ limit < params.length + (pairsOf remaining).length := by
  by_cases hne : remaining = []
  · rw [hne, contextParseParams_nil, pairsOf_nil]
    refine iff_of_false Bool.noConfusion ?_
    rintro (⟨pair, hmem, -⟩ | hlimit)
    · cases hmem
    · exact absurd hlimit (Nat.not_lt.mpr hparams)
  · have hnext := nextPair_lt hne
    rw [contextParseParams_pair hne, pairsOf_next hne, List.exists_mem_cons_iff, List.length_cons]
    split_ifs with hlimit
    · exact iff_of_true rfl (.inr (by omega))
    · cases hparam : paramOf (nextPair remaining).1 with
      | none => exact iff_of_true rfl (.inl (.inl (paramOf_none.mp hparam)))
      | some param =>
        have hgood : ¬ BadPair (nextPair remaining).1 := by
          rw [← paramOf_none, hparam]
          exact Option.some_ne_none param
        have hlength : (params ++ [param]).length = params.length + 1 := List.length_append
        dsimp only
        rw [contextParseParams_refused (by omega), hlength, or_iff_right hgood, Nat.add_right_comm,
          Nat.add_assoc]
termination_by remaining.length

theorem not_isDigit_ampersand {n : ℕ} : ¬ IsDigit (ch '&') n := by
  intro h
  cases hexValue_isDigit h

theorem not_isDigit_equals {n : ℕ} : ¬ IsDigit (ch '=') n := by
  intro h
  cases hexValue_isDigit h

/-- A byte that must be encoded is not in what was encoded. -/
theorem encodes_free {plain : UInt8 → Prop} {text code : Bytes} (h : Encodes plain text code) {c : UInt8}
    (hplain : ¬ plain c) (hplus : c ≠ plus) (hpercent : c ≠ percent) (hdigit : ∀ n, ¬ IsDigit c n) :
    c ∉ code := by
  intro hc
  rcases h.mem hc with hc | hc | hc | ⟨n, hc⟩
  · exact hplain hc
  · exact hplus hc
  · exact hpercent hc
  · exact hdigit n hc

theorem EncodesPair.paramOf {param : Param} {pair : Bytes} (h : EncodesPair param pair) :
    paramOf pair = some param := by
  obtain ⟨name, value, hname, hvalue, rfl⟩ := h.parts
  have hfree : ch '=' ∉ name :=
    encodes_free hname (by unfold NamePlain; decide) (by decide) (by decide) fun n => not_isDigit_equals
  have hparts := pairParts_eq (name ++ ch '=' :: value)
  rw [pairParts, stringvSplitOnceChar_some.mpr ⟨rfl, hfree⟩, Option.getD_some, Prod.mk.injEq] at hparts
  rw [Forms.paramOf, ← hparts.1, ← hparts.2,
    hname.decode (by unfold NamePlain; decide) (by unfold NamePlain; decide),
    hvalue.decode (by unfold ValuePlain; decide) (by unfold ValuePlain; decide)]
  rfl

theorem EncodesPair.whole {param : Param} {pair : Bytes} (h : EncodesPair param pair) :
    ch '&' ∉ pair ∧ pair ≠ [] := by
  obtain ⟨name, value, hname, hvalue, rfl⟩ := h.parts
  rw [List.mem_append, List.mem_cons, not_or, not_or]
  refine ⟨⟨?_, by decide, ?_⟩, List.append_ne_nil_of_right_ne_nil _ (List.cons_ne_nil _ _)⟩
  · exact encodes_free hname (by unfold NamePlain; decide) (by decide) (by decide)
      fun n => not_isDigit_ampersand
  · exact encodes_free hvalue (by unfold ValuePlain; decide) (by decide) (by decide)
      fun n => not_isDigit_ampersand

theorem EncodesParams.pairs {params : List Param} {text : Bytes} (h : EncodesParams params text) :
    (pairsOf text).mapM paramOf = some params ∧ (pairsOf text).length = params.length := by
  obtain ⟨pairs, hpairs, rfl⟩ := h
  have hwhole : ∀ pair ∈ pairs, ch '&' ∉ pair ∧ pair ≠ [] := by
    induction hpairs with
    | nil => exact List.forall_mem_nil _
    | cons hpair _ ih => exact List.forall_mem_cons.mpr ⟨hpair.whole, ih⟩
  rw [pairsOf_intercalate hwhole]
  refine ⟨?_, hpairs.length_eq.symm⟩
  clear hwhole
  induction hpairs with
  | nil => rfl
  | cons hpair _ ih => rw [List.mapM_cons, hpair.paramOf, ih]; rfl

/-- What the loop comes to, for a body or a query of its own. -/
theorem contextParseParams_decodes (limit : ℕ) (text : Bytes) :
    Decodes limit text (contextParseParams limit text []).1 (contextParseParams limit text []).2
      fun name => if (contextParseParams limit text []).1 then
        findParam (contextParseParams limit text []).2 name else [] where
  encoded := by
    intro encoded hlength hencoded
    obtain ⟨hserved, hpairs⟩ := hencoded.pairs
    rw [contextParseParams_served hserved (by rw [hpairs, List.length_nil]; omega)]
    exact ⟨rfl, rfl⟩
  refused := by
    rw [contextParseParams_refused (Nat.zero_le limit), List.length_nil, Nat.zero_add]
  nothing := by
    intro hrefused name
    rw [hrefused]
    rfl

def formResult (request : Request) : Bool × List Param :=
  if contextIsFormContentType request.contentType then
    contextParseParams CEASY_MAX_FORM_PARAMS request.body []
  else (true, [])

def queryResult (request : Request) : Bool × List Param :=
  contextParseParams CEASY_MAX_QUERY_PARAMS request.queryString []

/-- Nothing has been parsed, or the result has been kept. -/
def Kept (parsed ok : Bool) (params : List Param) (result : Bool × List Param) : Prop :=
  parsed = false ∧ params = [] ∨ parsed = true ∧ (ok, params) = result

structure Reached (request : Request) (context : Context) : Prop where
  same : context.request = request
  form : Kept context.formsParsed context.formParseOk context.formParams (formResult request)
  query : Kept context.queryParsed context.queryParseOk context.queryParams (queryResult request)

section Run

variable {request : Request} {context : Context}

theorem contextParseForm_reached (h : Reached request context) :
    Reached request (contextParseForm context).2 ∧
      ((contextParseForm context).1, (contextParseForm context).2.formParams) = formResult request := by
  unfold contextParseForm
  rcases h.form with ⟨hparsed, hparams⟩ | ⟨hparsed, hresult⟩
  · rw [if_neg (by rw [hparsed]; decide)]
    cases htype : contextIsFormContentType context.request.contentType with
    | false =>
      have hnone : formResult request = (true, []) := by
        rw [formResult, ← h.same, htype]
        rfl
      rw [if_pos (by decide), hnone]
      refine ⟨⟨h.same, .inr ⟨rfl, ?_⟩, h.query⟩, Prod.ext rfl hparams⟩
      rw [hnone]
      exact Prod.ext rfl hparams
    | true =>
      have hloop : contextParseParams CEASY_MAX_FORM_PARAMS context.request.body context.formParams =
          formResult request := by
        rw [formResult, ← h.same, htype, if_pos rfl, hparams]
      rw [if_neg (by decide), hloop]
      exact ⟨⟨h.same, .inr ⟨rfl, rfl⟩, h.query⟩, rfl⟩
  · rw [if_pos hparsed]
    exact ⟨h, hresult⟩

theorem contextParseQuery_reached (h : Reached request context) :
    Reached request (contextParseQuery context).2 ∧
      ((contextParseQuery context).1, (contextParseQuery context).2.queryParams) =
        queryResult request := by
  unfold contextParseQuery
  rcases h.query with ⟨hparsed, hparams⟩ | ⟨hparsed, hresult⟩
  · have hloop : contextParseParams CEASY_MAX_QUERY_PARAMS context.request.queryString
        context.queryParams = queryResult request := by
      rw [queryResult, ← h.same, hparams]
    rw [if_neg (by rw [hparsed]; decide), hloop]
    exact ⟨⟨h.same, h.form, .inr ⟨rfl, rfl⟩⟩, rfl⟩
  · rw [if_pos hparsed]
    exact ⟨h, hresult⟩

theorem paramPerform_reached (h : Reached request context) (call : ParamCall) :
    Reached request (paramPerform context call) := by
  cases call with
  | parseForm => exact (contextParseForm_reached h).1
  | parseQuery => exact (contextParseQuery_reached h).1
  | form name => exact (contextParseForm_reached h).1
  | query name => exact (contextParseQuery_reached h).1

theorem reached_run (request : Request) (calls : List ParamCall) :
    Reached request (calls.foldl paramPerform { request }) := by
  have hstart : Reached request { request } := ⟨rfl, .inl ⟨rfl, rfl⟩, .inl ⟨rfl, rfl⟩⟩
  generalize ({ request } : Context) = context at hstart
  induction calls generalizing context with
  | nil => exact hstart
  | cons call calls ih => exact ih _ (paramPerform_reached hstart call)

theorem contextForm_reached (h : Reached request context) (name : Bytes) :
    (contextForm context name).1 =
      if (formResult request).1 then findParam (formResult request).2 name else [] := by
  rw [← (contextParseForm_reached h).2]
  rfl

theorem contextQuery_reached (h : Reached request context) (name : Bytes) :
    (contextQuery context name).1 =
      if (queryResult request).1 then findParam (queryResult request).2 name else [] := by
  rw [← (contextParseQuery_reached h).2]
  rfl

end Run

/-- Whatever was asked of a context before, its form and its query are what their texts encode,
and a text is refused exactly for a bad pair or for too many. -/
theorem contextParse_decodes (request : Request) (before : List ParamCall) :
    (contextIsFormContentType request.contentType = true →
      Decodes CEASY_MAX_FORM_PARAMS request.body
        (contextParseForm (before.foldl paramPerform { request })).1
        (contextParseForm (before.foldl paramPerform { request })).2.formParams
        fun name => (contextForm (before.foldl paramPerform { request }) name).1) ∧
      Decodes CEASY_MAX_QUERY_PARAMS request.queryString
        (contextParseQuery (before.foldl paramPerform { request })).1
        (contextParseQuery (before.foldl paramPerform { request })).2.queryParams
        fun name => (contextQuery (before.foldl paramPerform { request }) name).1 := by
  have hreached := reached_run request before
  constructor
  · intro htype
    obtain ⟨hok, hparams⟩ := Prod.ext_iff.mp (contextParseForm_reached hreached).2
    dsimp only at hok hparams
    rw [hok, hparams, funext (contextForm_reached hreached), formResult, if_pos htype]
    exact contextParseParams_decodes _ _
  · obtain ⟨hok, hparams⟩ := Prod.ext_iff.mp (contextParseQuery_reached hreached).2
    dsimp only at hok hparams
    rw [hok, hparams, funext (contextQuery_reached hreached), queryResult]
    exact contextParseParams_decodes _ _

def commentRequest : Request where
  contentType := sv "Application/X-WWW-Form-Urlencoded; charset=UTF-8"
  body := sv "text=1%2b1=2&by="

theorem commentRequest_decodes :
    (contextParseForm { request := commentRequest }).2.formParams =
      [⟨sv "text", sv "1+1=2"⟩, ⟨sv "by", []⟩] := by
  refine (((contextParse_decodes commentRequest []).1 (by decide +kernel)).encoded
    [⟨sv "text", sv "1+1=2"⟩, ⟨sv "by", []⟩] (by decide) ⟨[sv "text=1%2b1=2", sv "by="],
      .cons ⟨sv "text", sv "1%2b1=2", ?_, ?_, rfl⟩ (.cons ⟨sv "by", [], ?_, .nil, rfl⟩ .nil), rfl⟩).2
  · repeat' first | exact .nil | refine .plain (by unfold NamePlain; decide) ?_
  · refine .plain (by unfold ValuePlain; decide) (.escape ⟨by decide, .inl (by decide)⟩
      ⟨by decide, .inr (by decide)⟩ ?_)
    repeat' first | exact .nil | refine .plain (by unfold ValuePlain; decide) ?_
  · repeat' first | exact .nil | refine .plain (by unfold NamePlain; decide) ?_

end Ceasy.Forms
