import Ceasy.TemplateParse
import Ceasy.JumpForest

set_option autoImplicit false

/-!
# The grammar of templates

A template is cut into text pieces and trimmed tags; the tags, read as tokens,
must be those of a forest of sections. The parser accepts exactly these sources,
and its program is the forest flattened in preorder.
-/
namespace Ceasy.TemplateGrammar
open StringView TemplateParse Occurrence JumpForest

inductive Leaf where
  | text (value : Bytes)
  | variablePath (path : Bytes)
  | partialView (path : Bytes)
  | layoutYield
deriving DecidableEq, Repr

structure SectionTag where
  inverse : Bool
  name : Bytes
deriving DecidableEq, Repr

abbrev TemplateForest := Forest Leaf SectionTag

abbrev TemplateToken := Token Leaf SectionTag Bytes

def leafInstruction : Leaf → TemplateInstruction
  | .text value => { type := .instructionText, value := value }
  | .variablePath path => { type := .instructionVariable, value := path }
  | .partialView path => { type := .instructionPartial, value := path }
  | .layoutYield => { type := .instructionYield }

def sectionInstruction (tag : SectionTag) (jump : ℕ) : TemplateInstruction :=
  ⟨if tag.inverse then .instructionInverseSection else .instructionSection, tag.name, jump⟩

def isSection (instruction : TemplateInstruction) : Bool :=
  instruction.type == .instructionSection || instruction.type == .instructionInverseSection

def target : Target Leaf SectionTag TemplateInstruction where
  leaf := leafInstruction
  branch := sectionInstruction
  jump? instruction := if isSection instruction then some instruction.jump else none
  setJump jump instruction := { instruction with jump := jump }
  jump_leaf a := by cases a <;> rfl
  jump_branch tag jump := by cases tag with | mk inverse name => cases inverse <;> rfl
  setJump_branch _ _ _ := rfl

def forestProgram (f : TemplateForest) : List TemplateInstruction := f.flatten target 0

inductive Piece where
  | text (value : Bytes)
  | tag (content : Bytes)

def DottedPath (value : Bytes) : Prop := ∀ part ∈ value.splitOn (ch '.'), templateIdentifier part

inductive TagToken : Bytes → TemplateToken → Prop where
  | layoutYield : TagToken (sv "yield") (.leaf .layoutYield)
  | opening (rest : Bytes) (h : DottedPath (stringvTrim rest)) :
    TagToken (ch '#' :: rest) (.opening ⟨false, stringvTrim rest⟩)
  | inverse (rest : Bytes) (h : DottedPath (stringvTrim rest)) :
    TagToken (ch '^' :: rest) (.opening ⟨true, stringvTrim rest⟩)
  | closing (rest : Bytes) (h : DottedPath (stringvTrim rest)) :
    TagToken (ch '/' :: rest) (.closing (stringvTrim rest))
  | partialView (rest : Bytes) (h : viewPathValid (stringvTrim rest)) :
    TagToken (ch '>' :: rest) (.leaf (.partialView (stringvTrim rest)))
  | variablePath (path : Bytes) (h : DottedPath path) (hy : path ≠ sv "yield") :
    TagToken path (.leaf (.variablePath path))

inductive PieceToken : Piece → TemplateToken → Prop where
  | text (value : Bytes) : PieceToken (.text value) (.leaf (.text value))
  | tag {content : Bytes} {token : TemplateToken} (h : TagToken content token) :
    PieceToken (.tag content) token

/-- An empty text is no piece. -/
def textPieces (text : Bytes) : List Piece := if text.length = 0 then [] else [.text text]

/-- The source read left to right: text up to the next `{{`, then a tag up to the
    next `}}`, trimmed. -/
inductive Scanned : Bytes → List Piece → Prop where
  | text {source : Bytes} (h : ∀ i, ¬ OccursAt tagOpening source i) :
    Scanned source (textPieces source)
  | tag {source content rest : Bytes} {marker : ℕ} {pieces : List Piece}
    (hopen : FirstAt tagOpening source marker)
    (hsplit : source.drop (marker + 2) = content ++ (tagClosing ++ rest))
    (hclose : FirstAt tagClosing (source.drop (marker + 2)) content.length)
    (hrest : Scanned rest pieces) :
    Scanned source (textPieces (source.take marker) ++ .tag (stringvTrim content) :: pieces)

def IsTemplate (source : Bytes) (f : TemplateForest) : Prop :=
  ∃ pieces, Scanned source pieces ∧ List.Forall₂ PieceToken pieces (f.tokens SectionTag.name)

theorem splitOn_takeWhile (c : UInt8) (value : Bytes) :
    value.splitOn c = value.takeWhile (· != c) ::
      match value.dropWhile (· != c) with
      | [] => []
      | _ :: next => next.splitOn c := by
  have hfree : c ∉ value.takeWhile (· != c) := fun h => by
    simpa using List.mem_takeWhile_imp h
  conv_lhs => rw [← List.takeWhile_append_dropWhile (p := (· != c)) (l := value)]
  cases hd : value.dropWhile (· != c) with
  | nil => rw [List.append_nil, List.splitOn_eq_singleton hfree]
  | cons b next =>
    have hb : b = c := by
      have := List.head?_dropWhile_not (· != c) value
      rw [hd] at this
      simpa using this
    rw [hb, List.splitOn_append_cons_self_of_not_mem hfree]

theorem templateVariableSegments_iff (rest : Bytes) :
    templateVariableSegments rest = true ↔ DottedPath rest := by
  induction hn : rest.length using Nat.strongRecOn generalizing rest with
  | _ n ih =>
    have hle := List.length_dropWhile_le (· != ch '.') rest
    rw [DottedPath, splitOn_takeWhile, templateVariableSegments]
    by_cases hid : templateIdentifier (rest.takeWhile (· != ch '.')) = true
    · rw [if_pos hid]
      split
      · rename_i hd
        rw [hd]
        simp [hid]
      · rename_i b next hd
        rw [hd, List.length_cons] at hle
        simp only [hd, List.mem_cons, forall_eq_or_imp, hid, true_and]
        by_cases hnext : next = []
        · rw [if_pos hnext, hnext]
          simp [templateIdentifier]
        · rw [if_neg hnext]
          exact ih next.length (by omega) next rfl
    · rw [if_neg hid]
      simp [hid]

theorem templateVariablePath_iff (value : Bytes) :
    templateVariablePath value = true ↔ DottedPath value := by
  unfold templateVariablePath
  split
  · rename_i h
    rw [List.length_eq_zero_iff.mp h]
    simp [DottedPath, templateIdentifier]
  · exact templateVariableSegments_iff value

theorem dottedPath_head {c : UInt8} {rest : Bytes} (h : DottedPath (c :: rest)) :
    asciiLetter c = true ∨ c = ch '_' := by
  rw [DottedPath, splitOn_takeWhile] at h
  have hfirst := h _ List.mem_cons_self
  by_cases hc : c = ch '.'
  · rw [hc, List.takeWhile_cons_of_neg (by simp)] at hfirst
    cases hfirst
  · rw [List.takeWhile_cons_of_pos (by simpa using hc), templateIdentifier] at hfirst
    simp only [Bool.and_eq_true, Bool.or_eq_true, beq_iff_eq] at hfirst
    exact hfirst.1

theorem dottedPath_not_nil : ¬ DottedPath [] := by simp [DottedPath, templateIdentifier]

theorem dottedPath_first {c d : UInt8} {rest : Bytes} (h : DottedPath (c :: rest))
    (hd : asciiLetter d = false ∧ d ≠ ch '_') : c ≠ d := by
  rintro rfl
  rcases dottedPath_head h with hc | hc
  · rw [hc] at hd
    cases hd.1
  · exact hd.2 hc

theorem templateTag_yield (state : TemplateState) :
    templateTag state (sv "yield") =
      .ok (templateInstructionPush state { type := .instructionYield }) := rfl

theorem templateTag_opening (state : TemplateState) (inverse : Bool) (rest : Bytes) :
    templateTag state ((if inverse then ch '^' else ch '#') :: rest) =
      if templateVariablePath (stringvTrim rest) then
        .ok (templateSectionPush state (sectionInstruction ⟨inverse, stringvTrim rest⟩ 0))
      else .error (sv "invalid section name") := by
  cases inverse <;> rfl

theorem templateTag_closing (state : TemplateState) (rest : Bytes) :
    templateTag state (ch '/' :: rest) =
      match state.sections with
      | [] => .error (sv "unexpected closing section")
      | innermost :: sections =>
        if !templateVariablePath (stringvTrim rest) then .error (sv "unexpected closing section")
        else if stringvEqual (stringvTrim rest) innermost.name then
          .ok ⟨state.instructions.modify innermost.instructionIndex
            (target.setJump state.instructions.length), sections⟩
        else .error (sv "mismatched closing section") := rfl

theorem templateTag_partialView (state : TemplateState) (rest : Bytes) :
    templateTag state (ch '>' :: rest) =
      if viewPathValid (stringvTrim rest) then
        .ok (templateInstructionPush state
          { type := .instructionPartial, value := stringvTrim rest })
      else .error (sv "invalid partial path") := rfl

theorem templateTag_variablePath (state : TemplateState) {c : UInt8} {rest : Bytes}
    (hy : c :: rest ≠ sv "yield") (h1 : c ≠ ch '#') (h2 : c ≠ ch '^') (h3 : c ≠ ch '/')
    (h4 : c ≠ ch '>') :
    templateTag state (c :: rest) =
      if templateVariablePath (c :: rest) then
        .ok (templateInstructionPush state { type := .instructionVariable, value := c :: rest })
      else .error (sv "invalid template expression") := by
  simp [templateTag, stringvEqual, hy, h1, h2, h3, h4]

def emitterOf (state : TemplateState) : Emitter Bytes TemplateInstruction :=
  ⟨state.instructions, state.sections.map fun s => (s.name, s.instructionIndex)⟩

theorem emitterOf_push (state : TemplateState) (a : Leaf) :
    emit target SectionTag.name (emitterOf state) (.leaf a) =
      some (emitterOf (templateInstructionPush state (leafInstruction a))) := rfl

theorem emitterOf_sectionPush (state : TemplateState) (tag : SectionTag) :
    emit target SectionTag.name (emitterOf state) (.opening tag) =
      some (emitterOf (templateSectionPush state (sectionInstruction tag 0))) := rfl

theorem emitterOf_injective {s t : TemplateState} (h : emitterOf s = emitterOf t) : s = t := by
  obtain ⟨is, ss⟩ := s
  obtain ⟨it, st⟩ := t
  simp only [emitterOf, Emitter.mk.injEq] at h
  obtain ⟨rfl, hs⟩ := h
  rw [List.map_inj_right (by rintro ⟨n, i⟩ ⟨m, j⟩ hnm; simpa using hnm)] at hs
  rw [hs]

theorem emitterOf_surjective (emitter : Emitter Bytes TemplateInstruction) :
    ∃ state, emitterOf state = emitter := by
  obtain ⟨code, stack⟩ := emitter
  exact ⟨⟨code, stack.map fun entry => ⟨entry.1, entry.2⟩⟩, by simp [emitterOf, Function.comp_def]⟩

theorem templateTag_closing_emit {state next : TemplateState} {rest : Bytes} :
    templateTag state (ch '/' :: rest) = .ok next ↔
      DottedPath (stringvTrim rest) ∧
        emit target SectionTag.name (emitterOf state) (.closing (stringvTrim rest)) =
          some (emitterOf next) := by
  rw [templateTag_closing, ← templateVariablePath_iff]
  obtain ⟨instructions, sections⟩ := state
  cases sections with
  | nil => simp [emit, emitterOf]
  | cons innermost sections =>
    by_cases hpath : templateVariablePath (stringvTrim rest) = true
    · by_cases hname : stringvTrim rest = innermost.name
      · rw [hname] at hpath
        simp only [hname, hpath, Bool.not_true, Bool.false_eq_true, if_false, stringvEqual,
          BEq.rfl, if_true, true_and, emit, emitterOf, List.map_cons, Except.ok.injEq,
          Option.some.injEq]
        refine ⟨fun h => congrArg emitterOf h, fun h => ?_⟩
        exact @emitterOf_injective ⟨_, sections⟩ next h
      · simp [hpath, stringvEqual, hname, emit, emitterOf]
    · simp [hpath]

theorem templateTag_emit {state next : TemplateState} {tag : Bytes} :
    templateTag state tag = .ok next ↔
      ∃ token, TagToken tag token ∧
        emit target SectionTag.name (emitterOf state) token = some (emitterOf next) := by
  constructor
  · intro h
    by_cases hy : tag = sv "yield"
    · subst hy
      rw [templateTag_yield, Except.ok.injEq] at h
      exact ⟨_, .layoutYield, by rw [emitterOf_push, ← h]; rfl⟩
    cases tag with
    | nil => cases h
    | cons c rest =>
      by_cases h1 : c = ch '#'
      · subst h1
        rw [show ch '#' :: rest = (if false then ch '^' else ch '#') :: rest from rfl,
          templateTag_opening] at h
        split_ifs at h with hpath
        cases h
        exact ⟨_, .opening rest ((templateVariablePath_iff _).mp hpath), emitterOf_sectionPush _ _⟩
      by_cases h2 : c = ch '^'
      · subst h2
        rw [show ch '^' :: rest = (if true then ch '^' else ch '#') :: rest from rfl,
          templateTag_opening] at h
        split_ifs at h with hpath
        cases h
        exact ⟨_, .inverse rest ((templateVariablePath_iff _).mp hpath), emitterOf_sectionPush _ _⟩
      by_cases h3 : c = ch '/'
      · subst h3
        obtain ⟨hpath, hemit⟩ := templateTag_closing_emit.mp h
        exact ⟨_, .closing rest hpath, hemit⟩
      by_cases h4 : c = ch '>'
      · subst h4
        rw [templateTag_partialView] at h
        split_ifs at h with hpath
        cases h
        exact ⟨_, .partialView rest hpath, emitterOf_push _ _⟩
      · rw [templateTag_variablePath state hy h1 h2 h3 h4] at h
        split_ifs at h with hpath
        cases h
        exact ⟨_, .variablePath _ ((templateVariablePath_iff _).mp hpath) hy, emitterOf_push _ _⟩
  · rintro ⟨token, htoken, hemit⟩
    cases htoken with
    | layoutYield =>
      rw [emitterOf_push, Option.some.injEq] at hemit
      rw [templateTag_yield, ← emitterOf_injective hemit]
      rfl
    | opening rest hpath =>
      rw [emitterOf_sectionPush, Option.some.injEq] at hemit
      rw [show ch '#' :: rest = (if false then ch '^' else ch '#') :: rest from rfl,
        templateTag_opening, if_pos ((templateVariablePath_iff _).mpr hpath),
        emitterOf_injective hemit]
    | inverse rest hpath =>
      rw [emitterOf_sectionPush, Option.some.injEq] at hemit
      rw [show ch '^' :: rest = (if true then ch '^' else ch '#') :: rest from rfl,
        templateTag_opening, if_pos ((templateVariablePath_iff _).mpr hpath),
        emitterOf_injective hemit]
    | closing rest hpath => exact templateTag_closing_emit.mpr ⟨hpath, hemit⟩
    | partialView rest hpath =>
      rw [emitterOf_push, Option.some.injEq] at hemit
      rw [templateTag_partialView, if_pos hpath, ← emitterOf_injective hemit]
      rfl
    | variablePath path hpath hy =>
      rw [emitterOf_push, Option.some.injEq] at hemit
      cases tag with
      | nil => exact absurd hpath dottedPath_not_nil
      | cons c rest =>
        rw [templateTag_variablePath state hy (dottedPath_first hpath (by decide))
          (dottedPath_first hpath (by decide)) (dottedPath_first hpath (by decide))
          (dottedPath_first hpath (by decide)), if_pos ((templateVariablePath_iff _).mpr hpath),
          ← emitterOf_injective hemit]
        rfl

def textTokens (text : Bytes) : List TemplateToken :=
  if text.length = 0 then [] else [.leaf (.text text)]

theorem emitAll_text (state : TemplateState) (text : Bytes) :
    emitAll target SectionTag.name (emitterOf state) (textTokens text) =
      some (emitterOf (templateTextPush state text)) := by
  unfold textTokens templateTextPush
  split_ifs <;> rfl

theorem pieceTokens_text {text : Bytes} {tokens : List TemplateToken} :
    List.Forall₂ PieceToken (textPieces text) tokens ↔ tokens = textTokens text := by
  unfold textPieces textTokens
  split_ifs
  · rw [List.forall₂_nil_left_iff]
  · constructor
    · rintro (_ | ⟨⟨⟩, ⟨⟩⟩)
      rfl
    · rintro rfl
      exact .cons (.text text) .nil

theorem scanned_text {source : Bytes} {pieces : List Piece}
    (h : ∀ i, ¬ OccursAt tagOpening source i) :
    Scanned source pieces ↔ pieces = textPieces source := by
  constructor
  · rintro (_ | ⟨hopen, -, -, -⟩)
    · rfl
    · exact absurd hopen.1 (h _)
  · rintro rfl
    exact .text h

theorem scanned_unclosed {source : Bytes} {marker : ℕ} {pieces : List Piece}
    (hopen : FirstAt tagOpening source marker)
    (h : ∀ i, ¬ OccursAt tagClosing (source.drop (marker + 2)) i) : ¬ Scanned source pieces := by
  rintro (hnone | ⟨hopen', -, hclose, -⟩)
  · exact hnone _ hopen.1
  · rw [firstAt_unique hopen' hopen] at hclose
    exact h _ hclose.1

theorem scanned_tag {source : Bytes} {marker length : ℕ} {pieces : List Piece}
    (hopen : FirstAt tagOpening source marker)
    (hclose : FirstAt tagClosing (source.drop (marker + 2)) length) :
    Scanned source pieces ↔
      ∃ next, pieces = textPieces (source.take marker) ++
          .tag (stringvTrim ((source.drop (marker + 2)).take length)) :: next ∧
        Scanned (source.drop (marker + 2 + length + 2)) next := by
  have htwo : tagClosing.length = 2 := by decide
  have hbound := occursAt_bound hclose.1 (by decide)
  constructor
  · rintro (hnone | ⟨hopen', hsplit, hclose', hrest⟩)
    · exact absurd hopen.1 (hnone _)
    · rename_i content rest marker' next
      obtain rfl := firstAt_unique hopen' hopen
      obtain rfl := firstAt_unique hclose' hclose
      refine ⟨next, ?_, ?_⟩
      · rw [hsplit, List.take_left]
      · rw [Nat.add_assoc, ← List.drop_drop, hsplit, ← List.append_assoc, ← htwo,
          ← List.length_append, List.drop_left]
        exact hrest
  · rintro ⟨next, rfl, hrest⟩
    have hlen : ((source.drop (marker + 2)).take length).length = length := by
      rw [List.length_take]
      omega
    have hsplit' : source.drop (marker + 2) = (source.drop (marker + 2)).take length ++
        (tagClosing ++ source.drop (marker + 2 + length + 2)) := by
      have hsplit := occursAt_split hclose.1
      rwa [List.drop_drop, ← Nat.add_assoc, htwo] at hsplit
    exact .tag hopen hsplit' (by rwa [hlen]) hrest

theorem pieceTokens_tag {text content : Bytes} {pieces : List Piece}
    {tokens : List TemplateToken} :
    List.Forall₂ PieceToken (textPieces text ++ .tag content :: pieces) tokens ↔
      ∃ token next, tokens = textTokens text ++ token :: next ∧ TagToken content token ∧
        List.Forall₂ PieceToken pieces next := by
  constructor
  · unfold textPieces textTokens
    split_ifs
    · rintro (_ | ⟨hpiece, hnext⟩)
      cases hpiece with
      | tag htoken => exact ⟨_, _, rfl, htoken, hnext⟩
    · rintro (_ | ⟨⟨⟩, _ | ⟨hpiece, hnext⟩⟩)
      cases hpiece with
      | tag htoken => exact ⟨_, _, rfl, htoken, hnext⟩
  · rintro ⟨token, next, rfl, htoken, hnext⟩
    exact List.rel_append (pieceTokens_text.mpr rfl) (.cons (.tag htoken) hnext)

/-- What is left of the source, read from a state of the parser, leads to the last state. -/
def Reads (source : Bytes) (state last : TemplateState) : Prop :=
  ∃ pieces tokens, Scanned source pieces ∧ List.Forall₂ PieceToken pieces tokens ∧
    emitAll target SectionTag.name (emitterOf state) tokens = some (emitterOf last)

theorem reads_text {source : Bytes} {state last : TemplateState}
    (h : ∀ i, ¬ OccursAt tagOpening source i) :
    Reads source state last ↔ templateTextPush state source = last := by
  unfold Reads
  simp only [scanned_text h]
  constructor
  · rintro ⟨pieces, tokens, rfl, htokens, hemit⟩
    rw [pieceTokens_text.mp htokens, emitAll_text, Option.some.injEq] at hemit
    exact emitterOf_injective hemit
  · rintro rfl
    exact ⟨_, _, rfl, pieceTokens_text.mpr rfl, emitAll_text state _⟩

theorem reads_tag {source : Bytes} {marker length : ℕ} {state last : TemplateState}
    (hopen : FirstAt tagOpening source marker)
    (hclose : FirstAt tagClosing (source.drop (marker + 2)) length) :
    Reads source state last ↔
      ∃ next, templateTag (templateTextPush state (source.take marker))
          (stringvTrim ((source.drop (marker + 2)).take length)) = .ok next ∧
        Reads (source.drop (marker + 2 + length + 2)) next last := by
  unfold Reads
  simp only [scanned_tag hopen hclose]
  constructor
  · rintro ⟨pieces, tokens, ⟨rest, rfl, hrest⟩, htokens, hemit⟩
    obtain ⟨token, next, rfl, htoken, hnext⟩ := pieceTokens_tag.mp htokens
    rw [emitAll_append, emitAll_text, Option.bind_some, emitAll] at hemit
    obtain ⟨emitter, htag, hemit⟩ := Option.bind_eq_some_iff.mp hemit
    obtain ⟨state', rfl⟩ := emitterOf_surjective emitter
    exact ⟨state', templateTag_emit.mpr ⟨token, htoken, htag⟩, rest, next, hrest, hnext, hemit⟩
  · rintro ⟨state', htag, rest, next, hrest, hnext, hemit⟩
    obtain ⟨token, htoken, htag⟩ := templateTag_emit.mp htag
    refine ⟨_, textTokens (source.take marker) ++ token :: next, ⟨rest, rfl, hrest⟩,
      pieceTokens_tag.mpr ⟨token, next, rfl, htoken, hnext⟩, ?_⟩
    rw [emitAll_append, emitAll_text, Option.bind_some, emitAll, htag, Option.bind_some, hemit]

/-- A scan succeeds exactly when the remaining source cuts into pieces whose
    tokens the emitter takes from the current state. -/
theorem templateScan_reads (source : Bytes) (cursor : ℕ) (state last : TemplateState) :
    templateScan source cursor state = .ok last ↔ Reads (source.drop cursor) state last := by
  induction hn : source.length - cursor using Nat.strongRecOn generalizing cursor state with
  | _ n ih =>
    have hfrom : stringvFrom source cursor = source.drop cursor := rfl
    rw [templateScan, hfrom]
    by_cases hcursor : cursor < source.length
    · rw [dif_pos hcursor]
      cases hopen : stringvFind (source.drop cursor) tagOpening with
      | none =>
        rw [stringvFind_none (by decide)] at hopen
        dsimp only
        rw [Except.ok.injEq, reads_text hopen]
      | some relative =>
        rw [stringvFind_some (by decide)] at hopen
        have hdrop : stringvFrom source (cursor + relative + 2) =
            (source.drop cursor).drop (relative + 2) := by
          rw [List.drop_drop, stringvFrom, Nat.add_assoc]
        dsimp only
        cases hclose : stringvFind (stringvFrom source (cursor + relative + 2)) tagClosing with
        | none =>
          rw [stringvFind_none (by decide), hdrop] at hclose
          have hnone : ∀ pieces, ¬ Scanned (source.drop cursor) pieces :=
            fun _ => scanned_unclosed hopen hclose
          simp [Reads, hnone]
        | some closeRelative =>
          rw [stringvFind_some (by decide), hdrop] at hclose
          have hrest : source.drop (cursor + relative + 2 + closeRelative + 2) =
              (source.drop cursor).drop (relative + 2 + closeRelative + 2) := by
            rw [List.drop_drop]
            congr 1
            omega
          have htext : stringvSlice source cursor (cursor + relative - cursor) =
              (source.drop cursor).take relative := by
            rw [stringvSlice, Nat.add_sub_cancel_left]
          have hcontent : stringvSlice source (cursor + relative + 2)
              (cursor + relative + 2 + closeRelative - (cursor + relative) - 2) =
              ((source.drop cursor).drop (relative + 2)).take closeRelative := by
            rw [← hdrop, stringvSlice, stringvFrom]
            congr 1
            omega
          rw [reads_tag hopen hclose]
          dsimp only
          rw [htext, hcontent]
          cases htag : templateTag _ _ with
          | error message => simp
          | ok next =>
            dsimp only
            rw [ih _ (by omega) _ _ rfl, hrest]
            simp
    · rw [dif_neg hcursor, Except.ok.injEq]
      have hnil : source.drop cursor = [] := List.drop_eq_nil_iff.mpr (by omega)
      have hnone : ∀ i, ¬ OccursAt tagOpening [] i := fun i h => by
        have := occursAt_bound h (by decide)
        simp [show tagOpening.length = 2 by decide] at this
      rw [hnil, reads_text hnone]
      rfl

theorem templateParse_iff (source sourceName : Bytes) (program : TemplateProgram) :
    (templateParse source sourceName).ok = true ∧
        (templateParse source sourceName).program = program ↔
      ∃ f, IsTemplate source f ∧ program = ⟨forestProgram f, sourceName⟩ := by
  have hscan := fun instructions => templateScan_reads source 0 {} ⟨instructions, []⟩
  have hreads (instructions : List TemplateInstruction) :
      Reads (source.drop 0) {} ⟨instructions, []⟩ ↔
        ∃ f, IsTemplate source f ∧ instructions = forestProgram f := by
    constructor
    · rintro ⟨pieces, tokens, hpieces, htokens, hemit⟩
      obtain ⟨f, rfl, rfl⟩ := (emitAll_iff target SectionTag.name tokens instructions).mp hemit
      exact ⟨f, ⟨pieces, hpieces, htokens⟩, rfl⟩
    · rintro ⟨f, ⟨pieces, hpieces, htokens⟩, rfl⟩
      exact ⟨pieces, _, hpieces, htokens,
        (emitAll_iff target SectionTag.name _ _).mpr ⟨f, rfl, rfl⟩⟩
  unfold templateParse
  cases h : templateScan source 0 {} with
  | error e =>
    have hnone : ∀ f, ¬ IsTemplate source f := fun f hf => by
      have := (hscan _).mpr ((hreads _).mpr ⟨f, hf, rfl⟩)
      rw [h] at this
      cases this
    simp [hnone]
  | ok last =>
    obtain ⟨instructions, sections⟩ := last
    cases sections with
    | nil =>
      have hlast := fun is => (hscan is).trans (hreads is)
      simp only [h, Except.ok.injEq, TemplateState.mk.injEq, and_true] at hlast
      simp only [ne_eq, not_true_eq_false, if_false, true_and]
      constructor
      · rintro rfl
        obtain ⟨f, hf, hcode⟩ := (hlast instructions).mp rfl
        exact ⟨f, hf, by rw [hcode]⟩
      · rintro ⟨f, hf, rfl⟩
        rw [(hlast _).mpr ⟨f, hf, rfl⟩]
    | cons innermost sections =>
      have hnone : ∀ f, ¬ IsTemplate source f := fun f hf => by
        have := (hscan _).mpr ((hreads _).mpr ⟨f, hf, rfl⟩)
        rw [h] at this
        cases this
      simp [hnone]

theorem templateParse_ok (source sourceName : Bytes) :
    (templateParse source sourceName).ok = true ↔ ∃ f, IsTemplate source f := by
  constructor
  · intro h
    obtain ⟨f, hf, -⟩ := (templateParse_iff source sourceName _).mp ⟨h, rfl⟩
    exact ⟨f, hf⟩
  · rintro ⟨f, hf⟩
    exact ((templateParse_iff source sourceName _).mpr ⟨f, hf, rfl⟩).1

theorem templateParse_zeroed {source sourceName : Bytes}
    (h : (templateParse source sourceName).ok = false) :
    (templateParse source sourceName).program = {} := by
  unfold templateParse at *
  split at h
  · rfl
  · split_ifs at h ⊢
    rfl

/-- Every section jumps forward, inside the program, and the ranges that sections
    span are nested or apart. -/
structure LaminarJumps (instructions : List TemplateInstruction) : Prop where
  bounds : ∀ i instruction, instructions[i]? = some instruction → isSection instruction = true →
    i + 1 ≤ instruction.jump ∧ instruction.jump ≤ instructions.length
  laminar : ∀ i k outer inner, instructions[i]? = some outer → isSection outer = true →
    instructions[k]? = some inner → isSection inner = true → i < k →
      outer.jump ≤ k ∨ inner.jump ≤ outer.jump

theorem jump_section {instruction : TemplateInstruction} (h : isSection instruction = true) :
    target.jump? instruction = some instruction.jump := if_pos h

theorem forestProgram_laminar (f : TemplateForest) : LaminarJumps (forestProgram f) where
  bounds i instruction hi hsection := by
    have := Forest.jump_bounds target hi (jump_section hsection)
    rw [forestProgram, Forest.flatten_length]
    omega
  laminar i k outer inner hi houter hk hinner hik := by
    have := Forest.jump_laminar target hi (jump_section houter) hk (jump_section hinner) hik
    omega

/-- The parser accepts the templates, turns them into their flattened trees and
    leaves a zeroed program for every other source. -/
theorem templateParse_flattens (source sourceName : Bytes) :
    ((templateParse source sourceName).ok = true ↔ ∃ f, IsTemplate source f) ∧
    (∀ f, IsTemplate source f →
      (templateParse source sourceName).program = ⟨forestProgram f, sourceName⟩) ∧
    LaminarJumps (templateParse source sourceName).program.instructions ∧
    ((templateParse source sourceName).ok = false →
      (templateParse source sourceName).program = {}) := by
  refine ⟨templateParse_ok source sourceName, fun f hf => ?_, ?_, templateParse_zeroed⟩
  · exact ((templateParse_iff source sourceName _).mpr ⟨f, hf, rfl⟩).2
  · cases h : (templateParse source sourceName).ok with
    | true =>
      obtain ⟨f, -, hprogram⟩ := (templateParse_iff source sourceName _).mp ⟨h, rfl⟩
      rw [hprogram]
      exact forestProgram_laminar f
    | false =>
      rw [templateParse_zeroed h]
      exact forestProgram_laminar .nil

end Ceasy.TemplateGrammar
