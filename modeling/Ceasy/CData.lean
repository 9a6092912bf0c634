import Ceasy.CLiteral
import Ceasy.Transducer

set_option autoImplicit false

/-!
# The data of a C source file

Objects with initialisers and functions, read from the text of a file: trigraphs are
replaced, comments and directives are left out, and what remains is read as tokens and
these as external declarations. There are no character constants, macros, prototypes or
nested declarations among the forms that are read.
-/
namespace Ceasy.CData
open CLiteral Transducer

/-- A literal is what stands behind its opening quote. -/
inductive Token where
  | word (text : List UInt8)
  | mark (c : UInt8)
  | literal (text : List UInt8)
deriving DecidableEq, Repr

def isWord (c : UInt8) : Bool :=
  (code 'a' ≤ c && c ≤ code 'z') || (code 'A' ≤ c && c ≤ code 'Z') ||
    (code '0' ≤ c && c ≤ code '9') || c == code '_'

def isBlank (c : UInt8) : Bool := c == 32 || (9 ≤ c && c ≤ 13)

inductive Mode where
  /-- At the beginning of a line. -/
  | fresh
  | plain
  | slash
  | comment
  /-- Behind an asterisk in a comment. -/
  | star
  /-- The rest of the line is left out. -/
  | directive
  | literal
  | escape
deriving DecidableEq, Repr

/-- With the word or the literal that has been read so far. -/
abbrev LexState := Mode × List UInt8

def ended (word : List UInt8) : List Token := if word = [] then [] else [.word word]

def lexPlain (mode : Mode) (word : List UInt8) (c : UInt8) : List Token × LexState :=
  if isWord c then ([], .plain, word ++ [c])
  else if c = code '\n' then (ended word, .fresh, [])
  else if isBlank c then (ended word, if word = [] then mode else .plain, [])
  else if c = code '/' then (ended word, .slash, [])
  else if c = code '"' then (ended word, .literal, [])
  else if c = code '#' ∧ mode = .fresh then (ended word, .directive, [])
  else (ended word ++ [.mark c], .plain, [])

def lexStep : LexState → UInt8 → List Token × LexState
  | (.fresh, word), c => lexPlain .fresh word c
  | (.plain, word), c => lexPlain .plain word c
  | (.slash, _), c =>
    if c = code '*' then ([], .comment, [])
    else if c = code '/' then ([], .directive, [])
    else (.mark (code '/') :: (lexPlain .plain [] c).1, (lexPlain .plain [] c).2)
  | (.comment, _), c => ([], if c = code '*' then .star else .comment, [])
  | (.star, _), c => ([], if c = code '/' then .plain else if c = code '*' then .star else .comment, [])
  | (.directive, _), c => ([], if c = code '\n' then .fresh else .directive, [])
  | (.literal, text), c =>
    if c = code '"' then ([.literal (text ++ [c])], .plain, [])
    else ([], if c = code '\\' then .escape else .literal, text ++ [c])
  | (.escape, text), c => ([], .literal, text ++ [c])

def tokens (text : List UInt8) : List Token :=
  let (read, left) := transduce lexStep (.fresh, []) (replaceTrigraphs text)
  read ++ ended left.2

/-- The items of a list have the members they name. -/
inductive Initializer where
  | scalar (tokens : List Token)
  | list (items : List (Option (List UInt8) × Initializer))

inductive External where
  | object (head : List Token) (value : Initializer)
  | function (head body : List Token)

structure Frame where
  items : List (Option (List UInt8) × Initializer) := []
  field : Option (List UInt8) := none

/-- A list ends behind an item or behind a comma. -/
def Frame.close (frame : Frame) (pending : Initializer) : Initializer :=
  match pending, frame.field with
  | .scalar [], none => .list frame.items
  | _, field => .list (frame.items ++ [(field, pending)])

inductive ReadState where
  | head (tokens : List Token)
  | value (head : List Token) (frames : List Frame) (pending : Initializer)
  | body (head : List Token) (depth : ℕ) (tokens : List Token)

def Initializer.push (pending : Initializer) (token : Token) : Initializer :=
  match pending with
  | .scalar tokens => .scalar (tokens ++ [token])
  | .list items => .list items

def Frame.designate (frame : Frame) : Initializer → Option Frame
  | .scalar [.mark c, .word field] => if c = code '.' then some { frame with field := some field } else none
  | _ => none

def readValue (head : List Token) (frames : List Frame) (pending : Initializer) (token : Token) :
    List External × ReadState :=
  match frames with
  | [] =>
    if token = .mark (code '{') then ([], .value head [{}] (.scalar []))
    else if token = .mark (code ';') then ([.object head pending], .head [])
    else ([], .value head [] (pending.push token))
  | frame :: outer =>
    if token = .mark (code '{') then ([], .value head ({} :: frame :: outer) (.scalar []))
    else if token = .mark (code '}') then ([], .value head outer (frame.close pending))
    else if token = .mark (code ',') then
      ([], .value head (⟨frame.items ++ [(frame.field, pending)], none⟩ :: outer) (.scalar []))
    else if token = .mark (code '=') then
      match frame.designate pending with
      | some frame => ([], .value head (frame :: outer) (.scalar []))
      | none => ([], .value head (frame :: outer) (pending.push token))
    else ([], .value head (frame :: outer) (pending.push token))

def readStep : ReadState → Token → List External × ReadState
  | .head tokens, token =>
    if token = .mark (code '=') then ([], .value tokens [] (.scalar []))
    else if token = .mark (code '{') then ([], .body tokens 0 [])
    else if token = .mark (code ';') then ([], .head [])
    else ([], .head (tokens ++ [token]))
  | .value head frames pending, token => readValue head frames pending token
  | .body head depth tokens, token =>
    if token = .mark (code '}') then
      match depth with
      | 0 => ([.function head tokens], .head [])
      | depth + 1 => ([], .body head depth (tokens ++ [token]))
    else
      ([], .body head (if token = .mark (code '{') then depth + 1 else depth) (tokens ++ [token]))

def externals (text : List UInt8) : List External := (transduce readStep (.head []) (tokens text)).1

def numberOf : List UInt8 → Option ℕ
  | [] => none
  | [c] => if code '0' ≤ c && c ≤ code '9' then some (hexValue c) else none
  | first :: second :: rest =>
    if first = code '0' then
      if second = code 'x' ∨ second = code 'X' then
        if rest ≠ [] ∧ rest.all isHex then some (digitsValue 16 rest) else none
      else if (second :: rest).all isOctal then some (digitsValue 8 (second :: rest)) else none
    else if (first :: second :: rest).all fun c => code '0' ≤ c && c ≤ code '9' then
      some (digitsValue 10 (first :: second :: rest))
    else none

namespace Initializer

def number : Initializer → Option ℕ
  | .scalar [.word text] => numberOf text
  | _ => none

def name : Initializer → Option (List UInt8)
  | .scalar [.word text] => some text
  | _ => none

def items : Initializer → Option (List (Option (List UInt8) × Initializer))
  | .list items => some items
  | .scalar _ => none

def elements (value : Initializer) : Option (List Initializer) :=
  value.items.bind fun items => items.mapM fun item => if item.1 = none then some item.2 else none

def member (field : List UInt8) (value : Initializer) : Option Initializer :=
  value.items.bind fun items => (items.find? fun item => item.1 == some field).map Prod.snd

end Initializer

/-- What the object that is declared in this way is initialised with. -/
def External.value? (head : List Token) : External → Option Initializer
  | .object other value => if other = head then some value else none
  | .function .. => none

def External.body? (head : List Token) : External → Option (List Token)
  | .object .. => none
  | .function other body => if other = head then some body else none

def valueOf (file : List External) (head : List Token) : Option Initializer := file.findSome? (External.value? head)

def bodyOf (file : List External) (head : List Token) : Option (List Token) := file.findSome? (External.body? head)

variable {text piece rest before : List UInt8} {written : List Token} {last : LexState} {c : UInt8}

/-- No trigraph lies across the end of a text that does not end in a question mark. -/
theorem replaceTrigraphs_parts (h : text.getLast? ≠ some (code '?')) (rest : List UInt8) :
    replaceTrigraphs (text ++ rest) = replaceTrigraphs text ++ replaceTrigraphs rest := by
  induction hlength : text.length using Nat.strong_induction_on generalizing text with
  | _ length ih =>
    subst hlength
    match text, h with
    | [], _ => rfl
    | [a], h =>
      have hplain : a ≠ code '?' := fun heq => h (by rw [heq]; rfl)
      rw [List.singleton_append, replaceTrigraphs_plain hplain]
      rfl
    | [a, b], h =>
      have hplain : b ≠ code '?' := fun heq => h (by rw [heq]; rfl)
      have hleading : leadingTrigraph (a :: b :: rest) = none := by
        by_cases hfirst : a = code '?'
        · rw [hfirst]
          exact leadingTrigraph_single hplain
        · exact leadingTrigraph_plain hfirst
      rw [List.cons_append, List.singleton_append, replaceTrigraphs_cons hleading, replaceTrigraphs_plain hplain]
      rfl
    | a :: b :: d :: text, h =>
      have hshorter : ∀ {shorter : List UInt8}, shorter.length < (a :: b :: d :: text).length →
          shorter.getLast? ≠ some (code '?') →
          replaceTrigraphs (shorter ++ rest) = replaceTrigraphs shorter ++ replaceTrigraphs rest :=
        fun hlt hlast => ih _ hlt hlast rfl
      rw [List.getLast?_cons_cons] at h
      cases hleading : leadingTrigraph (a :: b :: d :: text) with
      | none =>
        have hboth : leadingTrigraph (a :: (b :: d :: text ++ rest)) = none := hleading
        rw [List.cons_append, replaceTrigraphs_cons hboth, replaceTrigraphs_cons hleading,
          hshorter (Nat.lt_succ_self _) h, List.cons_append]
      | some replaced =>
        obtain ⟨third, tail, heq, htrigraph⟩ := leadingTrigraph_some hleading
        cases heq
        have hlast : text.getLast? ≠ some (code '?') := by
          cases text with
          | nil => simp
          | cons e text =>
            rw [List.getLast?_cons_cons, List.getLast?_cons_cons] at h
            exact h
        rw [List.cons_append, List.cons_append, List.cons_append, replaceTrigraphs_trigraph htrigraph,
          replaceTrigraphs_trigraph htrigraph, hshorter (by simp only [List.length_cons]; omega) hlast,
          List.cons_append]

/-- A text that phase 1 leaves as it is, whatever follows. -/
def Steady (text : List UInt8) : Prop :=
  replaceTrigraphs text = text ∧ text.getLast? ≠ some (code '?')

instance (text : List UInt8) : Decidable (Steady text) := inferInstanceAs (Decidable (_ ∧ _))

theorem steady_of_markless (h : ∀ c ∈ text, c ≠ code '?') : Steady text := by
  refine ⟨?_, fun hlast => h _ (List.mem_of_getLast? hlast) rfl⟩
  have hnothing := replaceTrigraphs_append h []
  rw [List.append_nil, replaceTrigraphs_nil, List.append_nil] at hnothing
  exact hnothing

theorem Steady.append (h : Steady text) (hrest : Steady rest) : Steady (text ++ rest) := by
  refine ⟨by rw [replaceTrigraphs_parts h.2, h.1, hrest.1], fun hlast => ?_⟩
  rw [List.getLast?_append] at hlast
  cases hcase : rest.getLast? with
  | none =>
    rw [hcase, Option.none_or] at hlast
    exact h.2 hlast
  | some last =>
    rw [hcase, Option.some_or] at hlast
    exact hrest.2 (hcase.trans hlast)

theorem Steady.flatMap {ι : Type*} {items : List ι} {write : ι → List UInt8}
    (h : ∀ item ∈ items, Steady (write item)) : Steady (items.flatMap write) := by
  induction items with
  | nil => exact ⟨rfl, by simp⟩
  | cons item items ih =>
    rw [List.flatMap_cons]
    exact (h item List.mem_cons_self).append (ih fun other hmem => h other (List.mem_cons_of_mem _ hmem))

theorem lexPlain_word (h : isWord c = true) (mode : Mode) (before : List UInt8) :
    lexPlain mode before c = ([], .plain, before ++ [c]) := if_pos h

theorem reads_word (h : ∀ c ∈ text, isWord c = true) (before : List UInt8) :
    Reads lexStep (.plain, before) text [] (.plain, before ++ text) := by
  induction text generalizing before with
  | nil =>
    rw [List.append_nil]
    exact .nil lexStep _
  | cons c text ih =>
    have hrest := ih (fun d hd => h d (List.mem_cons_of_mem _ hd)) (before ++ [c])
    rw [List.append_assoc, List.singleton_append] at hrest
    have hstep : lexStep (.plain, before) c = ([], .plain, before ++ [c]) :=
      lexPlain_word (h c List.mem_cons_self) .plain before
    exact .cons hstep hrest

theorem lexPlain_stop (h : isWord c = false) (hword : before ≠ []) :
    lexPlain .plain before c = (.word before :: (lexPlain .plain [] c).1, (lexPlain .plain [] c).2) := by
  unfold lexPlain ended
  rw [if_neg hword, h]
  simp only [Bool.false_eq_true, if_false, reduceCtorEq, and_false, if_true, List.nil_append, List.singleton_append]
  split_ifs <;> rfl

theorem reads_stop (h : Reads lexStep (.plain, []) (c :: rest) written last) (hstop : isWord c = false)
    (hword : before ≠ []) : Reads lexStep (.plain, before) (c :: rest) (.word before :: written) last := by
  unfold Reads at *
  rw [transduce] at h ⊢
  have hstep : lexStep (.plain, before) c = _ := lexPlain_stop hstop hword
  rw [hstep]
  cases h
  rfl

theorem reads_behind (h : Reads lexStep (.plain, []) text written last)
    (hstop : (text.head?.any fun c => !isWord c) = true) (hword : before ≠ []) :
    Reads lexStep (.plain, before) text (.word before :: written) last := by
  cases text with
  | nil => cases hstop
  | cons c rest => exact reads_stop h (by simpa using hstop) hword

/-- What stands in a literal for one character. -/
inductive Piece : List UInt8 → Prop where
  | plain {text : List UInt8} (h : ∀ c ∈ text, c ≠ code '"' ∧ c ≠ code '\\') : Piece text
  | escape (c : UInt8) {text : List UInt8} (h : ∀ c ∈ text, c ≠ code '"' ∧ c ≠ code '\\') :
    Piece (code '\\' :: c :: text)

theorem reads_inside (h : ∀ c ∈ text, c ≠ code '"' ∧ c ≠ code '\\') (before : List UInt8) :
    Reads lexStep (.literal, before) text [] (.literal, before ++ text) := by
  induction text generalizing before with
  | nil =>
    rw [List.append_nil]
    exact .nil lexStep _
  | cons c text ih =>
    obtain ⟨hquote, hbackslash⟩ := h c List.mem_cons_self
    have hrest := ih (fun d hd => h d (List.mem_cons_of_mem _ hd)) (before ++ [c])
    rw [List.append_assoc, List.singleton_append] at hrest
    have hstep : lexStep (.literal, before) c = ([], .literal, before ++ [c]) := by
      unfold lexStep
      dsimp only
      rw [if_neg hquote, if_neg hbackslash]
    exact .cons hstep hrest

theorem Piece.reads (h : Piece piece) (before : List UInt8) :
    Reads lexStep (.literal, before) piece [] (.literal, before ++ piece) := by
  cases h with
  | plain h => exact reads_inside h before
  | @escape c text h =>
    have hrest := reads_inside h (before ++ [code '\\'] ++ [c])
    simp only [List.append_assoc, List.singleton_append] at hrest
    have hbackslash : lexStep (.literal, before) (code '\\') = ([], .escape, before ++ [code '\\']) := rfl
    have hescaped : lexStep (.escape, before ++ [code '\\']) c = ([], .literal, before ++ [code '\\', c]) := by
      unfold lexStep
      dsimp only
      rw [List.append_assoc, List.singleton_append]
    exact .cons hbackslash (.cons hescaped hrest)

theorem reads_pieces {ι : Type*} {items : List ι} {write : ι → List UInt8}
    (h : ∀ item ∈ items, Piece (write item)) (before : List UInt8) :
    Reads lexStep (.literal, before) (items.flatMap write ++ [code '"'])
      [.literal (before ++ (items.flatMap write ++ [code '"']))] (.plain, []) := by
  induction items generalizing before with
  | nil =>
    have hclose : lexStep (.literal, before) (code '"') = ([.literal (before ++ [code '"'])], .plain, []) := rfl
    exact .cons hclose (.nil lexStep _)
  | cons item items ih =>
    have hrest := ih (fun other hmem => h other (List.mem_cons_of_mem _ hmem)) (before ++ write item)
    rw [List.flatMap_cons]
    simp only [List.append_assoc] at hrest ⊢
    exact ((h item List.mem_cons_self).reads before).append hrest

theorem tokens_of_reads {left : List UInt8} {mode : Mode} (hsteady : Steady text)
    (h : Reads lexStep (.fresh, []) text written (mode, left)) : tokens text = written ++ ended left := by
  unfold tokens
  rw [hsteady.1, h]

def Denotes (tokens : List Token) (value : Initializer) : Prop :=
  ∀ head frames, Reads readStep (.value head frames (.scalar [])) tokens [] (.value head frames value)

theorem denotes_word (text : List UInt8) : Denotes [.word text] (.scalar [.word text]) := by
  intro head frames
  cases frames with
  | nil => rfl
  | cons frame outer => rfl

theorem denotes_literal (text : List UInt8) : Denotes [.literal text] (.scalar [.literal text]) := by
  intro head frames
  cases frames with
  | nil => rfl
  | cons frame outer => rfl

abbrev Members := List (List UInt8 × List Token × Initializer)

def memberTokens : Members → List Token
  | [] => []
  | [(field, tokens, _)] => .mark (code '.') :: .word field :: .mark (code '=') :: tokens
  | (field, tokens, _) :: rest =>
    .mark (code '.') :: .word field :: .mark (code '=') :: (tokens ++ .mark (code ',') :: memberTokens rest)

def structTokens (members : Members) : List Token :=
  .mark (code '{') :: (memberTokens members ++ [.mark (code '}')])

def structInit (members : Members) : Initializer :=
  .list (members.map fun member => (some member.1, member.2.2))

section Members

variable {head tokens : List Token} {outer : List Frame} {items : List (Option (List UInt8) × Initializer)}
  {field : List UInt8} {value : Initializer} {members : Members}

theorem reads_designator : Reads readStep (.value head (⟨items, none⟩ :: outer) (.scalar []))
    [.mark (code '.'), .word field, .mark (code '=')] [] (.value head (⟨items, some field⟩ :: outer) (.scalar [])) := rfl

theorem reads_comma {named : Option (List UInt8)} :
    Reads readStep (.value head (⟨items, named⟩ :: outer) value) [.mark (code ',')] []
      (.value head (⟨items ++ [(named, value)], none⟩ :: outer) (.scalar [])) := rfl

theorem reads_open (head : List Token) (frames : List Frame) :
    Reads readStep (.value head frames (.scalar [])) [.mark (code '{')] []
      (.value head ({} :: frames) (.scalar [])) := by
  cases frames with
  | nil => rfl
  | cons frame outer => rfl

theorem close_member : (⟨items, some field⟩ : Frame).close value = .list (items ++ [(some field, value)]) := by
  cases value with
  | scalar tokens => cases tokens <;> rfl
  | list others => rfl

theorem reads_close : Reads readStep (.value head (⟨items, some field⟩ :: outer) value) [.mark (code '}')] []
    (.value head outer (.list (items ++ [(some field, value)]))) := by
  rw [← close_member]
  rfl

theorem reads_members (h : ∀ member ∈ members, Denotes member.2.1 member.2.2)
    (items : List (Option (List UInt8) × Initializer)) :
    Reads readStep (.value head (⟨items, none⟩ :: outer) (.scalar [])) (memberTokens members ++ [.mark (code '}')]) []
      (.value head outer (.list (items ++ members.map fun member => (some member.1, member.2.2)))) := by
  induction members generalizing items with
  | nil =>
    rw [List.map_nil, List.append_nil]
    rfl
  | cons member rest ih =>
    obtain ⟨field, tokens, value⟩ := member
    have hvalue := h _ List.mem_cons_self head (⟨items, some field⟩ :: outer)
    cases rest with
    | nil => exact (reads_designator.append hvalue).append reads_close
    | cons next rest =>
      have hrest := ih (fun other hmem => h other (List.mem_cons_of_mem _ hmem)) (items ++ [(some field, value)])
      have hall := ((reads_designator.append hvalue).append reads_comma).append hrest
      rw [List.append_assoc, List.singleton_append] at hall
      simp only [List.append_assoc, List.cons_append, List.nil_append] at hall
      simp only [memberTokens, List.append_assoc, List.cons_append]
      exact hall

theorem denotes_struct (h : ∀ member ∈ members, Denotes member.2.1 member.2.2) :
    Denotes (structTokens members) (structInit members) := by
  intro head frames
  exact (reads_open head frames).append (reads_members h [])

theorem reads_items {ι : Type*} {elements : List ι} {write : ι → List Token} {value : ι → Initializer}
    (h : ∀ item ∈ elements, Denotes (write item) (value item))
    (items : List (Option (List UInt8) × Initializer)) :
    Reads readStep (.value head (⟨items, none⟩ :: outer) (.scalar []))
      (elements.flatMap fun item => write item ++ [.mark (code ',')]) []
      (.value head (⟨items ++ elements.map fun item => (none, value item), none⟩ :: outer) (.scalar [])) := by
  induction elements generalizing items with
  | nil =>
    rw [List.map_nil, List.append_nil]
    exact .nil readStep _
  | cons item elements ih =>
    have hrest := ih (fun other hmem => h other (List.mem_cons_of_mem _ hmem)) (items ++ [(none, value item)])
    rw [List.append_assoc, List.singleton_append] at hrest
    rw [List.flatMap_cons, List.map_cons]
    exact ((h item List.mem_cons_self head _).append reads_comma).append hrest

theorem denotes_array {ι : Type*} {elements : List ι} {write : ι → List Token} {value : ι → Initializer}
    (h : ∀ item ∈ elements, Denotes (write item) (value item)) :
    Denotes (.mark (code '{') :: ((elements.flatMap fun item => write item ++ [.mark (code ',')]) ++
      [.mark (code '}')])) (.list (elements.map fun item => (none, value item))) := by
  intro head frames
  have hclose : Reads readStep
      (.value head (⟨[] ++ elements.map fun item => (none, value item), none⟩ :: frames) (.scalar []))
      [.mark (code '}')] [] (.value head frames (.list (elements.map fun item => (none, value item)))) := rfl
  exact (reads_open head frames).append ((reads_items h []).append hclose)

theorem reads_object (hhead : Reads readStep (.head []) head [] (.head head)) (h : Denotes tokens value) :
    Reads readStep (.head []) (head ++ .mark (code '=') :: (tokens ++ [.mark (code ';')]))
      [.object head value] (.head []) := by
  have hopen : Reads readStep (.head head) [.mark (code '=')] [] (.value head [] (.scalar [])) := rfl
  have hclose : Reads readStep (.value head [] value) [.mark (code ';')] [.object head value] (.head []) := rfl
  exact hhead.append (hopen.append ((h head []).append hclose))

end Members

theorem externals_of_reads {file : List External} {state : ReadState} (htokens : tokens text = written)
    (h : Reads readStep (.head []) written file state) : externals text = file := by
  unfold externals
  rw [htokens, h]

theorem findSome_mem {α β : Type*} {list : List α} {find : α → Option β} {a : α} {found : β} (hmem : a ∈ list)
    (ha : find a = some found) (hsame : ∀ other ∈ list, ∀ value, find other = some value → value = found) :
    list.findSome? find = some found := by
  cases hfind : list.findSome? find with
  | some value =>
    obtain ⟨other, hother, hvalue⟩ := List.exists_of_findSome?_eq_some hfind
    rw [hsame other hother value hvalue]
  | none =>
    rw [List.findSome?_eq_none_iff.mp hfind a hmem] at ha
    cases ha

/-- `%zu`. -/
def digitsOf (n : ℕ) : List UInt8 := (Nat.toDigits 10 n).map code

theorem digitChar_code : ∀ digit < 10, hexValue (code digit.digitChar) = digit ∧
    (code '0' ≤ code digit.digitChar && code digit.digitChar ≤ code '9') = true ∧
      (code digit.digitChar = code '0' → digit = 0) := by
  decide

theorem digitsOf_small {n : ℕ} (h : n < 10) : digitsOf n = [code n.digitChar] := by
  rw [digitsOf, Nat.toDigits_of_lt_base h, List.map_singleton]

theorem digitsOf_large {n : ℕ} (h : 10 ≤ n) :
    digitsOf n = digitsOf (n / 10) ++ [code (n % 10).digitChar] := by
  rw [digitsOf, Nat.toDigits_of_base_le (by decide) h, List.map_append, List.map_singleton, digitsOf]

/-- Decimal digits with this value, of which the first is not zero. -/
theorem digitsOf_value (n : ℕ) : digitsValue 10 (digitsOf n) = n ∧
    ((digitsOf n).all fun c => code '0' ≤ c && c ≤ code '9') = true ∧
      ((digitsOf n).head? = some (code '0') → n = 0) ∧ digitsOf n ≠ [] := by
  induction n using Nat.strong_induction_on with
  | _ n ih =>
    by_cases hsmall : n < 10
    · obtain ⟨hvalue, hdigit, hzero⟩ := digitChar_code n hsmall
      rw [digitsOf_small hsmall]
      refine ⟨?_, by simpa using hdigit, fun hhead => hzero (Option.some.inj hhead), by simp⟩
      rw [digitsValue, List.foldl_cons, List.foldl_nil, hvalue]
      omega
    · obtain ⟨hvalue, hdigits, hzero, hsome⟩ := ih (n / 10) (by omega)
      obtain ⟨hlast, hdigit, -⟩ := digitChar_code (n % 10) (Nat.mod_lt _ (by decide))
      rw [digitsOf_large (by omega)]
      refine ⟨?_, ?_, fun hhead => ?_, by simp⟩
      · rw [digitsValue, List.foldl_append, ← digitsValue, hvalue, List.foldl_cons, List.foldl_nil, hlast]
        omega
      · rw [List.all_append, hdigits, List.all_cons, hdigit]
        rfl
      · rw [List.head?_append_of_ne_nil _ hsome] at hhead
        have := hzero hhead
        omega

theorem numberOf_digits (n : ℕ) : numberOf (digitsOf n) = some n := by
  obtain ⟨hvalue, hdigits, hzero, hsome⟩ := digitsOf_value n
  match hcase : digitsOf n with
  | [] => exact absurd hcase hsome
  | [c] =>
    rw [hcase] at hvalue hdigits
    rw [numberOf, if_pos (by simpa using hdigits)]
    rw [digitsValue, List.foldl_cons, List.foldl_nil] at hvalue
    rw [← hvalue]
    congr 1
    omega
  | first :: second :: rest =>
    have hlarge : ¬ n < 10 := fun hsmall => by
      rw [digitsOf_small hsmall] at hcase
      cases hcase
    rw [hcase] at hvalue hdigits hzero
    have hfirst : first ≠ code '0' := fun heq => by
      have := hzero (by rw [heq]; rfl)
      omega
    rw [numberOf, if_neg hfirst, if_pos hdigits, hvalue]

theorem digitsOf_word {n : ℕ} {c : UInt8} (h : c ∈ digitsOf n) : isWord c = true := by
  have hdigit := List.all_eq_true.mp (digitsOf_value n).2.1 c h
  unfold isWord
  rw [hdigit]
  simp

theorem digitsOf_injective : Function.Injective digitsOf := by
  intro first second h
  have hvalue := (digitsOf_value second).1
  rw [← h, (digitsOf_value first).1] at hvalue
  exact hvalue

end Ceasy.CData
