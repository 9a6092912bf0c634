import Mathlib.Data.List.Chain
import Mathlib.Data.List.TakeWhile
import Mathlib.Data.UInt

set_option autoImplicit false

/-!
# The value of a C string literal

Two translation phases of C17 on the characters of one literal: trigraphs are
replaced first, then escape sequences are read up to the closing quote. A line
is not continued inside the literals considered here, and universal character
names, none of which denotes a basic character, are not read.
-/
namespace Ceasy.CLiteral

def code (c : Char) : UInt8 := c.toUInt8

def trigraph (c : UInt8) : Option UInt8 :=
  if c = code '=' then some (code '#')
  else if c = code '/' then some (code '\\')
  else if c = code '\'' then some (code '^')
  else if c = code '(' then some (code '[')
  else if c = code ')' then some (code ']')
  else if c = code '!' then some (code '|')
  else if c = code '<' then some (code '{')
  else if c = code '>' then some (code '}')
  else if c = code '-' then some (code '~')
  else none

def leadingTrigraph : List UInt8 → Option UInt8
  | a :: b :: c :: _ => if a = code '?' ∧ b = code '?' then trigraph c else none
  | _ => none

def replaceTrigraphs : List UInt8 → List UInt8
  | a :: b :: c :: rest =>
    match leadingTrigraph (a :: b :: c :: rest) with
    | some replaced => replaced :: replaceTrigraphs rest
    | none => a :: replaceTrigraphs (b :: c :: rest)
  | text => text

def isOctal (c : UInt8) : Bool := code '0' ≤ c && c ≤ code '7'

def isHex (c : UInt8) : Bool :=
  (code '0' ≤ c && c ≤ code '9') || (code 'a' ≤ c && c ≤ code 'f') ||
    (code 'A' ≤ c && c ≤ code 'F')

def hexValue (c : UInt8) : ℕ :=
  if c ≤ code '9' then c.toNat - 48 else if c ≤ code 'F' then c.toNat - 55 else c.toNat - 87

def digitsValue (base : ℕ) (digits : List UInt8) : ℕ :=
  digits.foldl (fun value c => base * value + hexValue c) 0

def simpleEscape (c : UInt8) : Option UInt8 :=
  if c = code '\'' ∨ c = code '"' ∨ c = code '?' ∨ c = code '\\' then some c
  else if c = code 'a' then some 7
  else if c = code 'b' then some 8
  else if c = code 't' then some 9
  else if c = code 'n' then some 10
  else if c = code 'v' then some 11
  else if c = code 'f' then some 12
  else if c = code 'r' then some 13
  else none

/-- The digits and the rest, when the value fits in a character. -/
def numericEscape (base : ℕ) (digits rest : List UInt8) : Option (UInt8 × List UInt8) :=
  if digits = [] ∨ 256 ≤ digitsValue base digits then none
  else some (UInt8.ofNat (digitsValue base digits), rest)

def escape : List UInt8 → Option (UInt8 × List UInt8)
  | [] => none
  | c :: rest =>
    match simpleEscape c with
    | some value => some (value, rest)
    | none =>
      if c = code 'x' then numericEscape 16 (rest.takeWhile isHex) (rest.dropWhile isHex)
      else
        -- at most three octal digits
        let digits := ((c :: rest).take 3).takeWhile isOctal
        numericEscape 8 digits ((c :: rest).drop digits.length)

theorem escape_simple {c value : UInt8} (h : simpleEscape c = some value) (rest : List UInt8) :
    escape (c :: rest) = some (value, rest) := by
  rw [escape, h]

theorem escape_octal {a b c : UInt8} (hsimple : simpleEscape a = none) (hletter : a ≠ code 'x')
    (hdigits : ∀ d ∈ [a, b, c], isOctal d = true) (hvalue : digitsValue 8 [a, b, c] < 256)
    (rest : List UInt8) :
    escape (a :: b :: c :: rest) = some (UInt8.ofNat (digitsValue 8 [a, b, c]), rest) := by
  have htaken : ((a :: b :: c :: rest).take 3).takeWhile isOctal = [a, b, c] :=
    List.takeWhile_eq_self_iff.mpr hdigits
  rw [escape, hsimple]
  dsimp only
  rw [if_neg hletter, htaken, numericEscape, if_neg (by simp; omega)]
  rfl

theorem numericEscape_some {base : ℕ} {digits rest after : List UInt8} {value : UInt8}
    (h : numericEscape base digits rest = some (value, after)) : digits ≠ [] ∧ after = rest := by
  unfold numericEscape at h
  split_ifs at h with hrefused
  cases h
  exact ⟨fun h => hrefused (.inl h), rfl⟩

theorem isHex_of_isOctal {c : UInt8} (h : isOctal c = true) : isHex c = true := by
  unfold isOctal at h
  unfold isHex
  rw [Bool.and_eq_true, decide_eq_true_eq, decide_eq_true_eq] at h
  have hnine : c ≤ code '9' := UInt8.le_trans h.2 (show code '7' ≤ code '9' by decide)
  simp [h.1, hnine]

theorem escape_some {c value : UInt8} {rest after : List UInt8}
    (h : escape (c :: rest) = some (value, after)) :
    ∃ count, after = rest.drop count ∧ ∀ d ∈ rest.take count, isHex d = true := by
  rw [escape] at h
  cases hsimple : simpleEscape c with
  | some other =>
    rw [hsimple] at h
    cases h
    exact ⟨0, rfl, by simp⟩
  | none =>
    rw [hsimple] at h
    dsimp only at h
    split_ifs at h
    · obtain ⟨-, rfl⟩ := numericEscape_some h
      refine ⟨(rest.takeWhile isHex).length, ?_, ?_⟩
      · have hsplit : rest.takeWhile isHex ++ rest.dropWhile isHex = rest :=
          List.takeWhile_append_dropWhile
        have hdrop := congrArg (List.drop (rest.takeWhile isHex).length) hsplit
        rwa [List.drop_left] at hdrop
      · intro d hd
        have htake : rest.take (rest.takeWhile isHex).length = rest.takeWhile isHex :=
          (List.prefix_iff_eq_take.mp (List.takeWhile_prefix _)).symm
        rw [htake] at hd
        exact List.mem_takeWhile_imp hd
    · obtain ⟨hne, rfl⟩ := numericEscape_some h
      cases hdigits : ((c :: rest).take 3).takeWhile isOctal with
      | nil => exact absurd hdigits hne
      | cons first digits =>
        refine ⟨digits.length, rfl, ?_⟩
        have hprefix : (first :: digits) <+: c :: rest := by
          rw [← hdigits]
          exact (List.takeWhile_prefix _).trans (List.take_prefix _ _)
        have htake : rest.take digits.length = digits :=
          (List.prefix_iff_eq_take.mp (List.cons_prefix_cons.mp hprefix).2).symm
        intro d hd
        rw [htake] at hd
        apply isHex_of_isOctal
        have hmem : d ∈ ((c :: rest).take 3).takeWhile isOctal := by
          rw [hdigits]
          exact List.mem_cons_of_mem _ hd
        exact List.mem_takeWhile_imp hmem

theorem escape_length {text after : List UInt8} {value : UInt8}
    (h : escape text = some (value, after)) : after.length < text.length := by
  cases text with
  | nil => cases h
  | cons c rest =>
    obtain ⟨count, rfl, -⟩ := escape_some h
    rw [List.length_drop, List.length_cons]
    omega

/-- The characters up to the closing quote, which must be the end. -/
def unescape (text : List UInt8) : Option (List UInt8) :=
  match text with
  | [] => none
  | c :: rest =>
    if c = code '"' then if rest = [] then some [] else none
    else if c = code '\n' then none
    else if c = code '\\' then
      match _h : escape rest with
      | none => none
      | some (value, after) => (unescape after).map (value :: ·)
    else (unescape rest).map (c :: ·)
termination_by text.length
decreasing_by
  · have := escape_length _h
    simp only [List.length_cons]
    omega
  · simp

def literalValue (text : List UInt8) : Option (List UInt8) :=
  match replaceTrigraphs text with
  | [] => none
  | c :: rest => if c = code '"' then unescape rest else none

theorem trigraph_some {c replaced : UInt8} (h : trigraph c = some replaced) :
    replaced ≠ code '?' ∧ replaced ≠ code '"' ∧ replaced ≠ code '\n' ∧ isHex replaced = false ∧
      (replaced = code '\\' → c = code '/') ∧ c ≠ code '?' ∧ c ≠ code '"' ∧ c ≠ code '\\' := by
  unfold trigraph at h
  split_ifs at h with h₁ h₂ h₃ h₄ h₅ h₆ h₇ h₈ h₉
  all_goals
    obtain rfl := Option.some.inj h
    subst c
    decide

/-- Of the characters that trigraphs stand for, only the backslash ends an escape. -/
theorem trigraph_escape {c replaced : UInt8} (h : trigraph c = some replaced)
    (hbackslash : replaced ≠ code '\\') (rest : List UInt8) :
    escape (replaced :: rest) = none := by
  have hplain : simpleEscape replaced = none ∧ replaced ≠ code 'x' ∧ isOctal replaced = false := by
    unfold trigraph at h
    split_ifs at h
    all_goals
      obtain rfl := Option.some.inj h
      first
      | exact absurd rfl hbackslash
      | decide
  obtain ⟨hsimple, hletter, hoctal⟩ := hplain
  have hdigits : ((replaced :: rest).take 3).takeWhile isOctal = [] := by
    rw [List.take_succ_cons, List.takeWhile_cons, hoctal]
    rfl
  rw [escape, hsimple]
  dsimp only
  rw [if_neg hletter, hdigits, numericEscape, if_pos (.inl rfl)]

theorem leadingTrigraph_plain {c : UInt8} {rest : List UInt8} (h : c ≠ code '?') :
    leadingTrigraph (c :: rest) = none := by
  match rest with
  | [] => rfl
  | [d] => rfl
  | d :: e :: rest => exact if_neg fun hmarks => h hmarks.1

theorem leadingTrigraph_single {c : UInt8} {rest : List UInt8} (h : c ≠ code '?') :
    leadingTrigraph (code '?' :: c :: rest) = none := by
  match rest with
  | [] => rfl
  | d :: rest => exact if_neg fun hmarks => h hmarks.2

theorem leadingTrigraph_marks (rest : List UInt8) :
    leadingTrigraph (code '?' :: code '?' :: rest) = rest.head?.bind trigraph := by
  match rest with
  | [] => rfl
  | c :: rest => rw [leadingTrigraph, if_pos ⟨rfl, rfl⟩, List.head?_cons, Option.bind_some]

theorem leadingTrigraph_some {text : List UInt8} {replaced : UInt8}
    (h : leadingTrigraph text = some replaced) :
    ∃ c rest, text = code '?' :: code '?' :: c :: rest ∧ trigraph c = some replaced := by
  match text, h with
  | a :: b :: c :: rest, h =>
    rw [leadingTrigraph] at h
    split_ifs at h with hmarks
    obtain ⟨rfl, rfl⟩ := hmarks
    exact ⟨c, rest, rfl, h⟩

@[simp]
theorem replaceTrigraphs_nil : replaceTrigraphs [] = [] := rfl

theorem replaceTrigraphs_cons {c : UInt8} {rest : List UInt8}
    (h : leadingTrigraph (c :: rest) = none) :
    replaceTrigraphs (c :: rest) = c :: replaceTrigraphs rest := by
  match rest with
  | [] => rfl
  | [d] => rfl
  | d :: e :: rest =>
    rw [replaceTrigraphs, h]

theorem replaceTrigraphs_plain {c : UInt8} {rest : List UInt8} (h : c ≠ code '?') :
    replaceTrigraphs (c :: rest) = c :: replaceTrigraphs rest :=
  replaceTrigraphs_cons (leadingTrigraph_plain h)

theorem replaceTrigraphs_trigraph {c replaced : UInt8} {rest : List UInt8}
    (h : trigraph c = some replaced) :
    replaceTrigraphs (code '?' :: code '?' :: c :: rest) = replaced :: replaceTrigraphs rest := by
  have hleading : leadingTrigraph (code '?' :: code '?' :: c :: rest) = some replaced := by
    rw [leadingTrigraph, if_pos ⟨rfl, rfl⟩, h]
  rw [replaceTrigraphs, hleading]

theorem replaceTrigraphs_append {piece : List UInt8} (h : ∀ c ∈ piece, c ≠ code '?')
    (rest : List UInt8) : replaceTrigraphs (piece ++ rest) = piece ++ replaceTrigraphs rest := by
  induction piece with
  | nil => rfl
  | cons c piece ih =>
    rw [List.cons_append, replaceTrigraphs_plain (h c List.mem_cons_self),
      ih fun d hd => h d (List.mem_cons_of_mem c hd), List.cons_append]

theorem replaceTrigraphs_ne_nil {text : List UInt8} (h : text ≠ []) :
    replaceTrigraphs text ≠ [] := by
  cases hleading : leadingTrigraph text with
  | none =>
    obtain ⟨c, rest, rfl⟩ := List.exists_cons_of_ne_nil h
    rw [replaceTrigraphs_cons hleading]
    exact List.cons_ne_nil _ _
  | some replaced =>
    obtain ⟨c, rest, rfl, hc⟩ := leadingTrigraph_some hleading
    rw [replaceTrigraphs_trigraph hc]
    exact List.cons_ne_nil _ _

theorem unescape_quote {rest : List UInt8} (h : rest ≠ []) :
    unescape (code '"' :: rest) = none := by
  rw [unescape, if_pos rfl, if_neg h]

theorem unescape_plain {c : UInt8} {rest : List UInt8} (hquote : c ≠ code '"')
    (hnewline : c ≠ code '\n') (hbackslash : c ≠ code '\\') :
    unescape (c :: rest) = (unescape rest).map (c :: ·) := by
  rw [unescape, if_neg hquote, if_neg hnewline, if_neg hbackslash]

theorem unescape_escape (rest : List UInt8) :
    unescape (code '\\' :: rest) =
      (escape rest).bind fun sequence => (unescape sequence.2).map (sequence.1 :: ·) := by
  rw [unescape, if_neg (by decide), if_neg (by decide), if_pos rfl]
  split
  · next h => rw [h, Option.bind_none]
  · next h => rw [h, Option.bind_some]

/-- A text that a literal holds as it stands: no quote, line break or backslash, and no two
question marks in a row. -/
structure Plain (text : List UInt8) : Prop where
  bytes : ∀ c ∈ text, c ≠ code '"' ∧ c ≠ code '\n' ∧ c ≠ code '\\'
  marks : text.IsChain fun a b => ¬ (a = code '?' ∧ b = code '?')

theorem Plain.tail {c : UInt8} {text : List UInt8} (h : Plain (c :: text)) : Plain text :=
  ⟨fun d hd => h.bytes d (List.mem_cons_of_mem c hd), h.marks.tail⟩

theorem plain_append {first second : List UInt8} (hfirst : Plain first) (hsecond : Plain second)
    (hjoin : first.getLast? ≠ some (code '?') ∨ second.head? ≠ some (code '?')) :
    Plain (first ++ second) := by
  refine ⟨fun c hc => (List.mem_append.mp hc).elim (hfirst.bytes c) (hsecond.bytes c),
    List.isChain_append.mpr ⟨hfirst.marks, hsecond.marks, fun a ha b hb hboth => ?_⟩⟩
  obtain ⟨rfl, rfl⟩ := hboth
  exact hjoin.elim (fun h => h ha) fun h => h hb

/-- A text without question marks besides. -/
def Markless (text : List UInt8) : Prop :=
  ∀ c ∈ text, c ≠ code '"' ∧ c ≠ code '\n' ∧ c ≠ code '\\' ∧ c ≠ code '?'

theorem Markless.plain {text : List UInt8} (h : Markless text) : Plain text := by
  refine ⟨fun c hc => ⟨(h c hc).1, (h c hc).2.1, (h c hc).2.2.1⟩, ?_⟩
  induction text with
  | nil => exact .nil
  | cons a text ih =>
    refine List.IsChain.cons (ih fun c hc => h c (List.mem_cons_of_mem a hc)) fun b hb hboth => ?_
    exact (h a List.mem_cons_self).2.2.2 hboth.1

theorem Markless.append {first second : List UInt8} (hfirst : Markless first) (hsecond : Plain second) :
    Plain (first ++ second) :=
  plain_append hfirst.plain hsecond
    (.inl fun hmark => (hfirst _ (List.mem_of_getLast? hmark)).2.2.2 rfl)

theorem Plain.leading {text : List UInt8} (h : Plain text) :
    leadingTrigraph (text ++ [code '"']) = none := by
  match text, h with
  | [], _ => rfl
  | [a], _ => rfl
  | a :: b :: rest, h =>
    have hmarks := (List.isChain_cons_cons.mp h.marks).1
    match rest with
    | [] => exact if_neg hmarks
    | c :: rest => exact if_neg hmarks

theorem Plain.replaced {text : List UInt8} (h : Plain text) :
    replaceTrigraphs (text ++ [code '"']) = text ++ [code '"'] := by
  induction text with
  | nil => rfl
  | cons c text ih =>
    have hleading := h.leading
    rw [List.cons_append] at hleading ⊢
    rw [replaceTrigraphs_cons hleading, ih h.tail]

theorem Plain.unescaped {text : List UInt8} (h : Plain text) :
    unescape (text ++ [code '"']) = some text := by
  induction text with
  | nil =>
    rw [List.nil_append, unescape, if_pos rfl, if_pos rfl]
  | cons c text ih =>
    obtain ⟨hquote, hnewline, hbackslash⟩ := h.bytes c List.mem_cons_self
    rw [List.cons_append, unescape_plain hquote hnewline hbackslash, ih h.tail, Option.map_some]

/-- The literal of a plain text has that text as its value. -/
theorem Plain.literalValue {text : List UInt8} (h : Plain text) :
    literalValue (code '"' :: (text ++ [code '"'])) = some text := by
  have hopening : leadingTrigraph (code '"' :: (text ++ [code '"'])) = none :=
    leadingTrigraph_plain (by decide)
  rw [CLiteral.literalValue, replaceTrigraphs_cons hopening, h.replaced]
  dsimp only
  rw [if_pos rfl, h.unescaped]

end Ceasy.CLiteral
