import Ceasy.CLiteral
import Ceasy.StringView

set_option autoImplicit false

/-!
# The string literals of the view compiler

The escaper writes one byte at a time; a compiler reads sequences. An escape that
the escaper writes is read back whatever follows it, but two question marks are
written as they stand and may begin a trigraph.
-/
namespace Ceasy.ViewLiteral
open StringView CLiteral

/-- `%03o`. -/
def octalDigits (byte : UInt8) : Bytes :=
  [ch '0' + byte / 64, ch '0' + byte / 8 % 8, ch '0' + byte % 8]

def compilerCByte (byte : UInt8) : Bytes :=
  if byte = ch '"' ∨ byte = ch '\\' then [ch '\\', byte]
  else if byte = ch '\n' then sv "\\n"
  else if byte = ch '\r' then sv "\\r"
  else if byte = ch '\t' then sv "\\t"
  else if byte < 32 ∨ byte = 127 then ch '\\' :: octalDigits byte
  else [byte]

def compilerCString (value : Bytes) : Bytes :=
  ch '"' :: (value.flatMap compilerCByte ++ [ch '"'])

def written (value : Bytes) : Bytes := value.flatMap compilerCByte ++ [ch '"']

def reading (value : Bytes) : Option Bytes := unescape (replaceTrigraphs (written value))

/-- Two question marks and a character that makes them a trigraph. -/
def HasTrigraph (value : Bytes) : Prop :=
  ∃ before c after, value = before ++ ch '?' :: ch '?' :: c :: after ∧ (trigraph c).isSome

theorem written_cons (byte : UInt8) (value : Bytes) :
    written (byte :: value) = compilerCByte byte ++ written value := by
  rw [written, List.flatMap_cons, List.append_assoc, written]

theorem written_ne_nil (value : Bytes) : written value ≠ [] := by simp [written]

/-- A byte stands for itself, or is written as a backslash and a name. -/
inductive Piece (byte : UInt8) : Bytes → Prop where
  | plain (hquote : byte ≠ ch '"') (hnewline : byte ≠ ch '\n') (hbackslash : byte ≠ ch '\\') :
    Piece byte [byte]
  | quote (h : byte = ch '"') : Piece byte [ch '\\', ch '"']
  | backslash (h : byte = ch '\\') : Piece byte [ch '\\', ch '\\']
  | named {name : Bytes} (hshort : name.length ≤ 3)
    (hplain : ∀ c ∈ name, c ≠ ch '"' ∧ c ≠ ch '\n' ∧ c ≠ ch '\\' ∧ c ≠ ch '?')
    (hescape : ∀ rest, escape (name ++ rest) = some (byte, rest)) : Piece byte (ch '\\' :: name)

/-- The digits are octal, begin no other escape and have the byte as their value. -/
def octalDigitsRead (byte : UInt8) : Bool :=
  ((octalDigits byte).all fun c => isOctal c && (simpleEscape c).isNone && c != code 'x' &&
      c != ch '"' && c != ch '\n' && c != ch '\\' && c != ch '?') &&
    digitsValue 8 (octalDigits byte) == byte.toNat

theorem octalDigits_read : ∀ n < 256, octalDigitsRead (UInt8.ofNat n) = true := by
  decide +kernel

theorem octalDigits_plain (byte : UInt8) :
    (∀ c ∈ octalDigits byte, isOctal c = true ∧ simpleEscape c = none ∧ c ≠ code 'x' ∧
      c ≠ ch '"' ∧ c ≠ ch '\n' ∧ c ≠ ch '\\' ∧ c ≠ ch '?') ∧
    digitsValue 8 (octalDigits byte) = byte.toNat := by
  have hread := octalDigits_read byte.toNat (UInt8.toNat_lt byte)
  rw [UInt8.ofNat_toNat, octalDigitsRead, Bool.and_eq_true, List.all_eq_true] at hread
  refine ⟨fun c hc => ?_, eq_of_beq hread.2⟩
  have hdigit := hread.1 c hc
  simp only [Bool.and_eq_true, bne_iff_ne, Option.isNone_iff_eq_none] at hdigit
  tauto

theorem octalDigits_escape (byte : UInt8) (rest : Bytes) :
    escape (octalDigits byte ++ rest) = some (byte, rest) := by
  obtain ⟨hdigits, hvalue⟩ := octalDigits_plain byte
  obtain ⟨-, hsimple, hletter, -⟩ := hdigits _ List.mem_cons_self
  have hsmall : digitsValue 8 (octalDigits byte) < 256 := by
    rw [hvalue]
    exact UInt8.toNat_lt byte
  have hescape := escape_octal hsimple hletter (fun d hd => (hdigits d hd).1) hsmall rest
  change escape (octalDigits byte ++ rest) = some (UInt8.ofNat (digitsValue 8 (octalDigits byte)), rest)
    at hescape
  rwa [hvalue, UInt8.ofNat_toNat] at hescape

theorem named_letter {byte letter : UInt8} (hescape : simpleEscape letter = some byte)
    (hplain : letter ≠ ch '"' ∧ letter ≠ ch '\n' ∧ letter ≠ ch '\\' ∧ letter ≠ ch '?') :
    Piece byte [ch '\\', letter] := by
  refine @Piece.named byte [letter] (Nat.le_add_left 1 2) (fun c hc => ?_) (escape_simple hescape)
  rwa [List.mem_singleton.mp hc]

theorem compilerCByte_piece (byte : UInt8) : Piece byte (compilerCByte byte) := by
  unfold compilerCByte
  split_ifs with hquoted hnewline hreturn htab hcontrol
  · rcases hquoted with rfl | rfl
    · exact .quote rfl
    · exact .backslash rfl
  · subst hnewline
    exact named_letter (by decide) (by decide)
  · subst hreturn
    exact named_letter (by decide) (by decide)
  · subst htab
    exact named_letter (by decide) (by decide)
  · exact .named (Nat.le_refl _) (fun c hc => ((octalDigits_plain byte).1 c hc).2.2.2)
      (octalDigits_escape byte)
  · rw [not_or] at hquoted
    exact .plain hquoted.1 hnewline hquoted.2

theorem Piece.head {byte : UInt8} {piece : Bytes} (h : Piece byte piece) :
    piece = [byte] ∨ ∃ name, piece = ch '\\' :: name := by
  cases h with
  | plain => exact .inl rfl
  | quote => exact .inr ⟨_, rfl⟩
  | backslash => exact .inr ⟨_, rfl⟩
  | named => exact .inr ⟨_, rfl⟩

theorem Piece.no_mark {byte : UInt8} {piece : Bytes} (h : Piece byte piece)
    (hmark : byte ≠ ch '?') : ∀ c ∈ piece, c ≠ ch '?' := by
  cases h with
  | plain => simpa using hmark
  | quote => simp; decide
  | backslash => simp; decide
  | named hshort hplain =>
    intro c hc
    rcases List.mem_cons.mp hc with rfl | hc
    · decide
    · exact (hplain c hc).2.2.2

theorem compilerCByte_trigraph {c replaced : UInt8} (h : trigraph c = some replaced) :
    compilerCByte c = [c] := by
  unfold trigraph at h
  split_ifs at h with h₁ h₂ h₃ h₄ h₅ h₆ h₇ h₈ h₉
  all_goals
    subst c
    decide

theorem compilerCByte_mark : compilerCByte (ch '?') = [ch '?'] := by decide

theorem written_plain {byte : UInt8} (h : compilerCByte byte = [byte]) (value : Bytes) :
    written (byte :: value) = byte :: written value := by
  rw [written_cons, h, List.singleton_append]

theorem written_head (value : Bytes) :
    (written value).head?.bind trigraph = value.head?.bind trigraph := by
  cases value with
  | nil => decide
  | cons byte value =>
    rcases (compilerCByte_piece byte).head with hplain | ⟨name, hname⟩
    · rw [written_plain hplain]
      rfl
    · rw [written_cons, hname, List.cons_append, List.head?_cons, List.head?_cons,
        Option.bind_some, Option.bind_some]
      cases htrigraph : trigraph byte with
      | none => decide
      | some replaced =>
        rw [compilerCByte_trigraph htrigraph] at hname
        obtain ⟨rfl, -⟩ := List.cons.inj hname
        exact absurd htrigraph (by simp [show trigraph (ch '\\') = none by decide])

theorem written_leading_ne {byte : UInt8} (h : byte ≠ ch '?') (value : Bytes) :
    ∃ c rest, written (byte :: value) = c :: rest ∧ c ≠ ch '?' := by
  rcases (compilerCByte_piece byte).head with hplain | ⟨name, hname⟩
  · exact ⟨byte, _, written_plain hplain value, h⟩
  · exact ⟨ch '\\', name ++ written value, by rw [written_cons, hname, List.cons_append],
      by decide⟩

theorem written_leading (value : Bytes) :
    leadingTrigraph (written value) = leadingTrigraph value := by
  match value with
  | [] => rfl
  | byte :: value =>
    by_cases hfirst : byte = ch '?'
    · subst hfirst
      rw [written_plain compilerCByte_mark]
      match value with
      | [] => rfl
      | byte :: value =>
        by_cases hsecond : byte = ch '?'
        · subst hsecond
          rw [written_plain compilerCByte_mark]
          exact (leadingTrigraph_marks _).trans
            ((written_head value).trans (leadingTrigraph_marks value).symm)
        · obtain ⟨c, rest, hwritten, hc⟩ := written_leading_ne hsecond value
          rw [hwritten]
          exact (leadingTrigraph_single hc).trans (leadingTrigraph_single hsecond).symm
    · obtain ⟨c, rest, hwritten, hc⟩ := written_leading_ne hfirst value
      rw [hwritten, leadingTrigraph_plain hc, leadingTrigraph_plain hfirst]

theorem written_trigraph {c replaced : UInt8} (h : trigraph c = some replaced) (value : Bytes) :
    replaceTrigraphs (written (ch '?' :: ch '?' :: c :: value)) =
      replaced :: replaceTrigraphs (written value) := by
  rw [written_plain compilerCByte_mark, written_plain compilerCByte_mark,
    written_plain (compilerCByte_trigraph h)]
  exact replaceTrigraphs_trigraph h

/-- Nothing is replaced in what is written for a byte that begins no trigraph. -/
theorem written_replaced {byte : UInt8} {value : Bytes}
    (h : leadingTrigraph (byte :: value) = none) :
    replaceTrigraphs (written (byte :: value)) =
      compilerCByte byte ++ replaceTrigraphs (written value) := by
  by_cases hmark : byte = ch '?'
  · subst hmark
    have hleading := (written_leading (ch '?' :: value)).trans h
    rw [written_plain compilerCByte_mark] at hleading ⊢
    exact replaceTrigraphs_cons hleading
  · rw [written_cons]
    exact replaceTrigraphs_append ((compilerCByte_piece byte).no_mark hmark) _

theorem backslash_unescape {text rest : Bytes} {byte : UInt8}
    (h : escape text = some (byte, rest)) :
    unescape (ch '\\' :: text) = (unescape rest).map (byte :: ·) := by
  have hread := unescape_escape text
  rwa [h, Option.bind_some] at hread

theorem Piece.unescape {byte : UInt8} {piece : Bytes} (h : Piece byte piece) (rest : Bytes) :
    unescape (piece ++ rest) = (unescape rest).map (byte :: ·) := by
  cases h with
  | plain hquote hnewline hbackslash => exact unescape_plain hquote hnewline hbackslash
  | quote hbyte =>
    subst hbyte
    exact backslash_unescape (escape_simple (by decide) rest)
  | backslash hbyte =>
    subst hbyte
    exact backslash_unescape (escape_simple (by decide) rest)
  | named hshort hplain hescape => exact backslash_unescape (hescape rest)

theorem reading_cons {byte : UInt8} {value : Bytes}
    (h : leadingTrigraph (byte :: value) = none) :
    reading (byte :: value) = (reading value).map (byte :: ·) := by
  unfold reading
  rw [written_replaced h, (compilerCByte_piece byte).unescape]

theorem leading_value {value : Bytes} {replaced : UInt8}
    (h : leadingTrigraph value = some replaced) :
    ∃ c rest, value = ch '?' :: ch '?' :: c :: rest ∧ trigraph c = some replaced :=
  leadingTrigraph_some h

theorem HasTrigraph.of_leading {value : Bytes} {replaced : UInt8}
    (h : leadingTrigraph value = some replaced) : HasTrigraph value := by
  obtain ⟨c, rest, rfl, hc⟩ := leading_value h
  exact ⟨[], c, rest, rfl, by rw [hc, Option.isSome_some]⟩

theorem hasTrigraph_cons {byte : UInt8} {value : Bytes}
    (h : leadingTrigraph (byte :: value) = none) :
    HasTrigraph (byte :: value) ↔ HasTrigraph value := by
  constructor
  · rintro ⟨before, c, after, hvalue, hc⟩
    cases before with
    | nil =>
      rw [hvalue] at h
      have hleading := (leadingTrigraph_marks (c :: after)).symm.trans h
      rw [List.head?_cons, Option.bind_some] at hleading
      rw [hleading] at hc
      cases hc
    | cons first before => exact ⟨before, c, after, (List.cons.inj hvalue).2, hc⟩
  · rintro ⟨before, c, after, rfl, hc⟩
    exact ⟨byte :: before, c, after, rfl, hc⟩

def escaped (value : Bytes) : Option Bytes :=
  unescape (ch '\\' :: replaceTrigraphs (written value))

theorem reading_trigraph {c replaced : UInt8} (h : trigraph c = some replaced)
    (hbackslash : replaced ≠ ch '\\') (value : Bytes) :
    reading (ch '?' :: ch '?' :: c :: value) = (reading value).map (replaced :: ·) := by
  obtain ⟨-, hquote, hnewline, -⟩ := trigraph_some h
  unfold reading
  rw [written_trigraph h, unescape_plain hquote hnewline hbackslash]

theorem reading_trigraph_backslash {c : UInt8} (h : trigraph c = some (ch '\\'))
    (value : Bytes) : reading (ch '?' :: ch '?' :: c :: value) = escaped value := by
  unfold reading
  rw [written_trigraph h, escaped]

/-- Digits behind the written text come from as many bytes of the value. -/
theorem written_drop_digits {count : ℕ} {value : Bytes}
    (h : ∀ d ∈ (replaceTrigraphs (written value)).take count, isHex d = true) :
    (replaceTrigraphs (written value)).drop count =
      replaceTrigraphs (written (value.drop count)) := by
  induction count generalizing value with
  | zero => rfl
  | succ count ih =>
    cases value with
    | nil => exact absurd (h (ch '"') List.mem_cons_self) (by decide)
    | cons byte value =>
      cases hleading : leadingTrigraph (byte :: value) with
      | some replaced =>
        obtain ⟨c, rest, hvalue, hc⟩ := leading_value hleading
        obtain ⟨-, -, -, hhex, -⟩ := trigraph_some hc
        rw [hvalue] at h
        rw [written_trigraph hc] at h
        exact absurd (h replaced List.mem_cons_self) (by simp [hhex])
      | none =>
        rw [written_replaced hleading] at h ⊢
        rcases (compilerCByte_piece byte).head with hplain | ⟨name, hname⟩
        · rw [hplain, List.singleton_append] at h ⊢
          exact ih fun d hd => h d (List.mem_cons_of_mem byte hd)
        · rw [hname] at h
          exact absurd (h (ch '\\') List.mem_cons_self) (by decide)

/-- A reading is no longer than the value, and digits are all that a backslash adds. -/
structure Bounded (value : Bytes) : Prop where
  reading : ∀ result, reading value = some result → result.length ≤ value.length
  escaped : ∀ result, escaped value = some result →
    result.length ≤ value.length + 3 ∧
      (result.head? = some (ch '?') → result.length ≤ value.length)

theorem reading_bounded {value : Bytes}
    (ih : ∀ shorter : Bytes, shorter.length < value.length → Bounded shorter) {result : Bytes}
    (h : reading value = some result) : result.length ≤ value.length := by
  cases hleading : leadingTrigraph value with
  | some replaced =>
    obtain ⟨c, rest, rfl, hc⟩ := leading_value hleading
    have hrest : rest.length < (ch '?' :: ch '?' :: c :: rest).length :=
      Nat.lt_add_of_pos_right (by decide : 0 < 3)
    by_cases hbackslash : replaced = ch '\\'
    · subst hbackslash
      rw [reading_trigraph_backslash hc] at h
      have hbound := ((ih rest hrest).escaped result h).1
      simp only [List.length_cons]
      omega
    · rw [reading_trigraph hc hbackslash] at h
      obtain ⟨shorter, hshorter, rfl⟩ := Option.map_eq_some_iff.mp h
      have hbound := (ih rest hrest).reading shorter hshorter
      simp only [List.length_cons]
      omega
  | none =>
    cases value with
    | nil =>
      obtain rfl := Option.some.inj ((show reading [] = some [] by decide +kernel).symm.trans h)
      exact Nat.le_refl _
    | cons byte value =>
      rw [reading_cons hleading] at h
      obtain ⟨shorter, hshorter, rfl⟩ := Option.map_eq_some_iff.mp h
      have hbound := (ih value (Nat.lt_succ_self _)).reading shorter hshorter
      exact Nat.succ_le_succ hbound

/-- Behind a backslash, a byte that stands for itself begins an escape. -/
theorem escaped_plain {byte : UInt8} {value result : Bytes}
    (hbyte : compilerCByte byte = [byte]) (hleading : leadingTrigraph (byte :: value) = none)
    (h : escaped (byte :: value) = some result) :
    ∃ first count rest, result = first :: rest ∧ reading (value.drop count) = some rest := by
  unfold escaped at h
  rw [written_replaced hleading, hbyte, List.singleton_append] at h
  have hread := (unescape_escape _).symm.trans h
  obtain ⟨⟨first, after⟩, hescape, hafter⟩ := Option.bind_eq_some_iff.mp hread
  obtain ⟨rest, hrest, rfl⟩ := Option.map_eq_some_iff.mp hafter
  obtain ⟨count, rfl, hdigits⟩ := escape_some hescape
  rw [written_drop_digits hdigits] at hrest
  exact ⟨first, count, rest, rfl, hrest⟩

theorem escaped_backslash {text : Bytes} :
    unescape (ch '\\' :: ch '\\' :: text) = (unescape text).map (ch '\\' :: ·) :=
  backslash_unescape (escape_simple (by decide) text)

theorem unescape_name {name : Bytes}
    (hplain : ∀ c ∈ name, c ≠ ch '"' ∧ c ≠ ch '\n' ∧ c ≠ ch '\\' ∧ c ≠ ch '?') (rest : Bytes) :
    unescape (name ++ rest) = (unescape rest).map (name ++ ·) := by
  induction name with
  | nil => simp
  | cons c name ih =>
    obtain ⟨hquote, hnewline, hbackslash, -⟩ := hplain c List.mem_cons_self
    rw [List.cons_append, unescape_plain hquote hnewline hbackslash,
      ih fun d hd => hplain d (List.mem_cons_of_mem c hd), Option.map_map]
    rfl

theorem written_replaced_ne_nil (value : Bytes) : replaceTrigraphs (written value) ≠ [] :=
  replaceTrigraphs_ne_nil (written_ne_nil value)

/-- What a backslash and the piece of a byte that does not stand for itself are read as. -/
theorem Piece.escaped {byte : UInt8} {piece text result : Bytes} (hpiece : Piece byte piece)
    (hplain : piece ≠ [byte]) (htext : text ≠ [])
    (h : CLiteral.unescape (ch '\\' :: (piece ++ text)) = some result) :
    ∃ name rest, result = ch '\\' :: (name ++ rest) ∧ name.length ≤ 3 ∧
      (CLiteral.unescape text = some rest ∨
        name = [] ∧ CLiteral.unescape (ch '\\' :: text) = some rest) := by
  cases hpiece with
  | plain => exact absurd rfl hplain
  | quote =>
    rw [List.cons_append, escaped_backslash, List.singleton_append] at h
    have hnone := unescape_quote htext
    rw [show CLiteral.unescape (ch '"' :: text) = none from hnone] at h
    cases h
  | backslash =>
    rw [List.cons_append, escaped_backslash, List.singleton_append] at h
    obtain ⟨rest, hrest, rfl⟩ := Option.map_eq_some_iff.mp h
    exact ⟨[], rest, rfl, Nat.zero_le 3, .inr ⟨rfl, hrest⟩⟩
  | named hshort hname =>
    rw [List.cons_append, escaped_backslash, unescape_name hname, Option.map_map] at h
    obtain ⟨rest, hrest, rfl⟩ := Option.map_eq_some_iff.mp h
    exact ⟨_, rest, rfl, hshort, .inl hrest⟩

theorem escaped_bounded {value : Bytes}
    (ih : ∀ shorter : Bytes, shorter.length < value.length → Bounded shorter) {result : Bytes}
    (h : escaped value = some result) :
    result.length ≤ value.length + 3 ∧
      (result.head? = some (ch '?') → result.length ≤ value.length) := by
  cases hleading : leadingTrigraph value with
  | some replaced =>
    obtain ⟨c, rest, rfl, hc⟩ := leading_value hleading
    have hrest : rest.length < (ch '?' :: ch '?' :: c :: rest).length :=
      Nat.lt_add_of_pos_right (by decide : 0 < 3)
    unfold escaped at h
    rw [written_trigraph hc] at h
    by_cases hbackslash : replaced = ch '\\'
    · subst hbackslash
      rw [escaped_backslash] at h
      obtain ⟨shorter, hshorter, rfl⟩ := Option.map_eq_some_iff.mp h
      have hbound := (ih rest hrest).reading shorter hshorter
      refine ⟨?_, fun hhead => absurd (Option.some.inj hhead) (by decide)⟩
      simp only [List.length_cons]
      omega
    · have hread := (unescape_escape _).symm.trans h
      rw [trigraph_escape hc hbackslash, Option.bind_none] at hread
      cases hread
  | none =>
    cases value with
    | nil => exact absurd h (by simp [show escaped [] = none by decide +kernel])
    | cons byte value =>
      have hvalue := ih value (Nat.lt_succ_self _)
      by_cases hbyte : compilerCByte byte = [byte]
      · obtain ⟨first, count, rest, rfl, hrest⟩ := escaped_plain hbyte hleading h
        have hlength : (value.drop count).length ≤ value.length := by
          rw [List.length_drop]
          exact Nat.sub_le _ _
        have hbound := (ih _ (Nat.lt_succ_of_le hlength)).reading rest hrest
        simp only [List.length_cons]
        omega
      · unfold escaped at h
        rw [written_replaced hleading] at h
        obtain ⟨name, rest, rfl, hname, hrest | ⟨rfl, hrest⟩⟩ :=
          (compilerCByte_piece byte).escaped hbyte (written_replaced_ne_nil value) h
        · have hbound := hvalue.reading rest hrest
          refine ⟨?_, fun hhead => absurd (Option.some.inj hhead) (by decide)⟩
          simp only [List.length_cons, List.length_append]
          omega
        · have hbound := (hvalue.escaped rest hrest).1
          refine ⟨?_, fun hhead => absurd (Option.some.inj hhead) (by decide)⟩
          simp only [List.length_cons, List.nil_append]
          omega

theorem bounded (value : Bytes) : Bounded value := by
  induction hlength : value.length using Nat.strong_induction_on generalizing value with
  | _ length ih =>
    subst hlength
    have hshorter : ∀ shorter : Bytes, shorter.length < value.length → Bounded shorter :=
      fun shorter hlt => ih _ hlt shorter rfl
    exact ⟨fun _ => reading_bounded hshorter, fun _ => escaped_bounded hshorter⟩

/-- A value that begins with a trigraph is read as something else. -/
theorem reading_leading {value : Bytes} {replaced : UInt8}
    (h : leadingTrigraph value = some replaced) : reading value ≠ some value := by
  obtain ⟨c, rest, rfl, hc⟩ := leading_value h
  intro hread
  by_cases hbackslash : replaced = ch '\\'
  · subst hbackslash
    rw [reading_trigraph_backslash hc] at hread
    have hbound := ((bounded rest).escaped _ hread).2 rfl
    simp only [List.length_cons] at hbound
    omega
  · rw [reading_trigraph hc hbackslash] at hread
    obtain ⟨shorter, -, hvalue⟩ := Option.map_eq_some_iff.mp hread
    exact (trigraph_some hc).1 (List.cons.inj hvalue).1

theorem reading_iff (value : Bytes) : reading value = some value ↔ ¬ HasTrigraph value := by
  induction value with
  | nil =>
    refine iff_of_true (by decide +kernel) ?_
    rintro ⟨before, c, after, hvalue, -⟩
    cases before <;> cases hvalue
  | cons byte value ih =>
    cases hleading : leadingTrigraph (byte :: value) with
    | some replaced =>
      exact iff_of_false (reading_leading hleading) (not_not_intro (.of_leading hleading))
    | none =>
      rw [reading_cons hleading, hasTrigraph_cons hleading, ← ih, Option.map_eq_some_iff]
      constructor
      · rintro ⟨rest, hrest, hvalue⟩
        rw [hrest, (List.cons.inj hvalue).2]
      · exact fun hread => ⟨value, hread, rfl⟩

theorem literalValue_written (value : Bytes) :
    literalValue (compilerCString value) = reading value := by
  unfold literalValue compilerCString reading
  rw [show replaceTrigraphs (ch '"' :: (value.flatMap compilerCByte ++ [ch '"'])) = _ from
    replaceTrigraphs_plain (by decide)]
  exact if_pos rfl

/-- The literal written for a value denotes it, and has the length written beside it,
exactly when the value has no trigraph. -/
theorem compilerCString_literal (value : Bytes) :
    (literalValue (compilerCString value) = some value ∧
        (literalValue (compilerCString value)).map List.length = some value.length) ↔
      ¬ HasTrigraph value := by
  rw [literalValue_written, ← reading_iff]
  refine and_iff_left_of_imp fun hread => ?_
  rw [hread, Option.map_some]

/-- The literal of three characters denotes one. -/
theorem compilerCString_literal_marks :
    literalValue (compilerCString (sv "??=")) = some (sv "#") ∧ sv "#" ≠ sv "??=" ∧
      (sv "#").length ≠ (sv "??=").length := by
  decide +kernel

end Ceasy.ViewLiteral
