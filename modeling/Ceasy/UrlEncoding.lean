import Mathlib

set_option autoImplicit false

/-!
# URL encoding of form fields

A byte stands for itself or is written as a percent sign and two hexadecimal digits of
either case, and a space may be written as a plus sign.
-/
namespace Ceasy.UrlEncoding

abbrev Text := List UInt8

def percent : UInt8 := 0x25

def plus : UInt8 := 0x2B

def space : UInt8 := 0x20

def upperDigit (n : ℕ) : UInt8 := UInt8.ofNat (if n < 10 then 0x30 + n else 0x37 + n)

def lowerDigit (n : ℕ) : UInt8 := UInt8.ofNat (if n < 10 then 0x30 + n else 0x57 + n)

def IsDigit (c : UInt8) (n : ℕ) : Prop := n < 16 ∧ (c = upperDigit n ∨ c = lowerDigit n)

/-- The second text encodes the first; the bytes of `plain` may stand for themselves. -/
inductive Encodes (plain : UInt8 → Prop) : Text → Text → Prop where
  | nil : Encodes plain [] []
  | plain {c : UInt8} {text code : Text} (hplain : plain c) (rest : Encodes plain text code) :
      Encodes plain (c :: text) (c :: code)
  | space {text code : Text} (rest : Encodes plain text code) :
      Encodes plain (space :: text) (plus :: code)
  | escape {c high low : UInt8} {text code : Text} (hhigh : IsDigit high (c.toNat / 16))
      (hlow : IsDigit low (c.toNat % 16)) (rest : Encodes plain text code) :
      Encodes plain (c :: text) (percent :: high :: low :: code)

def Escape (behind : Text) : Prop :=
  ∃ high low rest h l, behind = high :: low :: rest ∧ IsDigit high h ∧ IsDigit low l

/-- Some percent sign is not followed by two digits. -/
def Malformed (code : Text) : Prop :=
  ∃ before behind, code = before ++ percent :: behind ∧ ¬ Escape behind

def hexValue (c : UInt8) : Option UInt8 :=
  if 0x30 ≤ c ∧ c ≤ 0x39 then some (c - 0x30)
  else if 0x61 ≤ c ∧ c ≤ 0x66 then some (c - 0x61 + 10)
  else if 0x41 ≤ c ∧ c ≤ 0x46 then some (c - 0x41 + 10)
  else none

def decode : Text → Option Text
  | [] => some []
  | c :: behind =>
    if c = plus then (decode behind).map (space :: ·)
    else if c = percent then
      match behind with
      | high :: low :: rest =>
        match hexValue high, hexValue low with
        | some h, some l => (decode rest).map ((h <<< 4 ||| l) :: ·)
        | _, _ => none
      | _ => none
    else (decode behind).map (c :: ·)

theorem hexValue_digit : ∀ d : Fin 16,
    hexValue (upperDigit d) = some (UInt8.ofNat d) ∧ hexValue (lowerDigit d) = some (UInt8.ofNat d) := by
  decide +kernel

theorem hexValue_table : ∀ n : Fin 256, (hexValue (UInt8.ofNat n)).all fun v =>
    decide (v.toNat < 16 ∧
      (UInt8.ofNat n = upperDigit v.toNat ∨ UInt8.ofNat n = lowerDigit v.toNat)) := by
  decide +kernel

theorem hexValue_isDigit {c : UInt8} {n : ℕ} (h : IsDigit c n) : hexValue c = some (UInt8.ofNat n) := by
  obtain ⟨hbound, rfl | rfl⟩ := h
  · exact (hexValue_digit ⟨n, hbound⟩).1
  · exact (hexValue_digit ⟨n, hbound⟩).2

theorem hexValue_some {c v : UInt8} : hexValue c = some v ↔ IsDigit c v.toNat := by
  constructor
  · intro h
    have htable := hexValue_table ⟨c.toNat, c.toNat_lt⟩
    dsimp only at htable
    rw [UInt8.ofNat_toNat, h, Option.all_some, decide_eq_true_eq] at htable
    exact htable
  · intro h
    rw [hexValue_isDigit h, UInt8.ofNat_toNat]

theorem join_table : ∀ n : Fin 256,
    UInt8.ofNat (n / 16) <<< 4 ||| UInt8.ofNat (n % 16) = UInt8.ofNat n := by
  decide +kernel

theorem join_halves (c : UInt8) : UInt8.ofNat (c.toNat / 16) <<< 4 ||| UInt8.ofNat (c.toNat % 16) = c := by
  have htable := join_table ⟨c.toNat, c.toNat_lt⟩
  dsimp only at htable
  rwa [UInt8.ofNat_toNat] at htable

theorem not_isDigit_percent {n : ℕ} : ¬ IsDigit percent n := by
  intro h
  have hvalue := hexValue_isDigit h
  cases hvalue

theorem decode_plus (behind : Text) : decode (plus :: behind) = (decode behind).map (space :: ·) := by
  rw [decode.eq_def]
  dsimp only
  rw [if_pos rfl]

theorem decode_escape {high low h l : UInt8} (hhigh : hexValue high = some h) (hlow : hexValue low = some l)
    (rest : Text) :
    decode (percent :: high :: low :: rest) = (decode rest).map ((h <<< 4 ||| l) :: ·) := by
  rw [decode, if_neg (by decide), if_pos rfl, hhigh, hlow]

theorem decode_bad {behind : Text} (h : ¬ Escape behind) : decode (percent :: behind) = none := by
  rw [decode.eq_def]
  dsimp only
  rw [if_neg (by decide), if_pos rfl]
  rcases behind with _ | ⟨high, _ | ⟨low, rest⟩⟩
  · rfl
  · rfl
  · dsimp only
    cases hhigh : hexValue high with
    | none => rfl
    | some v =>
      cases hlow : hexValue low with
      | none => rfl
      | some w => exact absurd ⟨high, low, rest, _, _, rfl, hexValue_some.mp hhigh, hexValue_some.mp hlow⟩ h

theorem decode_plain {c : UInt8} (hplus : c ≠ plus) (hpercent : c ≠ percent) (behind : Text) :
    decode (c :: behind) = (decode behind).map (c :: ·) := by
  rw [decode.eq_def]
  dsimp only
  rw [if_neg hplus, if_neg hpercent]

theorem Encodes.decode {plain : UInt8 → Prop} (hplus : ¬ plain plus) (hpercent : ¬ plain percent)
    {text code : Text} (h : Encodes plain text code) : decode code = some text := by
  induction h with
  | nil => rfl
  | plain hplain _ ih =>
    rw [decode_plain (fun hc => hplus (hc ▸ hplain)) (fun hc => hpercent (hc ▸ hplain)), ih, Option.map_some]
  | space _ ih => rw [decode_plus, ih, Option.map_some]
  | escape hhigh hlow _ ih =>
    rw [decode_escape (hexValue_isDigit hhigh) (hexValue_isDigit hlow), ih, Option.map_some, join_halves]

theorem Encodes.mem {plain : UInt8 → Prop} {text code : Text} (h : Encodes plain text code) {c : UInt8}
    (hc : c ∈ code) : plain c ∨ c = plus ∨ c = percent ∨ ∃ n, IsDigit c n := by
  induction h with
  | nil => cases hc
  | plain hplain _ ih =>
    rcases List.mem_cons.mp hc with rfl | hc
    · exact .inl hplain
    · exact ih hc
  | space _ ih =>
    rcases List.mem_cons.mp hc with rfl | hc
    · exact .inr (.inl rfl)
    · exact ih hc
  | escape hhigh hlow _ ih =>
    rcases List.mem_cons.mp hc with rfl | hc
    · exact .inr (.inr (.inl rfl))
    · rcases List.mem_cons.mp hc with rfl | hc
      · exact .inr (.inr (.inr ⟨_, hhigh⟩))
      · rcases List.mem_cons.mp hc with rfl | hc
        · exact .inr (.inr (.inr ⟨_, hlow⟩))
        · exact ih hc

theorem not_malformed_nil : ¬ Malformed [] := by
  rintro ⟨before, behind, h, -⟩
  exact List.append_ne_nil_of_right_ne_nil _ (List.cons_ne_nil _ _) h.symm

theorem malformed_cons {c : UInt8} (h : c ≠ percent) (code : Text) :
    Malformed (c :: code) ↔ Malformed code := by
  constructor
  · rintro ⟨before, behind, heq, hbad⟩
    cases before with
    | nil => exact absurd (List.cons.inj heq).1 h
    | cons b before => exact ⟨before, behind, (List.cons.inj heq).2, hbad⟩
  · rintro ⟨before, behind, rfl, hbad⟩
    exact ⟨c :: before, behind, rfl, hbad⟩

theorem malformed_escape {high low : UInt8} {h l : ℕ} (hhigh : IsDigit high h) (hlow : IsDigit low l)
    (rest : Text) : Malformed (percent :: high :: low :: rest) ↔ Malformed rest := by
  have hne : ∀ {c : UInt8} {n : ℕ}, IsDigit c n → c ≠ percent := by
    rintro c n hdigit rfl
    exact not_isDigit_percent hdigit
  have hpass : Malformed (high :: low :: rest) ↔ Malformed rest := by
    rw [malformed_cons (hne hhigh), malformed_cons (hne hlow)]
  rw [← hpass]
  constructor
  · rintro ⟨before, behind, heq, hbad⟩
    cases before with
    | nil =>
      obtain rfl := (List.cons.inj heq).2
      exact absurd ⟨high, low, rest, h, l, rfl, hhigh, hlow⟩ hbad
    | cons b before => exact ⟨before, behind, (List.cons.inj heq).2, hbad⟩
  · rintro ⟨before, behind, heq, hbad⟩
    exact ⟨percent :: before, behind, congrArg (percent :: ·) heq, hbad⟩

theorem decode_none_iff (code : Text) : decode code = none ↔ Malformed code := by
  induction code using decode.induct with
  | case1 => exact iff_of_false (Option.some_ne_none _) not_malformed_nil
  | case2 behind ih => rw [decode_plus, Option.map_eq_none_iff, ih, malformed_cons (by decide)]
  | case3 high low rest h l hlow hhigh _ ih =>
    rw [decode_escape hhigh hlow, Option.map_eq_none_iff, ih,
      malformed_escape (hexValue_some.mp hhigh) (hexValue_some.mp hlow)]
  | case4 high low rest hno =>
    have hbad : ¬ Escape (high :: low :: rest) := by
      rintro ⟨_, _, _, h, l, ⟨⟩, hhigh, hlow⟩
      exact hno _ _ (hexValue_isDigit hhigh) (hexValue_isDigit hlow)
    exact iff_of_true (decode_bad hbad) ⟨[], _, rfl, hbad⟩
  | case5 behind hno =>
    have hbad : ¬ Escape behind := by
      rintro ⟨high, low, rest, h, l, heq, -, -⟩
      exact hno high low rest heq
    exact iff_of_true (decode_bad hbad) ⟨[], _, rfl, hbad⟩
  | case6 c behind hplus hpercent ih =>
    rw [decode_plain hplus hpercent, Option.map_eq_none_iff, ih, malformed_cons hpercent]

/-- Without a plus sign and a percent sign there is nothing to decode. -/
theorem decode_literal {code : Text} (hplus : plus ∉ code) (hpercent : percent ∉ code) :
    decode code = some code := by
  induction code with
  | nil => rfl
  | cons c code ih =>
    rw [List.mem_cons, not_or] at hplus hpercent
    rw [decode_plain (Ne.symm hplus.1) (Ne.symm hpercent.1), ih hplus.2 hpercent.2, Option.map_some]

end Ceasy.UrlEncoding
