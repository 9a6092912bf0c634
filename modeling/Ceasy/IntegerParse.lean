import Ceasy.StringView
import Ceasy.BoundedDigits

set_option autoImplicit false

/-!
# Integers from byte views

The parsers write through a result pointer, so they take what it points to and give back what it
points to afterwards. A NULL result is refused before anything is read.

Beside the parsers on machine words stands the same code with operations that trap where the word is
not the exact result. Where the two agree, nothing has wrapped. The index of the loop is not among
these: it runs up to the length, which is a `size_t` itself.
-/
namespace Ceasy.IntegerParse
open StringView BoundedDigits

def digitValue (c : UInt8) : ℕ := c.toNat - (ch '0').toNat

/-- One or more decimal digits with this value, any number of leading zeros among them. -/
structure Numeral (digits : Bytes) (n : ℕ) : Prop where
  nonempty : digits ≠ []
  ascii : ∀ c ∈ digits, ch '0' ≤ c ∧ c ≤ ch '9'
  value : Nat.ofDigits 10 (digits.map digitValue).reverse = n

inductive DenotesInteger : Bytes → ℤ → Prop
  | plain {digits : Bytes} {n : ℕ} (h : Numeral digits n) : DenotesInteger digits n
  | plus {digits : Bytes} {n : ℕ} (h : Numeral digits n) : DenotesInteger (ch '+' :: digits) n
  | minus {digits : Bytes} {n : ℕ} (h : Numeral digits n) : DenotesInteger (ch '-' :: digits) (-n)

def INT64_MAX : UInt64 := 9223372036854775807

def INT_MIN : Int64 := -2147483648

/-- The largest absolute value that an `int64_t` has with this sign. -/
def signedLimit (negative : Bool) : UInt64 := if negative then INT64_MAX + 1 else INT64_MAX

/-- `INT64_MIN` is apart, for its absolute value is no `int64_t`. -/
def signedResult (negative : Bool) (parsed : UInt64) : Int64 :=
  if negative then if parsed = INT64_MAX + 1 then Int64.minValue else -parsed.toInt64
  else parsed.toInt64

def stringvParseInt64 (value : Bytes) (result : Int64) : Bool × Int64 :=
  let negative := value.head? == some (ch '-')
  match stringvParseUnsigned value (signedLimit negative) true with
  | none => (false, result)
  | some (negative, parsed) => (true, signedResult negative parsed)

def stringvParseInt (value : Bytes) (result : Int32) : Bool × Int32 :=
  let parsed := stringvParseInt64 value 0
  if !parsed.1 || parsed.2 < INT_MIN || Int64.ofNat INT_MAX < parsed.2 then (false, result)
  else (true, parsed.2.toInt32)

def stringvParseSizeResult (value : Bytes) (result : UInt64) : Bool × UInt64 :=
  match stringvParseUnsigned value (UInt64.ofNat SIZE_MAX) false with
  | none => (false, result)
  | some (_, parsed) => (true, parsed)

def byteExact (word : UInt8) (value : ℤ) : Option UInt8 :=
  if (word.toNat : ℤ) = value then some word else none

def unsignedExact (word : UInt64) (value : ℤ) : Option UInt64 :=
  if (word.toNat : ℤ) = value then some word else none

def signedExact (word : Int64) (value : ℤ) : Option Int64 :=
  if word.toInt = value then some word else none

def trappingDigits (limit : UInt64) : Bytes → UInt64 → Option (Option UInt64)
  | [], parsed => some (some parsed)
  | c :: rest, parsed =>
    if c < ch '0' ∨ ch '9' < c then some none
    else do
      let digit ← byteExact (c - ch '0') (c.toNat - (ch '0').toNat)
      let room ← unsignedExact (limit - digit.toUInt64) (limit.toNat - digit.toNat)
      if room / 10 < parsed then some none
      else do
        let scaled ← unsignedExact (parsed * 10) (parsed.toNat * 10)
        let next ← unsignedExact (scaled + digit.toUInt64) (scaled.toNat + digit.toNat)
        trappingDigits limit rest next

def trappingUnsigned (value : Bytes) (limit : UInt64) (allowSign : Bool) :
    Option (Option (Bool × UInt64)) :=
  match value with
  | [] => some none
  | c :: rest =>
    if allowSign && (c == ch '-' || c == ch '+') then
      if rest = [] then some none
      else (trappingDigits limit rest 0).map (Option.map fun parsed => (c == ch '-', parsed))
    else (trappingDigits limit value 0).map (Option.map fun parsed => (false, parsed))

def trappingSigned (negative : Bool) (parsed : UInt64) : Option Int64 :=
  if negative then do
    let lowest ← unsignedExact (INT64_MAX + 1) (INT64_MAX.toNat + 1)
    if parsed = lowest then some Int64.minValue
    else do
      let word ← signedExact parsed.toInt64 parsed.toNat
      signedExact (-word) (-word.toInt)
  else signedExact parsed.toInt64 parsed.toNat

def trappingLimit (negative : Bool) : Option UInt64 :=
  if negative then unsignedExact (INT64_MAX + 1) (INT64_MAX.toNat + 1) else some INT64_MAX

def trappingInt64 (value : Bytes) (result : Int64) : Option (Bool × Int64) := do
  let negative := value.head? == some (ch '-')
  let limit ← trappingLimit negative
  match ← trappingUnsigned value limit true with
  | none => some (false, result)
  | some (negative, parsed) => do
    let word ← trappingSigned negative parsed
    some (true, word)

def trappingSize (value : Bytes) (result : UInt64) : Option (Bool × UInt64) := do
  match ← trappingUnsigned value (UInt64.ofNat SIZE_MAX) false with
  | none => some (false, result)
  | some (_, parsed) => some (true, parsed)

section digit
variable {limit parsed : UInt64} {c : UInt8}

theorem digitValue_le (hc : ch '0' ≤ c ∧ c ≤ ch '9') :
    digitValue c ≤ 9 ∧ digitValue c + (ch '0').toNat = c.toNat := by
  have hlow := UInt8.le_iff_toNat_le.mp hc.1
  have hhigh := UInt8.le_iff_toNat_le.mp hc.2
  have hzero : (ch '0').toNat = 48 := rfl
  have hnine : (ch '9').toNat = 57 := rfl
  unfold digitValue
  omega

theorem toNat_digit (hc : ch '0' ≤ c ∧ c ≤ ch '9') : (c - ch '0').toNat = digitValue c :=
  UInt8.toNat_sub_of_le _ _ hc.1

theorem toNat_room (hlimit : 9 ≤ limit.toNat) (hc : ch '0' ≤ c ∧ c ≤ ch '9') :
    (limit - (c - ch '0').toUInt64).toNat = limit.toNat - digitValue c := by
  have hdigit := (digitValue_le hc).1
  rw [UInt64.toNat_sub_of_le, UInt8.toNat_toUInt64, toNat_digit hc]
  rw [UInt64.le_iff_toNat_le, UInt8.toNat_toUInt64, toNat_digit hc]
  omega

/-- The test in front of a digit is the exact test of the next number. -/
theorem guard_iff (hlimit : 9 ≤ limit.toNat) (hc : ch '0' ≤ c ∧ c ≤ ch '9') :
    (limit - (c - ch '0').toUInt64) / 10 < parsed ↔
      (limit.toNat - digitValue c) / 10 < parsed.toNat := by
  rw [UInt64.lt_iff_toNat_lt, UInt64.toNat_div, toNat_room hlimit hc]
  rfl

/-- Past the test the next number is the exact one, and so is what is scaled for it. -/
theorem toNat_next (hc : ch '0' ≤ c ∧ c ≤ ch '9')
    (hfits : 10 * parsed.toNat + digitValue c ≤ limit.toNat) :
    (parsed * 10).toNat = parsed.toNat * 10 ∧
      (parsed * 10 + (c - ch '0').toUInt64).toNat = 10 * parsed.toNat + digitValue c := by
  have hword := limit.toNat_lt
  have hten : (10 : UInt64).toNat = 10 := rfl
  have hscaled : (parsed * 10).toNat = parsed.toNat * 10 := by
    rw [UInt64.toNat_mul, hten]
    omega
  refine ⟨hscaled, ?_⟩
  rw [UInt64.toNat_add, hscaled, UInt8.toNat_toUInt64, toNat_digit hc]
  omega

end digit

section loop
variable {limit parsed : UInt64} {digits : Bytes} {c : UInt8}

theorem stringvParseDigits_digit (hc : ch '0' ≤ c ∧ c ≤ ch '9') :
    stringvParseDigits limit (c :: digits) parsed =
      if (limit - (c - ch '0').toUInt64) / 10 < parsed then none
      else stringvParseDigits limit digits (parsed * 10 + (c - ch '0').toUInt64) :=
  if_neg (not_or.mpr ⟨UInt8.not_lt.mpr hc.1, UInt8.not_lt.mpr hc.2⟩)

theorem stringvParseDigits_other (hc : ¬ (ch '0' ≤ c ∧ c ≤ ch '9')) :
    stringvParseDigits limit (c :: digits) parsed = none := by
  refine if_pos ?_
  rw [← UInt8.not_le, ← UInt8.not_le, ← not_and_or]
  exact hc

theorem stringvParseDigits_ascii {number : UInt64}
    (h : stringvParseDigits limit digits parsed = some number) :
    ∀ c ∈ digits, ch '0' ≤ c ∧ c ≤ ch '9' := by
  induction digits generalizing parsed with
  | nil => exact List.forall_mem_nil _
  | cons c digits ih =>
    by_cases hc : ch '0' ≤ c ∧ c ≤ ch '9'
    · rw [stringvParseDigits_digit hc] at h
      split_ifs at h
      exact List.forall_mem_cons.mpr ⟨hc, ih h⟩
    · rw [stringvParseDigits_other hc] at h
      cases h

theorem stringvParseDigits_read (hlimit : 9 ≤ limit.toNat)
    (hascii : ∀ c ∈ digits, ch '0' ≤ c ∧ c ≤ ch '9') :
    (stringvParseDigits limit digits parsed).map UInt64.toNat =
      BoundedDigits.read 10 limit.toNat (digits.map digitValue) parsed.toNat := by
  induction digits generalizing parsed with
  | nil => rfl
  | cons c digits ih =>
    obtain ⟨hc, hrest⟩ := List.forall_mem_cons.mp hascii
    have hdigit := (digitValue_le hc).1
    rw [stringvParseDigits_digit hc, List.map_cons, BoundedDigits.read]
    simp only [guard_iff hlimit hc]
    split_ifs with hpast
    · rfl
    · have hfits := mt (test_iff (by omega) (by omega : digitValue c ≤ limit.toNat)).mpr hpast
      rw [ih hrest, (toNat_next hc (not_lt.mp hfits)).2]

theorem trappingDigits_digit (hc : ch '0' ≤ c ∧ c ≤ ch '9') :
    trappingDigits limit (c :: digits) parsed =
      (byteExact (c - ch '0') (c.toNat - (ch '0').toNat)).bind fun digit =>
      (unsignedExact (limit - digit.toUInt64) (limit.toNat - digit.toNat)).bind fun room =>
      if room / 10 < parsed then some none
      else
        (unsignedExact (parsed * 10) (parsed.toNat * 10)).bind fun scaled =>
        (unsignedExact (scaled + digit.toUInt64) (scaled.toNat + digit.toNat)).bind fun next =>
        trappingDigits limit digits next :=
  if_neg (not_or.mpr ⟨UInt8.not_lt.mpr hc.1, UInt8.not_lt.mpr hc.2⟩)

theorem trappingDigits_other (hc : ¬ (ch '0' ≤ c ∧ c ≤ ch '9')) :
    trappingDigits limit (c :: digits) parsed = some none := by
  refine if_pos ?_
  rw [← UInt8.not_le, ← UInt8.not_le, ← not_and_or]
  exact hc

theorem trappingDigits_eq (hlimit : 9 ≤ limit.toNat) :
    trappingDigits limit digits parsed = some (stringvParseDigits limit digits parsed) := by
  induction digits generalizing parsed with
  | nil => rfl
  | cons c digits ih =>
    by_cases hc : ch '0' ≤ c ∧ c ≤ ch '9'
    · obtain ⟨hdigit, hback⟩ := digitValue_le hc
      have hbyte : byteExact (c - ch '0') (c.toNat - (ch '0').toNat) = some (c - ch '0') := by
        refine if_pos ?_
        rw [toNat_digit hc]
        omega
      have hroom : unsignedExact (limit - (c - ch '0').toUInt64)
          (limit.toNat - (c - ch '0').toNat) = some (limit - (c - ch '0').toUInt64) := by
        refine if_pos ?_
        rw [toNat_room hlimit hc, toNat_digit hc]
        omega
      rw [trappingDigits_digit hc, stringvParseDigits_digit hc, hbyte, Option.bind_some, hroom,
        Option.bind_some]
      split_ifs with hpast
      · rfl
      have hfits := mt (test_iff (by omega) (by omega : digitValue c ≤ limit.toNat)).mpr
        (mt (guard_iff hlimit hc).mpr hpast)
      obtain ⟨hscaled, hnext⟩ := toNat_next hc (not_lt.mp hfits)
      have hmul : unsignedExact (parsed * 10) (parsed.toNat * 10) = some (parsed * 10) := by
        refine if_pos ?_
        rw [hscaled]
        omega
      have hadd : unsignedExact (parsed * 10 + (c - ch '0').toUInt64)
          ((parsed * 10).toNat + (c - ch '0').toNat) =
            some (parsed * 10 + (c - ch '0').toUInt64) := by
        refine if_pos ?_
        rw [hnext, hscaled, toNat_digit hc]
        omega
      rw [hmul, Option.bind_some, hadd, Option.bind_some]
      exact ih
    · rw [trappingDigits_other hc, stringvParseDigits_other hc]

/-- The loop accepts exactly the numerals within the limit, and gives their value. -/
theorem stringvParseDigits_numeral {number : ℕ} (hlimit : 9 ≤ limit.toNat) (hne : digits ≠ []) :
    (∃ parsed, stringvParseDigits limit digits 0 = some parsed ∧ parsed.toNat = number) ↔
      Numeral digits number ∧ number ≤ limit.toNat := by
  have hread : (∀ c ∈ digits, ch '0' ≤ c ∧ c ≤ ch '9') →
      ((stringvParseDigits limit digits 0).map UInt64.toNat = some number ↔
        Nat.ofDigits 10 (digits.map digitValue).reverse = number ∧ number ≤ limit.toNat) := by
    intro hascii
    have hdigits : ∀ digit ∈ digits.map digitValue, digit ≤ limit.toNat := by
      intro digit hdigit
      obtain ⟨c, hc, rfl⟩ := List.mem_map.mp hdigit
      exact Nat.le_trans (digitValue_le (hascii c hc)).1 hlimit
    rw [stringvParseDigits_read hlimit hascii, UInt64.toNat_zero,
      read_eq_some_iff (by decide) hdigits (Nat.zero_le _), value_zero]
  rw [← Option.map_eq_some_iff]
  constructor
  · intro h
    obtain ⟨parsed, hparsed, -⟩ := Option.map_eq_some_iff.mp h
    have hascii := stringvParseDigits_ascii hparsed
    obtain ⟨hvalue, hle⟩ := (hread hascii).mp h
    exact ⟨⟨hne, hascii, hvalue⟩, hle⟩
  · rintro ⟨hnumeral, hle⟩
    exact (hread hnumeral.ascii).mpr ⟨hnumeral.value, hle⟩

end loop

section sign
variable {limit : UInt64} {c : UInt8} {digits value : Bytes} {allowSign : Bool}

theorem trappingUnsigned_eq (hlimit : 9 ≤ limit.toNat) :
    trappingUnsigned value limit allowSign = some (stringvParseUnsigned value limit allowSign) := by
  cases value with
  | nil => rfl
  | cons c rest =>
    rw [trappingUnsigned, stringvParseUnsigned, trappingDigits_eq hlimit, trappingDigits_eq hlimit]
    split_ifs <;> rfl

theorem Numeral.unsigned {number : ℕ} (h : Numeral (c :: digits) number) :
    (c == ch '-' || c == ch '+') = false := by
  have hlow := UInt8.le_iff_toNat_le.mp (h.ascii c List.mem_cons_self).1
  rw [Bool.or_eq_false_iff, beq_eq_false_iff_ne, beq_eq_false_iff_ne]
  constructor
  · rintro rfl
    exact absurd hlow (by decide)
  · rintro rfl
    exact absurd hlow (by decide)

theorem stringvParseDigits_signed {isNegative negative : Bool} {number : ℕ}
    (hlimit : 9 ≤ limit.toNat) (hne : digits ≠ []) :
    (∃ parsed, (stringvParseDigits limit digits 0).map (fun parsed => (isNegative, parsed)) =
        some (negative, parsed) ∧ parsed.toNat = number) ↔
      isNegative = negative ∧ Numeral digits number ∧ number ≤ limit.toNat := by
  rw [← stringvParseDigits_numeral hlimit hne]
  simp only [Option.map_eq_some_iff, Prod.mk.injEq]
  constructor
  · rintro ⟨_, ⟨parsed, hparsed, hnegative, rfl⟩, hnumber⟩
    exact ⟨hnegative, parsed, hparsed, hnumber⟩
  · rintro ⟨hnegative, parsed, hparsed, hnumber⟩
    exact ⟨parsed, ⟨parsed, hparsed, hnegative, rfl⟩, hnumber⟩

theorem stringvParseUnsigned_sign (hsign : (c == ch '-' || c == ch '+') = true) {negative : Bool}
    {number : ℕ} (hlimit : 9 ≤ limit.toNat) :
    (∃ parsed, stringvParseUnsigned (c :: digits) limit true = some (negative, parsed) ∧
        parsed.toNat = number) ↔
      (c == ch '-') = negative ∧ Numeral digits number ∧ number ≤ limit.toNat := by
  rw [stringvParseUnsigned, Bool.true_and, if_pos hsign]
  by_cases hne : digits = []
  · rw [if_pos hne]
    refine iff_of_false ?_ ?_
    · rintro ⟨parsed, hparsed, -⟩
      cases hparsed
    · rintro ⟨-, hnumeral, -⟩
      exact hnumeral.nonempty hne
  · rw [if_neg hne]
    exact stringvParseDigits_signed hlimit hne

theorem stringvParseUnsigned_plain
    (hsign : (allowSign && (c == ch '-' || c == ch '+')) = false) {negative : Bool} {number : ℕ}
    (hlimit : 9 ≤ limit.toNat) :
    (∃ parsed, stringvParseUnsigned (c :: digits) limit allowSign = some (negative, parsed) ∧
        parsed.toNat = number) ↔
      false = negative ∧ Numeral (c :: digits) number ∧ number ≤ limit.toNat := by
  rw [stringvParseUnsigned, hsign, if_neg Bool.false_ne_true]
  exact stringvParseDigits_signed hlimit (List.cons_ne_nil c digits)

end sign

section result
variable {parsed : UInt64}

theorem toInt_toInt64 (word : UInt64) (hfits : word.toNat < 2 ^ 63) :
    word.toInt64.toInt = word.toNat := by
  rw [← Int64.toInt_ofNat_of_lt hfits, ← UInt64.toInt64_ofNat', UInt64.ofNat_toNat]

def signedValue (negative : Bool) (n : ℕ) : ℤ := if negative then -n else n

theorem signedLimit_bounds (negative : Bool) :
    9 ≤ (signedLimit negative).toNat ∧ (signedLimit negative).toNat ≤ 2 ^ 63 ∧
      (negative = false → (signedLimit negative).toNat < 2 ^ 63) := by
  cases negative <;> decide

/-- Below the limit of the sign the result is the signed number, and the code gets there without
wrapping. -/
theorem trappingSigned_eq {negative : Bool} (hfits : parsed.toNat ≤ (signedLimit negative).toNat) :
    (signedResult negative parsed).toInt = signedValue negative parsed.toNat ∧
      trappingSigned negative parsed = some (signedResult negative parsed) := by
  have hlowest : unsignedExact (INT64_MAX + 1) (INT64_MAX.toNat + 1) = some (INT64_MAX + 1) := rfl
  obtain ⟨-, hbound, hplain⟩ := signedLimit_bounds negative
  cases negative with
  | false =>
    have hword := toInt_toInt64 parsed (Nat.lt_of_le_of_lt hfits (hplain rfl))
    exact ⟨hword, if_pos hword⟩
  | true =>
    rw [trappingSigned, if_pos rfl, hlowest, Option.bind_eq_bind, Option.bind_some, signedResult,
      if_pos rfl]
    split_ifs with hparsed
    · rw [hparsed]
      exact ⟨rfl, rfl⟩
    have hne : parsed.toNat ≠ (INT64_MAX + 1).toNat := fun h => hparsed (UInt64.toNat_inj.mp h)
    have hmax : (INT64_MAX + 1).toNat = 2 ^ 63 := rfl
    have hword := toInt_toInt64 parsed (by omega)
    have hneg : (-parsed.toInt64).toInt = -(parsed.toNat : ℤ) := by
      rw [Int64.toInt_neg, hword, Int.bmod_eq_of_le] <;> omega
    have hsigned : signedExact parsed.toInt64 parsed.toNat = some parsed.toInt64 := if_pos hword
    rw [hsigned, Option.bind_eq_bind, Option.bind_some]
    refine ⟨hneg, if_pos ?_⟩
    rw [hneg, hword]

end result

section parsers
variable {value digits : Bytes} {c : UInt8} {v : ℤ}

theorem denotesInteger_minus :
    DenotesInteger (ch '-' :: digits) v ↔ ∃ n, Numeral digits n ∧ -n = v := by
  constructor
  · intro h
    cases h with
    | plain h => exact absurd h.unsigned (by decide)
    | minus h => exact ⟨_, h, rfl⟩
  · rintro ⟨n, hnumeral, rfl⟩
    exact .minus hnumeral

theorem denotesInteger_plus :
    DenotesInteger (ch '+' :: digits) v ↔ ∃ n : ℕ, Numeral digits n ∧ n = v := by
  constructor
  · intro h
    cases h with
    | plain h => exact absurd h.unsigned (by decide)
    | plus h => exact ⟨_, h, rfl⟩
  · rintro ⟨n, hnumeral, rfl⟩
    exact .plus hnumeral

theorem denotesInteger_plain (hsign : (c == ch '-' || c == ch '+') = false) :
    DenotesInteger (c :: digits) v ↔ ∃ n : ℕ, Numeral (c :: digits) n ∧ n = v := by
  constructor
  · intro h
    cases h with
    | plain h => exact ⟨_, h, rfl⟩
    | plus h => exact absurd hsign (by decide)
    | minus h => exact absurd hsign (by decide)
  · rintro ⟨n, hnumeral, rfl⟩
    exact .plain hnumeral

/-- What is parsed as an `int64_t` is the signed value of a number below the limit of the sign. -/
theorem stringvParseInt64_iff {negative : Bool} {result : Int64}
    (hnegative : (value.head? == some (ch '-')) = negative)
    (hparsed : ∀ isNegative number, (∃ parsed,
        stringvParseUnsigned value (signedLimit negative) true = some (isNegative, parsed) ∧
          parsed.toNat = number) ↔
      negative = isNegative ∧ Numeral digits number ∧ number ≤ (signedLimit negative).toNat) :
    (stringvParseInt64 value result).1 = true ∧ (stringvParseInt64 value result).2.toInt = v ↔
      ∃ n, Numeral digits n ∧ n ≤ (signedLimit negative).toNat ∧ signedValue negative n = v := by
  rw [stringvParseInt64, hnegative]
  constructor
  · rintro ⟨hok, rfl⟩
    cases hunsigned : stringvParseUnsigned value (signedLimit negative) true with
    | none =>
      rw [hunsigned] at hok
      cases hok
    | some found =>
      obtain ⟨rfl, hnumeral, hle⟩ := (hparsed found.1 found.2.toNat).mp ⟨found.2, hunsigned, rfl⟩
      exact ⟨found.2.toNat, hnumeral, hle, (trappingSigned_eq hle).1.symm⟩
  · rintro ⟨n, hnumeral, hle, rfl⟩
    obtain ⟨parsed, hunsigned, rfl⟩ := (hparsed negative n).mpr ⟨rfl, hnumeral, hle⟩
    rw [hunsigned]
    exact ⟨rfl, (trappingSigned_eq hle).1⟩

/-- The limit of a sign is the end of the range on its side. -/
theorem le_signedLimit_iff {negative : Bool} {n : ℕ} :
    n ≤ (signedLimit negative).toNat ↔
      Int64.minValue.toInt ≤ signedValue negative n ∧
        signedValue negative n ≤ Int64.maxValue.toInt := by
  have hmin : Int64.minValue.toInt = -2 ^ 63 := rfl
  have hmax : Int64.maxValue.toInt = 2 ^ 63 - 1 := rfl
  cases negative with
  | false =>
    have hlimit : (signedLimit false).toNat = 2 ^ 63 - 1 := rfl
    rw [signedValue, if_neg Bool.false_ne_true]
    omega
  | true =>
    have hlimit : (signedLimit true).toNat = 2 ^ 63 := rfl
    rw [signedValue, if_pos rfl]
    omega

theorem stringvParseInt64_denotes (value : Bytes) (result : Int64) (v : ℤ) :
    (stringvParseInt64 value result).1 = true ∧ (stringvParseInt64 value result).2.toInt = v ↔
      DenotesInteger value v ∧ Int64.minValue.toInt ≤ v ∧ v ≤ Int64.maxValue.toInt := by
  have hrange {negative : Bool} {digits : Bytes} :
      (∃ n, Numeral digits n ∧ n ≤ (signedLimit negative).toNat ∧ signedValue negative n = v) ↔
        (∃ n, Numeral digits n ∧ signedValue negative n = v) ∧
          Int64.minValue.toInt ≤ v ∧ v ≤ Int64.maxValue.toInt := by
    constructor
    · rintro ⟨n, hnumeral, hle, rfl⟩
      exact ⟨⟨n, hnumeral, rfl⟩, le_signedLimit_iff.mp hle⟩
    · rintro ⟨⟨n, hnumeral, rfl⟩, hvalue⟩
      exact ⟨n, hnumeral, le_signedLimit_iff.mpr hvalue, rfl⟩
  cases value with
  | nil =>
    refine iff_of_false (fun h => Bool.false_ne_true h.1) ?_
    rintro ⟨h, -⟩
    cases h with
    | plain h => exact h.nonempty rfl
  | cons c digits =>
    cases hsign : c == ch '-' || c == ch '+' with
    | false =>
      have hminus := (Bool.or_eq_false_iff.mp hsign).1
      have hhead : ((c :: digits).head? == some (ch '-')) = false := by
        rw [List.head?_cons, Option.some_beq_some]
        exact hminus
      rw [denotesInteger_plain hsign]
      exact (stringvParseInt64_iff hhead fun _ _ =>
        stringvParseUnsigned_plain (by rw [hsign, Bool.and_false])
          (signedLimit_bounds false).1).trans hrange
    | true =>
      obtain h | h := (Bool.or_eq_true _ _).mp hsign
      · obtain rfl := eq_of_beq h
        have hhead : ((ch '-' :: digits).head? == some (ch '-')) = true := rfl
        rw [denotesInteger_minus]
        exact (stringvParseInt64_iff hhead fun _ _ =>
          stringvParseUnsigned_sign rfl (signedLimit_bounds true).1).trans hrange
      · obtain rfl := eq_of_beq h
        have hhead : ((ch '+' :: digits).head? == some (ch '-')) = false := rfl
        rw [denotesInteger_plus]
        exact (stringvParseInt64_iff hhead fun _ _ =>
          stringvParseUnsigned_sign rfl (signedLimit_bounds false).1).trans hrange

theorem stringvParseUnsigned_le {limit parsed : UInt64} {negative : Bool}
    (hlimit : 9 ≤ limit.toNat)
    (h : stringvParseUnsigned value limit true = some (negative, parsed)) :
    (value.head? == some (ch '-')) = negative ∧ parsed.toNat ≤ limit.toNat := by
  cases value with
  | nil => cases h
  | cons c digits =>
    have hhead : ((c :: digits).head? == some (ch '-')) = (c == ch '-') := rfl
    cases hsign : c == ch '-' || c == ch '+' with
    | false =>
      obtain ⟨rfl, -, hle⟩ := (stringvParseUnsigned_plain (by rw [hsign, Bool.and_false])
        hlimit).mp ⟨parsed, h, rfl⟩
      exact ⟨hhead.trans (Bool.or_eq_false_iff.mp hsign).1, hle⟩
    | true =>
      obtain ⟨hnegative, -, hle⟩ := (stringvParseUnsigned_sign hsign hlimit).mp ⟨parsed, h, rfl⟩
      exact ⟨hhead.trans hnegative, hle⟩

theorem trappingInt64_eq (value : Bytes) (result : Int64) :
    trappingInt64 value result = some (stringvParseInt64 value result) := by
  generalize hnegative : (value.head? == some (ch '-')) = negative
  have hlimit : trappingLimit negative = some (signedLimit negative) := by
    cases negative <;> rfl
  rw [trappingInt64, stringvParseInt64, hnegative, hlimit, Option.bind_eq_bind, Option.bind_some,
    trappingUnsigned_eq (signedLimit_bounds negative).1, Option.bind_eq_bind, Option.bind_some]
  cases hparsed : stringvParseUnsigned value (signedLimit negative) true with
  | none => rfl
  | some found =>
    obtain ⟨isNegative, parsed⟩ := found
    obtain ⟨hsame, hle⟩ := stringvParseUnsigned_le (signedLimit_bounds negative).1 hparsed
    obtain rfl := hnegative.symm.trans hsame
    dsimp only
    rw [(trappingSigned_eq hle).2]
    rfl

theorem stringvParseInt64_refused {value : Bytes} {result : Int64}
    (h : (stringvParseInt64 value result).1 = false) :
    (stringvParseInt64 value result).2 = result := by
  rw [stringvParseInt64] at h ⊢
  split at h
  · rfl
  · cases h

end parsers

section sizes
variable {value : Bytes}

theorem stringvParseSize_denotes {n : ℕ} :
    stringvParseSize value = some n ↔ Numeral value n ∧ n ≤ SIZE_MAX := by
  have hlimit : (UInt64.ofNat SIZE_MAX).toNat = SIZE_MAX := by decide
  rw [stringvParseSize, Option.map_eq_some_iff]
  cases value with
  | nil =>
    refine iff_of_false ?_ fun h => h.1.nonempty rfl
    rintro ⟨found, hfound, -⟩
    cases hfound
  | cons c digits =>
    rw [← hlimit]
    constructor
    · rintro ⟨⟨negative, parsed⟩, hparsed, rfl⟩
      exact ((stringvParseUnsigned_plain (Bool.false_and _) (by decide)).mp
        ⟨parsed, hparsed, rfl⟩).2
    · rintro ⟨hnumeral, hle⟩
      obtain ⟨parsed, hparsed, rfl⟩ :=
        (stringvParseUnsigned_plain (Bool.false_and _) (by decide)).mpr ⟨rfl, hnumeral, hle⟩
      exact ⟨(false, parsed), hparsed, rfl⟩

/-- With the result pointer, the size is the one that is parsed. -/
theorem stringvParseSizeResult_iff {result : UInt64} {n : ℕ} :
    (stringvParseSizeResult value result).1 = true ∧
        (stringvParseSizeResult value result).2.toNat = n ↔ stringvParseSize value = some n := by
  rw [stringvParseSizeResult, stringvParseSize]
  cases stringvParseUnsigned value (UInt64.ofNat SIZE_MAX) false with
  | none => simp
  | some parsed => simp

theorem stringvParseSizeResult_refused {result : UInt64}
    (h : (stringvParseSizeResult value result).1 = false) :
    (stringvParseSizeResult value result).2 = result := by
  rw [stringvParseSizeResult] at h ⊢
  split at h
  · rfl
  · cases h

theorem trappingSize_eq (value : Bytes) (result : UInt64) :
    trappingSize value result = some (stringvParseSizeResult value result) := by
  rw [trappingSize, stringvParseSizeResult, trappingUnsigned_eq (by decide), Option.bind_eq_bind,
    Option.bind_some]
  cases stringvParseUnsigned value (UInt64.ofNat SIZE_MAX) false <;> rfl

end sizes

/-- An `int` is parsed as an `int64_t` and has to be in its own range. -/
theorem stringvParseInt_denotes (value : Bytes) (result : Int32) (v : ℤ) :
    (stringvParseInt value result).1 = true ∧ (stringvParseInt value result).2.toInt = v ↔
      DenotesInteger value v ∧ Int32.minValue.toInt ≤ v ∧ v ≤ Int32.maxValue.toInt := by
  have hlow : INT_MIN.toInt = -2 ^ 31 := rfl
  have hhigh : (Int64.ofNat INT_MAX).toInt = 2 ^ 31 - 1 := rfl
  have hmin : Int32.minValue.toInt = -2 ^ 31 := rfl
  have hmax : Int32.maxValue.toInt = 2 ^ 31 - 1 := rfl
  have hmin' : Int64.minValue.toInt = -2 ^ 63 := rfl
  have hmax' : Int64.maxValue.toInt = 2 ^ 63 - 1 := rfl
  have hparsed := stringvParseInt64_denotes value 0
  rw [stringvParseInt]
  generalize stringvParseInt64 value 0 = parsed at hparsed
  have hrange : (!parsed.1 || parsed.2 < INT_MIN || Int64.ofNat INT_MAX < parsed.2) = false ↔
      parsed.1 = true ∧ -2 ^ 31 ≤ parsed.2.toInt ∧ parsed.2.toInt ≤ 2 ^ 31 - 1 := by
    rw [Bool.or_eq_false_iff, Bool.or_eq_false_iff, Bool.not_eq_false', decide_eq_false_iff_not,
      decide_eq_false_iff_not, Int64.lt_iff_toInt_lt, Int64.lt_iff_toInt_lt, hlow, hhigh, not_lt,
      not_lt, and_assoc]
  cases hout : !parsed.1 || parsed.2 < INT_MIN || Int64.ofNat INT_MAX < parsed.2 with
  | true =>
    rw [if_pos rfl]
    refine iff_of_false (fun h => Bool.false_ne_true h.1) ?_
    rintro ⟨hdenotes, hge, hle⟩
    obtain ⟨hok, rfl⟩ := (hparsed v).mpr ⟨hdenotes, by omega, by omega⟩
    exact Bool.false_ne_true ((hrange.mpr ⟨hok, by omega, by omega⟩).symm.trans hout)
  | false =>
    obtain ⟨hok, hge, hle⟩ := hrange.mp hout
    obtain ⟨hdenotes, -⟩ := (hparsed parsed.2.toInt).mp ⟨hok, rfl⟩
    have hword : parsed.2.toInt32.toInt = parsed.2.toInt := by
      rw [Int64.toInt_toInt32, Int.bmod_eq_of_le] <;> omega
    rw [if_neg Bool.false_ne_true, hword]
    constructor
    · rintro ⟨-, rfl⟩
      exact ⟨hdenotes, by omega, by omega⟩
    · rintro ⟨hv, hlow, hhigh⟩
      exact ⟨rfl, ((hparsed v).mpr ⟨hv, by omega, by omega⟩).2⟩

/-- The parsers of `int64_t` and of sizes give what the string denotes, for exactly the strings that
denote a number in the range. They leave the result alone otherwise, and nothing wraps on the
way. -/
theorem stringvParse_exact (value : Bytes) :
    (∀ (result : Int64) (v : ℤ), (stringvParseInt64 value result).1 = true ∧
        (stringvParseInt64 value result).2.toInt = v ↔
      DenotesInteger value v ∧ Int64.minValue.toInt ≤ v ∧ v ≤ Int64.maxValue.toInt) ∧
    (∀ (result : UInt64) (n : ℕ), (stringvParseSizeResult value result).1 = true ∧
        (stringvParseSizeResult value result).2.toNat = n ↔ Numeral value n ∧ n ≤ SIZE_MAX) ∧
    (∀ result, (stringvParseInt64 value result).1 = false →
      (stringvParseInt64 value result).2 = result) ∧
    (∀ result, (stringvParseSizeResult value result).1 = false →
      (stringvParseSizeResult value result).2 = result) ∧
    (∀ result, trappingInt64 value result = some (stringvParseInt64 value result)) ∧
    ∀ result, trappingSize value result = some (stringvParseSizeResult value result) :=
  ⟨stringvParseInt64_denotes value,
    fun _ _ => stringvParseSizeResult_iff.trans stringvParseSize_denotes,
    fun _ => stringvParseInt64_refused, fun _ => stringvParseSizeResult_refused,
    trappingInt64_eq value, trappingSize_eq value⟩

end Ceasy.IntegerParse
