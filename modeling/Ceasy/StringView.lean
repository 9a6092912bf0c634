import Ceasy.Occurrence

set_option autoImplicit false

/-!
# Byte views

A `StringView` is the list of its bytes. Where the source tells a NULL data
pointer from an empty view, the model says so with an `Option`; everywhere else
a view is valid and the pointer is not observed.
-/
namespace Ceasy.StringView
open Occurrence

abbrev Bytes := List UInt8

instance : LawfulBEq Bytes := inferInstance

def ch (c : Char) : UInt8 := c.toUInt8

def sv (s : String) : Bytes := s.toList.map ch

/-- A NUL-terminated string is the bytes before its terminator. -/
structure CString where
  bytes : Bytes
  noNul : (0 : UInt8) ∉ bytes

def stringvFromCstr (value : CString) : Bytes := value.bytes

def stringvAsciiSpace (value : UInt8) : Bool :=
  value = ch ' ' || value = ch '\t' || value = ch '\r' || value = ch '\n' ||
    value = 12 || value = 11

def stringvAsciiLower (value : UInt8) : UInt8 :=
  if ch 'A' ≤ value ∧ value ≤ ch 'Z' then value + (ch 'a' - ch 'A') else value

def stringvEqual (a b : Bytes) : Bool := a == b

def stringvEqualIgnoreCase (a b : Bytes) : Bool :=
  a.length == b.length && (a.zip b).all fun p => stringvAsciiLower p.1 == stringvAsciiLower p.2

def stringvFind (value search : Bytes) : Option ℕ :=
  if value.length < search.length then none
  else if search.length = 0 then some 0
  else (List.range (value.length - search.length + 1)).find? fun position =>
    (value.drop position).take search.length == search

def stringvContains (value search : Bytes) : Bool := (stringvFind value search).isSome

def stringvFindChar (value : Bytes) (search : UInt8) : Option ℕ := value.findIdx? (· == search)

def stringvRfindChar (value : Bytes) (search : UInt8) : Option ℕ :=
  (stringvFindChar value.reverse search).map fun index => value.length - 1 - index

def stringvSlice (value : Bytes) (start length : ℕ) : Bytes := (value.drop start).take length

def stringvFrom (value : Bytes) (start : ℕ) : Bytes := value.drop start

def stringvTrimLeft (value : Bytes) : Bytes := value.dropWhile stringvAsciiSpace

def stringvTrimRight (value : Bytes) : Bytes := value.rdropWhile stringvAsciiSpace

def stringvTrim (value : Bytes) : Bytes := stringvTrimRight (stringvTrimLeft value)

def stringvSplitOnceChar (value : Bytes) (separator : UInt8) : Option (Bytes × Bytes) :=
  (stringvFindChar value separator).map fun index =>
    (stringvSlice value 0 index, stringvFrom value (index + 1))

/-- The digit loop of `stringv_parse_unsigned`, in 64-bit arithmetic. -/
def stringvParseDigits (limit : UInt64) : Bytes → UInt64 → Option UInt64
  | [], parsed => some parsed
  | c :: rest, parsed =>
    if c < ch '0' ∨ ch '9' < c then none
    else
      let digit := (c - ch '0').toUInt64
      if (limit - digit) / 10 < parsed then none
      else stringvParseDigits limit rest (parsed * 10 + digit)

def stringvParseUnsigned (value : Bytes) (limit : UInt64) (allowSign : Bool) :
    Option (Bool × UInt64) :=
  match value with
  | [] => none
  | c :: rest =>
    if allowSign && (c == ch '-' || c == ch '+') then
      if rest = [] then none
      else (stringvParseDigits limit rest 0).map fun parsed => (c == ch '-', parsed)
    else (stringvParseDigits limit value 0).map fun parsed => (false, parsed)

def SIZE_MAX : ℕ := 2 ^ 64 - 1

def INT_MAX : ℕ := 2 ^ 31 - 1

def stringvParseSize (value : Bytes) : Option ℕ :=
  (stringvParseUnsigned value (UInt64.ofNat SIZE_MAX) false).map fun r => r.2.toNat

/-- The conversions `%zu` and `%lld`. -/
def decimal (n : ℕ) : Bytes := (Nat.toDigits 10 n).map ch

def signedDecimal (n : ℤ) : Bytes :=
  if n < 0 then ch '-' :: decimal n.natAbs else decimal n.natAbs

/-- FNV-1a over 64 bits. -/
def stringvHash (value : Bytes) : UInt64 :=
  value.foldl (fun hash byte => (hash ^^^ byte.toUInt64) * 1099511628211) 14695981039346656037

theorem decimal_digit {n : ℕ} {c : UInt8} (h : c ∈ decimal n) : ch '0' ≤ c ∧ c ≤ ch '9' := by
  obtain ⟨digit, hdigit, rfl⟩ := List.mem_map.mp h
  have hrange := Nat.isDigit_of_mem_toDigits (by decide) (by decide) hdigit
  simp only [Char.isDigit, Bool.and_eq_true, decide_eq_true_eq, ge_iff_le,
    UInt32.le_iff_toNat_le] at hrange
  have hlow : 48 ≤ digit.val.toNat := hrange.1
  have hhigh : digit.val.toNat ≤ 57 := hrange.2
  have hnat : (ch digit).toNat = digit.val.toNat := by
    rw [ch, Char.toUInt8, UInt32.toNat_toUInt8]
    omega
  rw [UInt8.le_iff_toNat_le, UInt8.le_iff_toNat_le, hnat]
  exact ⟨hlow, hhigh⟩

theorem stringvFind_some {value search : Bytes} {i : ℕ} (hs : search ≠ []) :
    stringvFind value search = some i ↔ FirstAt search value i := by
  have hpos := List.length_pos_iff.mpr hs
  have hocc : ∀ j, ((value.drop j).take search.length == search) = true ↔
      OccursAt search value j := by
    intro j
    rw [beq_iff_eq, OccursAt, List.prefix_iff_eq_take, eq_comm]
  unfold stringvFind
  by_cases hl : value.length < search.length
  · rw [if_pos hl]
    constructor
    · intro h
      cases h
    · intro h
      have := occursAt_bound h.1 hs
      omega
  · rw [if_neg hl, if_neg (by omega), List.find?_range_eq_some]
    simp only [hocc, List.mem_range, Bool.not_eq_true', ← Bool.not_eq_true]
    constructor
    · rintro ⟨h, -, hlt⟩
      exact ⟨h, hlt⟩
    · rintro ⟨h, hlt⟩
      have := occursAt_bound h hs
      exact ⟨h, by omega, hlt⟩

theorem stringvFind_none {value search : Bytes} (hs : search ≠ []) :
    stringvFind value search = none ↔ ∀ i, ¬ OccursAt search value i := by
  rw [Option.eq_none_iff_forall_ne_some]
  simp only [ne_eq, stringvFind_some hs]
  constructor
  · intro h i hi
    obtain ⟨j, -, hj⟩ := firstAt_exists hi
    exact h j hj
  · intro h i hi
    exact h i hi.1

theorem stringvContains_singleton {value : Bytes} {c : UInt8} :
    stringvContains value [c] = true ↔ c ∈ value := by
  rw [stringvContains, ← Option.ne_none_iff_isSome, ne_eq, stringvFind_none (by simp)]
  constructor
  · intro h
    by_contra hc
    apply h
    intro i hi
    apply hc
    obtain ⟨after, hafter⟩ := hi
    apply List.mem_of_mem_drop
    rw [← hafter]
    exact List.mem_cons_self
  · intro hc h
    obtain ⟨before, after, rfl⟩ := List.append_of_mem hc
    apply h before.length
    rw [OccursAt, List.drop_left]
    exact ⟨after, rfl⟩

theorem stringvFind_append {value search : Bytes} {i : ℕ} (hs : search ≠ [])
    (h : stringvFind value search = some i) (tail : Bytes) :
    stringvFind (value ++ tail) search = some i :=
  (stringvFind_some hs).mpr (firstAt_append ((stringvFind_some hs).mp h) hs tail)

theorem stringvFindChar_none {value : Bytes} {c : UInt8} :
    stringvFindChar value c = none ↔ c ∉ value := by
  rw [stringvFindChar, List.findIdx?_eq_none_iff]
  constructor
  · intro h hc
    simpa using h c hc
  · intro h x hx
    rw [beq_eq_false_iff_ne]
    rintro rfl
    exact h hx

theorem stringvFindChar_split {before after : Bytes} {c : UInt8} (h : c ∉ before) :
    stringvFindChar (before ++ c :: after) c = some before.length := by
  induction before with
  | nil => simp [stringvFindChar, List.findIdx?_cons]
  | cons b before ih =>
    have hb : (b == c) = false := by
      rw [beq_eq_false_iff_ne]
      rintro rfl
      exact h List.mem_cons_self
    have ht := ih (fun hc => h (List.mem_cons_of_mem _ hc))
    rw [stringvFindChar] at ht ⊢
    rw [List.cons_append, List.findIdx?_cons, hb, ht]
    rfl

theorem stringvFindChar_some {value : Bytes} {c : UInt8} {i : ℕ} :
    stringvFindChar value c = some i ↔
      ∃ before after, value = before ++ c :: after ∧ c ∉ before ∧ before.length = i := by
  constructor
  · intro h
    have hc : c ∈ value := by
      by_contra hc
      rw [stringvFindChar_none.mpr hc] at h
      cases h
    obtain ⟨before, after, hv, hb⟩ := List.eq_append_cons_of_mem hc
    rw [hv, stringvFindChar_split hb] at h
    exact ⟨before, after, hv, hb, Option.some.inj h⟩
  · rintro ⟨before, after, rfl, hb, rfl⟩
    exact stringvFindChar_split hb

theorem stringvSplitOnceChar_none {value : Bytes} {c : UInt8} :
    stringvSplitOnceChar value c = none ↔ c ∉ value := by
  rw [stringvSplitOnceChar, Option.map_eq_none_iff, stringvFindChar_none]

theorem stringvSplitOnceChar_some {value left right : Bytes} {c : UInt8} :
    stringvSplitOnceChar value c = some (left, right) ↔
      value = left ++ c :: right ∧ c ∉ left := by
  rw [stringvSplitOnceChar, Option.map_eq_some_iff]
  constructor
  · rintro ⟨i, hi, h⟩
    obtain ⟨before, after, rfl, hb, rfl⟩ := stringvFindChar_some.mp hi
    simp only [stringvSlice, stringvFrom, List.drop_zero, List.take_left, Prod.mk.injEq] at h
    obtain ⟨rfl, rfl⟩ := h
    refine ⟨?_, hb⟩
    rw [← List.drop_drop, List.drop_left, List.drop_one, List.tail_cons]
  · rintro ⟨rfl, hb⟩
    refine ⟨left.length, stringvFindChar_split hb, ?_⟩
    simp only [stringvSlice, stringvFrom, List.drop_zero, List.take_left]
    rw [← List.drop_drop, List.drop_left, List.drop_one, List.tail_cons]

end Ceasy.StringView
