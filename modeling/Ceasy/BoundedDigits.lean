import Mathlib

set_option autoImplicit false

/-!
# Reading digits up to a limit

Digits are read from the most significant one on, and a digit is refused when the number would
pass the limit. The test divides what is left of the limit, so that it never leaves the numbers up
to the limit itself.
-/
namespace BoundedDigits

/-- The number behind `start` and the digits, the most significant one first. -/
def value (base : ℕ) (digits : List ℕ) (start : ℕ) : ℕ :=
  digits.foldl (fun number digit => base * number + digit) start

def read (base limit : ℕ) : List ℕ → ℕ → Option ℕ
  | [], number => some number
  | digit :: digits, number =>
    if (limit - digit) / base < number then none
    else read base limit digits (base * number + digit)

variable {base limit digit number : ℕ} {digits : List ℕ}

@[simp]
theorem value_nil (base start : ℕ) : value base [] start = start := rfl

@[simp]
theorem value_cons (base digit start : ℕ) (digits : List ℕ) :
    value base (digit :: digits) start = value base digits (base * start + digit) := rfl

theorem value_eq (base start : ℕ) (digits : List ℕ) :
    value base digits start = base ^ digits.length * start + Nat.ofDigits base digits.reverse := by
  induction digits generalizing start with
  | nil => simp
  | cons digit digits ih =>
    rw [value_cons, ih, Nat.ofDigits_reverse_cons, List.length_cons, pow_succ]
    ring

theorem value_zero (base : ℕ) (digits : List ℕ) :
    value base digits 0 = Nat.ofDigits base digits.reverse := by
  rw [value_eq, Nat.mul_zero, Nat.zero_add]

theorem le_value (hbase : 0 < base) (digits : List ℕ) (start : ℕ) :
    start ≤ value base digits start := by
  induction digits generalizing start with
  | nil => exact Nat.le_refl start
  | cons digit digits ih =>
    have hnext := ih (base * start + digit)
    have hmul := Nat.le_mul_of_pos_left start hbase
    rw [value_cons]
    omega

theorem test_iff (hbase : 0 < base) (hdigit : digit ≤ limit) :
    (limit - digit) / base < number ↔ limit < base * number + digit := by
  rw [Nat.div_lt_iff_lt_mul hbase, Nat.mul_comm number base]
  omega

/-- What is read is the number that the digits denote, and it is read exactly if it is within the
limit. -/
theorem read_eq_some_iff (hbase : 0 < base) (hdigits : ∀ digit ∈ digits, digit ≤ limit) {start : ℕ}
    (hstart : start ≤ limit) :
    read base limit digits start = some number ↔
      value base digits start = number ∧ number ≤ limit := by
  induction digits generalizing start with
  | nil =>
    rw [read, value_nil, Option.some.injEq]
    exact ⟨fun h => ⟨h, h ▸ hstart⟩, And.left⟩
  | cons digit digits ih =>
    obtain ⟨hdigit, hrest⟩ := List.forall_mem_cons.mp hdigits
    have htest := @test_iff base limit digit start hbase hdigit
    have hgrows := le_value hbase digits (base * start + digit)
    rw [read, value_cons]
    split_ifs with hpast
    · refine iff_of_false nofun fun h => ?_
      have hlimit := htest.mp hpast
      omega
    · exact ih hrest (by omega)

end BoundedDigits
