import Mathlib

set_option autoImplicit false

/-!
# Growing arrays

An array that doubles: when its slots are used up, a larger block is asked for, the used slots
are copied and the rest of the block is whatever it holds. Sizes have 64 bits.
-/
namespace GrowingArray

/-- The slots of the current block, the first of which are used. -/
structure Growing (α : Type) where
  slots : List α
  length : ℕ
  fits : length ≤ slots.length

variable {α : Type}

namespace Growing

def empty : Growing α := ⟨[], 0, Nat.le_refl 0⟩

def capacity (array : Growing α) : ℕ := array.slots.length

def items (array : Growing α) : List α := array.slots.take array.length

/-- The capacity that is asked for next, in 64-bit arithmetic. -/
def nextCapacity (first : ℕ) (array : Growing α) : ℕ :=
  if array.capacity = 0 then first else array.capacity * 2 % 2 ^ 64

/-- The block is full, and a larger one is not asked for. -/
def Stuck (first limit : ℕ) (array : Growing α) : Prop :=
  array.length = array.capacity ∧
    (array.nextCapacity first < array.capacity ∨ limit < array.nextCapacity first)

instance (first limit : ℕ) (array : Growing α) : Decidable (array.Stuck first limit) :=
  inferInstanceAs (Decidable (_ ∧ _))

/-- The array in a new block, whose other slots hold `fresh`. -/
def moved (array : Growing α) (capacity : ℕ) (fresh : ℕ → α) : Growing α where
  slots := array.items ++ (List.range (capacity - array.length)).map fresh
  length := array.length
  fits := by
    rw [List.length_append, items, List.length_take, Nat.min_eq_left array.fits]
    exact Nat.le_add_right _ _

def put (array : Growing α) (value : α) (h : array.length < array.capacity) : Growing α where
  slots := array.slots.set array.length value
  length := array.length + 1
  fits := by
    rw [List.length_set]
    exact h

theorem items_length (array : Growing α) : array.items.length = array.length := by
  rw [items, List.length_take, Nat.min_eq_left array.fits]

theorem empty_items : (empty : Growing α).items = [] := rfl

theorem moved_items (array : Growing α) (capacity : ℕ) (fresh : ℕ → α) :
    (array.moved capacity fresh).items = array.items := by
  have hlength : (array.moved capacity fresh).length = array.items.length := array.items_length.symm
  rw [items, hlength]
  exact List.take_left

theorem moved_capacity (array : Growing α) {capacity : ℕ} (h : array.length ≤ capacity) (fresh : ℕ → α) :
    (array.moved capacity fresh).capacity = capacity := by
  unfold Growing.capacity moved
  rw [List.length_append, items_length, List.length_map, List.length_range]
  omega

theorem put_items (array : Growing α) (value : α) (h : array.length < array.capacity) :
    (array.put value h).items = array.items ++ [value] := by
  have htake : (array.slots.set array.length value).take (array.length + 1) =
      array.slots.take array.length ++ [value] := by
    rw [List.take_add_one, List.take_set_of_le (Nat.le_refl _), List.getElem?_set_self h]
    rfl
  exact htake

theorem put_capacity (array : Growing α) (value : α) (h : array.length < array.capacity) :
    (array.put value h).capacity = array.capacity :=
  List.length_set

theorem slots_getElem? (array : Growing α) {index : ℕ} (h : index < array.length) :
    array.slots[index]? = array.items[index]? := by
  rw [items, List.getElem?_take_of_lt h]

/-- The array has never grown, or has doubled from its first capacity within the limit. -/
def Doubled (first limit : ℕ) (array : Growing α) : Prop :=
  array.capacity = 0 ∨ ∃ k, array.capacity = first * 2 ^ k ∧ first * 2 ^ k ≤ limit

theorem empty_doubled (first limit : ℕ) : (empty : Growing α).Doubled first limit := .inl rfl

variable {array : Growing α} {first limit : ℕ}

theorem nextCapacity_zero (h : array.capacity = 0) : array.nextCapacity first = first := if_pos h

theorem nextCapacity_double (hfirst : 0 < first) {k : ℕ} (hk : array.capacity = first * 2 ^ k)
    (hle : first * 2 ^ k ≤ limit) (hlimit : limit < 2 ^ 63) :
    array.nextCapacity first = first * 2 ^ (k + 1) := by
  have hpositive : 0 < first * 2 ^ k := Nat.mul_pos hfirst (Nat.two_pow_pos k)
  rw [nextCapacity, if_neg (by omega), hk, Nat.mod_eq_of_lt (by omega), pow_succ, Nat.mul_assoc]

theorem not_stuck (h : ¬ array.Stuck first limit) (hfull : array.length = array.capacity) :
    array.capacity ≤ array.nextCapacity first ∧ array.nextCapacity first ≤ limit := by
  have hroom : ¬ (array.nextCapacity first < array.capacity ∨ limit < array.nextCapacity first) :=
    fun hno => h ⟨hfull, hno⟩
  rwa [not_or, Nat.not_lt, Nat.not_lt] at hroom

theorem nextCapacity_gt (hfirst : 0 < first) (hfull : array.length = array.capacity)
    (h : ¬ array.Stuck first limit) : array.length < array.nextCapacity first := by
  have hroom := not_stuck h hfull
  unfold nextCapacity at *
  split_ifs at hroom ⊢ with hzero
  · omega
  · omega

theorem moved_doubled (hfirst : 0 < first) (h : array.Doubled first limit)
    (hfull : array.length = array.capacity) (hstuck : ¬ array.Stuck first limit) (hlimit : limit < 2 ^ 63)
    (fresh : ℕ → α) : (array.moved (array.nextCapacity first) fresh).Doubled first limit := by
  have hroom := not_stuck hstuck hfull
  have hcapacity := moved_capacity array (by omega : array.length ≤ array.nextCapacity first) fresh
  right
  rw [hcapacity]
  rcases h with hzero | ⟨k, hk, hle⟩
  · have hnext : array.nextCapacity first = first := nextCapacity_zero hzero
    refine ⟨0, ?_, ?_⟩
    · rw [hnext, pow_zero, Nat.mul_one]
    · rw [pow_zero, Nat.mul_one]
      omega
  · have hnext := nextCapacity_double hfirst hk hle hlimit
    exact ⟨k + 1, hnext, by omega⟩

theorem put_doubled (h : array.Doubled first limit) (value : α) (hroom : array.length < array.capacity) :
    (array.put value hroom).Doubled first limit := by
  unfold Doubled
  rw [put_capacity]
  exact h

/-- An array that has doubled is stuck exactly at the last capacity within the limit. -/
theorem stuck_iff {last : ℕ} (hfirst : 0 < first) (hlast : first * 2 ^ last ≤ limit)
    (hnext : limit < first * 2 ^ (last + 1)) (hlimit : limit < 2 ^ 63) (h : array.Doubled first limit) :
    array.Stuck first limit ↔ array.length = first * 2 ^ last := by
  have hpositive : 0 < first * 2 ^ last := Nat.mul_pos hfirst (Nat.two_pow_pos last)
  have hexponent : ∀ {i j : ℕ}, first * 2 ^ i < first * 2 ^ j → i < j := fun hlt =>
    (Nat.pow_lt_pow_iff_right (by decide)).mp (Nat.lt_of_mul_lt_mul_left hlt)
  have hfits : array.length ≤ array.capacity := array.fits
  unfold Stuck
  rcases h with hzero | ⟨k, hk, hle⟩
  · have hsame : array.nextCapacity first = first := nextCapacity_zero hzero
    have hfirstLe : first * 2 ^ 0 ≤ first * 2 ^ last :=
      Nat.mul_le_mul_left first (Nat.pow_le_pow_right (by decide) (Nat.zero_le last))
    rw [pow_zero, Nat.mul_one] at hfirstLe
    constructor
    · rintro ⟨-, hstuck⟩
      omega
    · intro hlength
      omega
  · have hdouble := nextCapacity_double hfirst hk hle hlimit
    have hbelow : k < last + 1 := hexponent (by omega)
    have hgrows : first * 2 ^ (k + 1) = first * 2 ^ k * 2 := by rw [pow_succ, Nat.mul_assoc]
    rw [hdouble]
    constructor
    · rintro ⟨hfull, hstuck⟩
      have habove : last < k + 1 := hexponent (by omega)
      obtain rfl : k = last := by omega
      omega
    · intro hlength
      obtain rfl : k = last := by
        by_contra hne
        have hless : first * 2 ^ k < first * 2 ^ last :=
          Nat.mul_lt_mul_of_pos_left (Nat.pow_lt_pow_right (by decide) (by omega)) hfirst
        omega
      omega

def Asks (first limit : ℕ) (array : Growing α) : Prop :=
  array.length = array.capacity ∧ ¬ array.Stuck first limit

instance (first limit : ℕ) (array : Growing α) : Decidable (array.Asks first limit) :=
  inferInstanceAs (Decidable (_ ∧ _))

/-- The array with a slot to use, where there is one or the request for a block is served. -/
def room (first limit : ℕ) (hfirst : 0 < first) (served : Bool) (fresh : ℕ → α) (array : Growing α) :
    Option { grown : Growing α // grown.length < grown.capacity } :=
  if hfull : array.length = array.capacity then
    if hstuck : array.Stuck first limit then none
    else if served then
      some ⟨array.moved (array.nextCapacity first) fresh, by
        have hgt := nextCapacity_gt hfirst hfull hstuck
        rw [moved_capacity array (Nat.le_of_lt hgt)]
        exact hgt⟩
    else none
  else some ⟨array, Nat.lt_of_le_of_ne array.fits hfull⟩

variable {hfirst : 0 < first} {served : Bool} {fresh : ℕ → α}
  {grown : { grown : Growing α // grown.length < grown.capacity }}

theorem room_items (h : array.room first limit hfirst served fresh = some grown) :
    grown.val.items = array.items := by
  unfold room at h
  split_ifs at h
  · cases h
    exact moved_items _ _ _
  · cases h
    rfl

theorem room_doubled (hlimit : limit < 2 ^ 63) (hdoubled : array.Doubled first limit)
    (h : array.room first limit hfirst served fresh = some grown) : grown.val.Doubled first limit := by
  unfold room at h
  split_ifs at h with hfull hstuck
  · cases h
    exact moved_doubled hfirst hdoubled hfull hstuck hlimit fresh
  · cases h
    exact hdoubled

/-- There is no room where the array is stuck, or asks for a block and is refused. -/
theorem room_none : array.room first limit hfirst served fresh = none ↔
    array.Stuck first limit ∨ array.Asks first limit ∧ served = false := by
  unfold room Asks
  split_ifs with hfull hstuck hserved
  · exact iff_of_true rfl (.inl hstuck)
  · exact iff_of_false not_false (by simp [hstuck, hserved])
  · exact iff_of_true rfl (.inr ⟨⟨hfull, hstuck⟩, Bool.eq_false_iff.mpr hserved⟩)
  · exact iff_of_false not_false fun hno =>
      hno.elim (fun hstuck => hfull hstuck.1) fun hasks => hfull hasks.1.1

def capacityAfter (first capacity : ℕ) : ℕ := if capacity = 0 then first else capacity * 2 % 2 ^ 64

/-- The capacity with room for one more, where the array may have it. -/
def roomCapacity (first limit length capacity : ℕ) : Option ℕ :=
  if length = capacity then
    if capacityAfter first capacity < capacity ∨ limit < capacityAfter first capacity then none
    else some (capacityAfter first capacity)
  else some capacity

theorem nextCapacity_eq : array.nextCapacity first = capacityAfter first array.capacity := rfl

theorem roomCapacity_none :
    roomCapacity first limit array.length array.capacity = none ↔ array.Stuck first limit := by
  unfold roomCapacity Stuck
  rw [nextCapacity_eq]
  split_ifs with hfull hstuck
  · exact iff_of_true rfl ⟨hfull, hstuck⟩
  · exact iff_of_false not_false fun h => hstuck h.2
  · exact iff_of_false not_false fun h => hfull h.1

/-- What can be said beforehand: there is a capacity, and the request for it is served. -/
theorem room_none_iff : array.room first limit hfirst served fresh = none ↔
    roomCapacity first limit array.length array.capacity = none ∨
      array.length = array.capacity ∧ served = false := by
  rw [room_none, roomCapacity_none]
  constructor
  · rintro (hstuck | ⟨hasks, hrefused⟩)
    · exact .inl hstuck
    · exact .inr ⟨hasks.1, hrefused⟩
  · rintro (hstuck | ⟨hfull, hrefused⟩)
    · exact .inl hstuck
    · by_cases hstuck : array.Stuck first limit
      · exact .inl hstuck
      · exact .inr ⟨⟨hfull, hstuck⟩, hrefused⟩

theorem room_capacity (h : array.room first limit hfirst served fresh = some grown) :
    roomCapacity first limit array.length array.capacity = some grown.val.capacity := by
  unfold room at h
  split_ifs at h with hfull hstuck
  · cases h
    have hroom := not_stuck hstuck hfull
    have hcapacity := moved_capacity array (by omega : array.length ≤ array.nextCapacity first) fresh
    dsimp only
    rw [hcapacity, roomCapacity, if_pos hfull]
    exact if_neg fun hno => hstuck ⟨hfull, hno⟩
  · cases h
    exact if_neg hfull

end Growing

end GrowingArray
