import Ceasy.OwnedStringRuns

set_option autoImplicit false

/-!
# Copies in an arena

`string_from_in` copies a view into storage of an arena. An empty view needs no storage, so its
copy has none, and neither has a copy that the arena did not serve.
-/
namespace Ceasy.StringCopy
open StringView (Bytes SIZE_MAX)

/-- An arena is known by how it answers its requests, one after the other. -/
structure ArenaAnswers where
  served : ℕ → Bool
  requests : ℕ := 0

def ArenaAnswers.next (arena : ArenaAnswers) : ArenaAnswers :=
  { arena with requests := arena.requests + 1 }

/-- Whether the arena serves the request, and the arena after it. -/
def arenaAlloc (arena : ArenaAnswers) : Bool × ArenaAnswers :=
  (arena.served arena.requests, arena.next)

/-- The contents of the copy, or `none` for a NULL data pointer. -/
def stringFromIn (arena : ArenaAnswers) (value : Bytes) : Option Bytes × ArenaAnswers :=
  if value.length = 0 ∨ SIZE_MAX ≤ value.length then (none, arena)
  else ((if arena.served arena.requests then some value else none), arena.next)

/-- `string_as_view`: the view of a string without storage is empty. -/
def stringAsView (string : Option Bytes) : Bytes := string.getD []

section Memory

open ByteHeap OwnedString

variable {answers : Answers UInt8} {heap : Memory} {value : View}

def readBack (heap : Memory) (string : OwnedString.String) : Option Bytes :=
  string.data.map fun _ => contents heap string

theorem readBack_stored {string : OwnedString.String} {base : ℕ} (h : Stored heap string base) :
    readBack heap string = some (contents heap string) := by
  rw [readBack, h.data, Option.map_some]

/-- With room for it, a view that is not empty is copied and ended by a NUL. -/
theorem copy_reserved {later : Memory} {result : OwnedString.String}
    (hview : Admissible heap (stringNew arenaAllocator) value) (hempty : value.length ≠ 0)
    (hlength : (viewContents heap value).length = value.length)
    (hres : Reserved heap later (stringNew arenaAllocator) result value.length) :
    value.length < SIZE_MAX ∧ result.data ≠ none ∧
      ∃ moved final, later.move result.data value.data value.length = .ok moved ∧
        stringTerminate moved { result with length := value.length } value.length = .ok final ∧
        readBack final { result with length := value.length } = some (viewContents heap value) ∧
        Untouched heap final none (OwnedString.String.block { result with length := value.length }) := by
  have hnone : (stringNew arenaAllocator).block = none := rfl
  obtain ⟨new, hnew⟩ := hres.storage (Nat.pos_of_ne_zero hempty)
  have hfits := hres.fits
  have hmax := hnew.capacity
  obtain ⟨address, hdata, ⟨block, hmem, hwithin⟩, -⟩ : Outside heap (stringNew arenaAllocator) value := by
    rcases hview with hzero | ⟨base, address, hbase, -⟩ | houtside
    · exact absurd hzero hempty
    · cases hbase
    · exact houtside
  obtain ⟨hlater, -, -⟩ := hres.untouched.block block hmem (by rw [hnone]; exact Option.some_ne_none _)
  have hread : later.read address value.length = viewContents heap value := by
    rw [viewContents, hdata]
    exact hres.untouched.read hmem (by rw [hnone]; exact Option.some_ne_none _) hwithin
  have htarget : later.Live ⟨new + 0, value.length⟩ := hnew.toStorage.live (by omega)
  have hmove : later.move result.data value.data value.length =
      .ok (later.write new (viewContents heap value)) := by
    rw [hnew.data, hdata, ← hread]
    exact move_ok ⟨block, hlater, hwithin⟩ htarget
  have hstorage : Storage (later.write new (viewContents heap value))
      { result with length := value.length } new := ⟨hnew.data, hnew.block⟩
  obtain ⟨hstored, hcontents⟩ := hstorage.stored hfits hmax
  have hback := read_write later new (viewContents heap value)
  rw [hlength] at hback
  refine ⟨by omega, by rw [hnew.data]; exact Option.some_ne_none _, _, _, hmove,
    hstorage.terminate hfits, ?_, ?_⟩
  · rw [readBack_stored hstored, hcontents, hback]
  · have hwritten : Untouched heap (later.write (new + 0) (viewContents heap value)) none result.block :=
      hres.untouched.write hnew.toStorage (by omega)
    have hcopy : Untouched heap (later.write new (viewContents heap value)) none
        (OwnedString.String.block { result with length := value.length }) := hwritten
    exact hcopy.write hstorage (Nat.add_le_add_right hfits 1)

/-- The copy in memory is that of an arena that serves or refuses its one request, and what lives
apart from it stays as it is. -/
theorem stringFrom_refines (hview : Admissible heap (stringNew arenaAllocator) value)
    (hsize : value.length ≤ SIZE_MAX) (hlength : (viewContents heap value).length = value.length) :
    ∃ later string served, stringFrom answers heap arenaAllocator value = .ok (later, string) ∧
      readBack later string = (stringFromIn ⟨fun _ => served, 0⟩ (viewContents heap value)).1 ∧
      (served = false → heap.refusals < later.refusals) ∧ Untouched heap later none string.block := by
  have h := stringNew_valid heap arenaAllocator
  unfold OwnedString.stringFrom
  dsimp only
  rw [hview.valid, if_neg (Bool.false_ne_true ·.symm)]
  obtain ⟨ok, later, result, hreserve, hreserved, hfailed⟩ :=
    @stringReserve_spec answers heap (stringNew arenaAllocator) value.length h hsize
  rw [hreserve, checked_bind]
  cases ok with
  | false =>
    have hafter := hfailed rfl
    obtain rfl := hafter.result
    have hsame : Untouched heap later none none := .of_same hafter.blocks hafter.bytes none
    rcases hafter.reason with hdenied | hlong
    · have hrefused : heap.refusals < later.refusals := by
        rcases hdenied with hrefused | ⟨-, halloc⟩
        · exact hrefused
        · cases halloc
      have hnothing : (stringFromIn ⟨fun _ => false, 0⟩ (viewContents heap value)).1 = none := by
        unfold StringCopy.stringFromIn
        split_ifs <;> first | rfl | contradiction
      exact ⟨later, _, false, rfl, hnothing.symm, fun _ => hrefused, hsame⟩
    · refine ⟨later, _, true, rfl, ?_, fun hfalse => (Bool.false_ne_true hfalse.symm).elim, hsame⟩
      rw [stringFromIn, if_pos (.inr (by omega))]
      rfl
  | true =>
    have hres := hreserved rfl
    dsimp only
    rw [if_neg (Bool.false_ne_true ·.symm)]
    by_cases hempty : value.length = 0
    · obtain rfl := hres.inPlace (by omega)
      rw [if_neg (not_not.mpr hempty), checked_bind]
      refine ⟨later, _, true, rfl, ?_, fun hfalse => (Bool.false_ne_true hfalse.symm).elim, hres.untouched⟩
      rw [stringFromIn, if_pos (.inl (by omega))]
      rfl
    · obtain ⟨hmax, hsome, moved, final, hmove, hend, hback, huntouched⟩ :=
        copy_reserved hview hempty hlength hres
      rw [if_pos hempty, hmove, checked_bind]
      rw [if_pos hsome, hend]
      refine ⟨_, _, true, rfl, ?_, fun hfalse => (Bool.false_ne_true hfalse.symm).elim, huntouched⟩
      rw [hback, stringFromIn, if_neg (by omega)]
      rfl

end Memory

end Ceasy.StringCopy
