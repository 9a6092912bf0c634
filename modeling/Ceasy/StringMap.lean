import Ceasy.Allocator
import Ceasy.LinearProbing

set_option autoImplicit false

/-!
# String maps

The hash map from byte strings to values: open addressing over a slot array of
power-of-two size, tombstones for removed keys, keys and values copied into
blocks of the map's allocator. The slot array is NULL exactly while it has no
slots. A loop that would not end returns `none`.
-/
namespace Ceasy.Collection
open StringView Allocator LinearProbing

variable {ω : Type*}

def STRING_MAP_INITIAL_CAPACITY : ℕ := 16

def sizeofStringMapSlot : ℕ := 56

/-- The type tag and the union of a value; an object is read and written whole. -/
inductive StringMapData (ω : Type*) where
  | empty
  | int64 (integer : Int64)
  | bool (boolean : Bool)
  | string (string : Bytes)
  | pointer (pointer : ℕ)
  | object (data : Option ω) (size : ℕ)
deriving DecidableEq, Repr

/-- `block` is where a string or object lies when the map's allocator made it. -/
structure StringMapValue (ω : Type*) where
  data : StringMapData ω := .empty
  block : Option Block := none
  ownsData : Bool := false
deriving DecidableEq, Repr

structure StringMapKey where
  bytes : Bytes
  block : Option Block := none
deriving DecidableEq, Repr

structure StringMapEntry (ω : Type*) where
  hash : UInt64
  key : StringMapKey
  value : StringMapValue ω
  ownsKey : Bool
deriving DecidableEq, Repr

abbrev StringMapSlot (ω : Type*) := Slot (StringMapEntry ω)

structure StringMap (ω : Type*) where
  initialized : Bool := false
  slots : List (StringMapSlot ω) := []
  slotsBlock : Option Block := none
  length : ℕ := 0
  tombstoneCount : ℕ := 0
deriving DecidableEq, Repr

def capacity (map : StringMap ω) : ℕ := map.slots.length

/-- The slot array at an index, which the masks keep below the capacity. -/
def slotAt (slots : List (StringMapSlot ω)) (index : ℕ) : StringMapSlot ω :=
  slots.getD index .empty

def slotIndex (hash : UInt64) (capacity : ℕ) : ℕ := hash.toNat &&& (capacity - 1)

def slotNext (index capacity : ℕ) : ℕ := (index + 1) &&& (capacity - 1)

def stringMapSlotBytes (capacity : ℕ) : Option ℕ :=
  if capacity = 0 ∨ SIZE_MAX / sizeofStringMapSlot < capacity then none
  else some (capacity * sizeofStringMapSlot)

def stringMapValueRelease (map : StringMap ω) (ledger : Ledger) (value : StringMapValue ω) :
    Ledger :=
  if !map.initialized || !value.ownsData then ledger
  else
    match value.data with
    | .string _ | .object _ _ => release ledger value.block
    | _ => ledger

def stringMapSlotRelease (map : StringMap ω) (ledger : Ledger) (slot : StringMapEntry ω) : Ledger :=
  stringMapValueRelease map (if slot.ownsKey then release ledger slot.key.block else ledger)
    slot.value

/-- The slot of the key, if any, and the first tombstone passed before the search ended. -/
structure StringMapFound where
  index : Option ℕ := none
  firstTombstone : Option ℕ := none
deriving DecidableEq, Repr

def stringMapFindLoop (slots : List (StringMapSlot ω)) (key : Bytes) (hash : UInt64) :
    ℕ → ℕ → Option ℕ → StringMapFound
  | 0, _, firstTombstone => ⟨none, firstTombstone⟩
  | probes + 1, index, firstTombstone =>
    match slotAt slots index with
    | .empty => ⟨none, firstTombstone⟩
    | .tombstone =>
      stringMapFindLoop slots key hash probes (slotNext index slots.length)
        (if firstTombstone = none then some index else firstTombstone)
    | .occupied slot =>
      if slot.hash == hash && stringvEqual slot.key.bytes key then ⟨some index, firstTombstone⟩
      else stringMapFindLoop slots key hash probes (slotNext index slots.length) firstTombstone

def stringMapFindIndex (map : StringMap ω) (key : Bytes) (hash : UInt64) : StringMapFound :=
  if !map.initialized || capacity map = 0 then {}
  else stringMapFindLoop map.slots key hash (capacity map) (slotIndex hash (capacity map)) none

/-- A copy of no bytes is NULL. -/
def stringMapCopyBytes (allocator : AllocatorAllocFn) (ledger : Ledger) (size : ℕ) :
    Option (Option Block) × Ledger :=
  if size = 0 then (some none, ledger)
  else
    match allocate allocator ledger size with
    | (none, ledger) => (none, ledger)
    | (some block, ledger) => (some (some block), ledger)

def stringMapCopyKey (allocator : AllocatorAllocFn) (ledger : Ledger) (key : Bytes) :
    Option StringMapKey × Ledger :=
  let (copy, ledger) := stringMapCopyBytes allocator ledger key.length
  (copy.map fun block => ⟨key, block⟩, ledger)

/-- The loop `while (slots[index].state == OCCUPIED)`. After a full turn without
    a free slot it repeats for ever. -/
def stringMapFreeIndex (slots : List (StringMapSlot ω)) : ℕ → ℕ → Option ℕ
  | 0, _ => none
  | turns + 1, index =>
    match slotAt slots index with
    | .occupied _ => stringMapFreeIndex slots turns (slotNext index slots.length)
    | _ => some index

def stringMapRehashLoop (newSlots : List (StringMapSlot ω)) :
    List (StringMapSlot ω) → Option (List (StringMapSlot ω))
  | [] => some newSlots
  | .occupied slot :: rest =>
    (stringMapFreeIndex newSlots newSlots.length (slotIndex slot.hash newSlots.length)).bind
      fun index => stringMapRehashLoop (newSlots.set index (.occupied slot)) rest
  | _ :: rest => stringMapRehashLoop newSlots rest

structure Outcome (ω : Type*) where
  ok : Bool
  map : StringMap ω
  ledger : Ledger

def stringMapRehash (allocator : AllocatorAllocFn) (map : StringMap ω) (ledger : Ledger)
    (newCapacity : ℕ) : Option (Outcome ω) :=
  if !map.initialized then some ⟨false, map, ledger⟩
  else
    match stringMapSlotBytes newCapacity with
    | none => some ⟨false, map, ledger⟩
    | some bytes =>
      match allocate allocator ledger bytes with
      | (none, ledger) => some ⟨false, map, ledger⟩
      | (some block, ledger) =>
        (stringMapRehashLoop (List.replicate newCapacity .empty) map.slots).map fun newSlots =>
          ⟨true, { map with slots := newSlots, slotsBlock := some block, tombstoneCount := 0 },
            release ledger map.slotsBlock⟩

def stringMapLoadReached (capacity used : ℕ) : Bool :=
  let threshold := capacity / 2 + capacity / 5
  threshold = 0 || threshold ≤ used

def stringMapPrepareCapacity (allocator : AllocatorAllocFn) (map : StringMap ω) (ledger : Ledger) :
    Option (Outcome ω) :=
  if capacity map = 0 then stringMapRehash allocator map ledger STRING_MAP_INITIAL_CAPACITY
  else if SIZE_MAX - map.tombstoneCount < map.length ||
      map.length + map.tombstoneCount = SIZE_MAX then some ⟨false, map, ledger⟩
  else if !stringMapLoadReached (capacity map) (map.length + map.tombstoneCount + 1) then
    some ⟨true, map, ledger⟩
  else if map.length < capacity map / 2 ∧ 0 < map.tombstoneCount then
    stringMapRehash allocator map ledger (capacity map)
  else if SIZE_MAX / 2 < capacity map then some ⟨false, map, ledger⟩
  else stringMapRehash allocator map ledger (capacity map * 2)

/-- A value that set refuses: none, or an object without bytes. -/
def stringMapValueInvalid (value : StringMapValue ω) : Bool :=
  match value.data with
  | .empty => true
  | .object data size => data.isNone || size = 0
  | _ => false

/-- A new value in the slot at `index`, the old one released. -/
def stringMapReplace (map : StringMap ω) (ledger : Ledger) (index : ℕ) (value : StringMapValue ω) :
    Outcome ω :=
  match slotAt map.slots index with
  | .occupied slot =>
    ⟨true, { map with slots := map.slots.set index (.occupied { slot with value := value }) },
      stringMapValueRelease map ledger slot.value⟩
  | _ => ⟨true, map, ledger⟩

/-- The end of a set: the slot for a key that the map does not hold is filled. -/
def stringMapInsert (map : StringMap ω) (ledger : Ledger) (firstTombstone : Option ℕ)
    (slot : StringMapEntry ω) : Option (Outcome ω) :=
  match firstTombstone with
  | some index =>
    some ⟨true, { map with
      slots := map.slots.set index (.occupied slot)
      tombstoneCount := map.tombstoneCount - 1
      length := map.length + 1 }, ledger⟩
  | none =>
    (stringMapFreeIndex map.slots (capacity map) (slotIndex slot.hash (capacity map))).map
      fun index => ⟨true, { map with
        slots := map.slots.set index (.occupied slot)
        length := map.length + 1 }, ledger⟩

def stringMapSetInternal (allocator : AllocatorAllocFn) (map : StringMap ω) (ledger : Ledger)
    (key : Bytes) (value : StringMapValue ω) (copyKey : Bool) : Option (Outcome ω) :=
  if !map.initialized || stringMapValueInvalid value then
    some ⟨false, map, stringMapValueRelease map ledger value⟩
  else
    let hash := stringvHash key
    match (stringMapFindIndex map key hash).index with
    | some index => some (stringMapReplace map ledger index value)
    | none =>
      let (copy, ledger) :=
        if copyKey then stringMapCopyKey allocator ledger key else (some ⟨key, none⟩, ledger)
      match copy with
      | none => some ⟨false, map, stringMapValueRelease map ledger value⟩
      | some storedKey =>
        let ownsKey := copyKey && decide (0 < key.length)
        let keyRelease := fun ledger => if ownsKey then release ledger storedKey.block else ledger
        (stringMapPrepareCapacity allocator map ledger).bind fun prepared =>
          if !prepared.ok then
            some ⟨false, prepared.map,
              stringMapValueRelease prepared.map (keyRelease prepared.ledger) value⟩
          else
            let found := stringMapFindIndex prepared.map key hash
            match found.index with
            | some index =>
              some (stringMapReplace prepared.map (keyRelease prepared.ledger) index value)
            | none =>
              stringMapInsert prepared.map prepared.ledger found.firstTombstone
                ⟨hash, storedKey, value, ownsKey⟩

def smInt (value : Int64) : StringMapValue ω := { data := .int64 value }

def smBool (value : Bool) : StringMapValue ω := { data := .bool value }

def smPointer (pointer : ℕ) : StringMapValue ω := { data := .pointer pointer }

def smStringBorrowed (value : Bytes) : StringMapValue ω := { data := .string value }

def smStringCopy (allocator : AllocatorAllocFn) (map : StringMap ω) (ledger : Ledger)
    (value : Bytes) : StringMapValue ω × Ledger :=
  if !map.initialized then ({}, ledger)
  else
    match stringMapCopyBytes allocator ledger value.length with
    | (none, ledger) => ({}, ledger)
    | (some block, ledger) => (⟨.string value, block, true⟩, ledger)

def smObject (allocator : AllocatorAllocFn) (map : StringMap ω) (ledger : Ledger)
    (data : Option ω) (size : ℕ) : StringMapValue ω × Ledger :=
  if !map.initialized || size = 0 || data.isNone then ({}, ledger)
  else
    match stringMapCopyBytes allocator ledger size with
    | (none, ledger) => ({}, ledger)
    | (some block, ledger) => (⟨.object data size, block, true⟩, ledger)

def smInit : StringMap ω := { initialized := true }

def smSetValue (allocator : AllocatorAllocFn) (map : StringMap ω) (ledger : Ledger) (key : Bytes)
    (value : StringMapValue ω) : Option (Outcome ω) :=
  stringMapSetInternal allocator map ledger key value true

def smSetValueBorrowedKey (allocator : AllocatorAllocFn) (map : StringMap ω) (ledger : Ledger)
    (key : Bytes) (value : StringMapValue ω) : Option (Outcome ω) :=
  stringMapSetInternal allocator map ledger key value false

def smSetStringView (allocator : AllocatorAllocFn) (map : StringMap ω) (ledger : Ledger)
    (key value : Bytes) : Option (Outcome ω) :=
  let (copy, ledger) := smStringCopy allocator map ledger value
  smSetValue allocator map ledger key copy

def smGet (map : StringMap ω) (key : Bytes) : Option (StringMapValue ω) :=
  (stringMapFindIndex map key (stringvHash key)).index.bind fun index =>
    (slotAt map.slots index).held?.map StringMapEntry.value

def smContains (map : StringMap ω) (key : Bytes) : Bool := (smGet map key).isSome

def smGetObjectConst (map : StringMap ω) (key : Bytes) (expectedSize : ℕ) : Option ω :=
  match smGet map key with
  | some ⟨.object data size, _, _⟩ => if size = expectedSize then data else none
  | _ => none

def smRemove (map : StringMap ω) (ledger : Ledger) (key : Bytes) : Outcome ω :=
  match (stringMapFindIndex map key (stringvHash key)).index with
  | none => ⟨false, map, ledger⟩
  | some index =>
    match slotAt map.slots index with
    | .occupied slot =>
      ⟨true, { map with
        slots := map.slots.set index .tombstone
        length := map.length - 1
        tombstoneCount := map.tombstoneCount + 1 }, stringMapSlotRelease map ledger slot⟩
    | _ => ⟨true, map, ledger⟩

def smClear (map : StringMap ω) (ledger : Ledger) : StringMap ω × Ledger :=
  if !map.initialized || capacity map = 0 then (map, ledger)
  else
    ({ map with
      slots := List.replicate (capacity map) .empty
      length := 0
      tombstoneCount := 0 },
      (entries map.slots).foldl (stringMapSlotRelease map) ledger)

def smDestroy (map : StringMap ω) (ledger : Ledger) : StringMap ω × Ledger :=
  if map.initialized then
    let (cleared, ledger) := smClear map ledger
    ({}, release ledger cleared.slotsBlock)
  else ({}, ledger)

def smLength (map : StringMap ω) : ℕ := map.length

/-- The next occupied slot from the iterator on, and the iterator behind it. -/
def smNext (map : StringMap ω) (iterator : ℕ) : Option (StringMapEntry ω × ℕ) :=
  if _h : iterator < capacity map then
    match slotAt map.slots iterator with
    | .occupied slot => some (slot, iterator + 1)
    | _ => smNext map (iterator + 1)
  else none
termination_by capacity map - iterator

theorem smNext_lt {map : StringMap ω} {iterator next : ℕ} {slot : StringMapEntry ω}
    (h : smNext map iterator = some (slot, next)) : iterator < next ∧ next ≤ capacity map := by
  induction hn : capacity map - iterator using Nat.strongRecOn generalizing iterator with
  | _ n ih =>
    rw [smNext] at h
    split at h
    · split at h
      · cases h
        omega
      · have := ih _ (by omega) h rfl
        omega
    · cases h

def smIterate (map : StringMap ω) (iterator : ℕ) : List (StringMapEntry ω) :=
  match _h : smNext map iterator with
  | none => []
  | some (slot, next) => slot :: smIterate map next
termination_by capacity map - iterator
decreasing_by
  have := smNext_lt _h
  omega

end Ceasy.Collection
