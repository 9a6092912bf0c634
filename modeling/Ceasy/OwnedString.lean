import Ceasy.ByteHeap
import Ceasy.StringView

set_option autoImplicit false

/-!
# Strings that own their storage

A `String` has its bytes in a block of its allocator, one longer than its capacity; a view is a
pointer with a length, and may point into the storage of the string it is given to. Arithmetic on
`size_t` is checked: a computation that would wrap is a fault. What the allocator answers and what
`vsnprintf` returns are parameters.
-/
namespace Ceasy.OwnedString
open ByteHeap
open StringView (Bytes SIZE_MAX ch)

abbrev Memory := Heap UInt8

def sizeAdd (a b : ℕ) : Checked ℕ := if a + b ≤ SIZE_MAX then .ok (a + b) else .error .wrapped

def sizeSub (a b : ℕ) : Checked ℕ := if b ≤ a then .ok (a - b) else .error .wrapped

/-- The function pointers that are set, and whether memory that is freed may be used again. -/
structure Allocator where
  alloc : Bool := false
  realloc : Bool := false
  free : Bool := false
  reclaims : Bool := false
deriving DecidableEq, Repr

def allocatorHeap : Allocator where
  alloc := true
  realloc := true
  free := true
  reclaims := true

/-- What is freed in an arena stays allocated. -/
def arenaAllocator : Allocator where
  alloc := true
  realloc := true
  free := true

structure View where
  data : Option ℕ := none
  length : ℕ := 0
deriving DecidableEq, Repr

structure String where
  data : Option ℕ := none
  length : ℕ := 0
  capacity : ℕ := 0
  allocator : Allocator := {}
deriving DecidableEq

def stringvValid (value : View) : Bool := value.length = 0 || value.data.isSome

def stringvSlice (value : View) (start length : ℕ) : View :=
  if stringvValid value = false ∨ value.length < start then {}
  else
    { data := value.data.map (· + start)
      length := if value.length - start < length then value.length - start else length }

def stringvFrom (value : View) (start : ℕ) : View :=
  if value.length < start then {} else stringvSlice value start (value.length - start)

def viewBytes (heap : Memory) (value : View) : Checked Bytes :=
  if value.length = 0 then .ok [] else heap.load value.data value.length

def stringvFind (heap : Memory) (value search : View) : Checked (Option ℕ) := do
  if stringvValid value = false ∨ stringvValid search = false ∨ value.length < search.length then
    return none
  let bytes ← viewBytes heap value
  let pattern ← viewBytes heap search
  return StringView.stringvFind bytes pattern

def stringStorageOffset (string : String) (data : Option ℕ) : Option ℕ :=
  match string.data, data with
  | some base, some address =>
    if string.capacity = SIZE_MAX ∨ address < base ∨ string.capacity < address - base then none
    else some (address - base)
  | _, _ => none

def stringRebaseView (string : String) (value : View) (offset : Option ℕ) : View :=
  match offset with
  | none => value
  | some offset => { data := string.data.map (· + offset), length := value.length }

def stringNew (allocator : Allocator) : String := { allocator := allocator }

def stringAsView (string : String) : View :=
  if string.data = none then {} else { data := string.data, length := string.length }

/-- The loop of `string_reserve`, from a capacity that is not 0. -/
def stringGrow (capacity newCapacity : ℕ) (hpositive : 0 < newCapacity) : Checked ℕ :=
  if newCapacity < capacity then
    if SIZE_MAX / 2 < newCapacity then .ok capacity
    else if SIZE_MAX < newCapacity * 2 then .error .wrapped
    else stringGrow capacity (newCapacity * 2) (Nat.mul_pos hpositive (by decide))
  else .ok newCapacity
termination_by capacity - newCapacity

/-- `string_reserve` asks the allocator for storage that begins with the old bytes. -/
def stringAllocate (answers : Answers UInt8) (heap : Memory) (string : String)
    (oldSize allocationSize : ℕ) : Checked (Option ℕ × Memory) :=
  if string.allocator.realloc then
    heap.reallocate answers string.allocator.reclaims string.data oldSize allocationSize
  else if string.allocator.alloc then
    match heap.allocate answers allocationSize with
    | (none, heap) => return (none, heap)
    | (some newData, heap) => do
      let heap ← (if string.data ≠ none ∧ oldSize ≠ 0 then heap.move (some newData) string.data oldSize
        else .ok heap)
      let heap ← (if string.data ≠ none ∧ string.allocator.free = true then
          heap.release string.allocator.reclaims string.data
        else .ok heap)
      return (some newData, heap)
  else return (none, heap)

def stringReserve (answers : Answers UInt8) (heap : Memory) (string : String) (capacity : ℕ) :
    Checked (Bool × Memory × String) :=
  if string.capacity < string.length then return (false, heap, string)
  else if capacity ≤ string.capacity then
    match string.data with
    | none => return (true, heap, string)
    | some data => do
      let heap ← heap.store (some (data + string.length)) [0]
      return (true, heap, string)
  else do
    let newCapacity ← (if h : string.capacity = 0 then stringGrow capacity 16 (by decide)
      else stringGrow capacity string.capacity (Nat.pos_of_ne_zero h))
    let newCapacity := if newCapacity = SIZE_MAX then capacity else newCapacity
    if SIZE_MAX - 1 < newCapacity then
      return (false, heap, string)
    if string.length = SIZE_MAX then
      return (false, heap, string)
    let allocationSize ← sizeAdd newCapacity 1
    let oldSize ← (if string.data = none then .ok 0 else sizeAdd string.length 1)
    let (newData, heap) ← stringAllocate answers heap string oldSize allocationSize
    match newData with
    | none => return (false, heap, string)
    | some newData =>
      let heap ← heap.store (some (newData + string.length)) [0]
      return (true, heap, { string with data := some newData, capacity := newCapacity })

def stringTerminate (heap : Memory) (string : String) (index : ℕ) : Checked Memory :=
  heap.store (string.data.map (· + index)) [0]

def stringDestroy (heap : Memory) (string : String) : Checked (Memory × String) :=
  if string.data ≠ none ∧ string.allocator.free = true then do
    let heap ← heap.release string.allocator.reclaims string.data
    return (heap, {})
  else return (heap, {})

def stringFrom (answers : Answers UInt8) (heap : Memory) (allocator : Allocator) (value : View) :
    Checked (Memory × String) := do
  let string := stringNew allocator
  if stringvValid value = false then
    return (heap, string)
  let (reserved, heap, string) ← stringReserve answers heap string value.length
  if reserved = false then
    return (heap, string)
  let heap ← (if value.length ≠ 0 then heap.move string.data value.data value.length else .ok heap)
  let string := { string with length := value.length }
  let heap ← (if string.data ≠ none then stringTerminate heap string string.length else .ok heap)
  return (heap, string)

def stringAppend (answers : Answers UInt8) (heap : Memory) (string : String) (value : View) :
    Checked (Bool × Memory × String) := do
  let room ← sizeSub SIZE_MAX string.length
  if stringvValid value = false ∨ room < value.length then
    return (false, heap, string)
  if value.length = 0 then
    return (true, heap, string)
  let required ← sizeAdd string.length value.length
  let offset := stringStorageOffset string value.data
  let (reserved, heap, string) ← stringReserve answers heap string required
  if reserved = false then
    return (false, heap, string)
  let value := stringRebaseView string value offset
  let heap ← heap.move (string.data.map (· + string.length)) value.data value.length
  let string := { string with length := required }
  let heap ← stringTerminate heap string string.length
  return (true, heap, string)

/-- The argument is a byte at an address of its own. -/
def stringAppendChar (answers : Answers UInt8) (heap : Memory) (string : String) (address : ℕ)
    (value : UInt8) : Checked (Bool × Memory × String) := do
  let heap ← heap.store (some address) [value]
  stringAppend answers heap string { data := some address, length := 1 }

/-- The first call of `vsnprintf` measures, the second writes what fits. -/
def stringAppendFormatV (answers : Answers UInt8) (heap : Memory) (string : String)
    (measured : Option ℕ) (written : Option Bytes) : Checked (Bool × Memory × String) :=
  match measured with
  | none => return (false, heap, string)
  | some result => do
    let oldLength := string.length
    let room ← sizeSub SIZE_MAX oldLength
    if room < result then
      return (false, heap, string)
    let required ← sizeAdd oldLength result
    let (reserved, heap, string) ← stringReserve answers heap string required
    if reserved = false then
      return (false, heap, string)
    let spare ← sizeSub string.capacity oldLength
    let available ← sizeAdd spare 1
    match written with
    | none =>
      let heap ← stringTerminate heap string oldLength
      return (false, heap, string)
    | some text =>
      let heap ← heap.store (string.data.map (· + oldLength)) (text.take (available - 1) ++ [0])
      if available ≤ text.length then
        let heap ← stringTerminate heap string oldLength
        return (false, heap, string)
      let length ← sizeAdd oldLength text.length
      return (true, heap, { string with length := length })

def stringFormatV (answers : Answers UInt8) (heap : Memory) (allocator : Allocator)
    (measured : Option ℕ) (written : Option Bytes) : Checked (Memory × String) := do
  let (formatted, heap, string) ← stringAppendFormatV answers heap (stringNew allocator) measured written
  if formatted = false then
    stringDestroy heap string
  else
    return (heap, string)

/-- Where the bytes of a view into the storage are once the contents have moved up. -/
def stringShiftView (string : String) (value : View) (offset : Option ℕ) : Checked View :=
  match offset with
  | none => return value
  | some offset => do
    let shifted ← sizeAdd offset value.length
    return { value with data := string.data.map (· + shifted) }

def stringPrepend (answers : Answers UInt8) (heap : Memory) (string : String) (value : View) :
    Checked (Bool × Memory × String) := do
  let room ← sizeSub SIZE_MAX string.length
  if stringvValid value = false ∨ room < value.length then
    return (false, heap, string)
  if value.length = 0 then
    return (true, heap, string)
  let oldLength := string.length
  let offset := stringStorageOffset string value.data
  let required ← sizeAdd oldLength value.length
  let (reserved, heap, string) ← stringReserve answers heap string required
  if reserved = false then
    return (false, heap, string)
  let limit ← sizeSub SIZE_MAX value.length
  if offset.any (limit < ·) then
    return (false, heap, string)
  let source ← stringShiftView string value offset
  let contents ← sizeAdd oldLength 1
  let heap ← heap.move (string.data.map (· + value.length)) string.data contents
  let heap ← heap.move string.data source.data value.length
  let string := { string with length := required }
  let heap ← stringTerminate heap string string.length
  return (true, heap, string)

def stringCopy (answers : Answers UInt8) (heap : Memory) (string : String) (value : View) :
    Checked (Bool × Memory × String) := do
  if stringvValid value = false then
    return (false, heap, string)
  let offset := stringStorageOffset string value.data
  let (reserved, heap, string) ← stringReserve answers heap string value.length
  if reserved = false then
    return (false, heap, string)
  let value := stringRebaseView string value offset
  let heap ← (if value.length ≠ 0 then heap.move string.data value.data value.length else .ok heap)
  let string := { string with length := value.length }
  let heap ← stringTerminate heap string string.length
  return (true, heap, string)

def stringClear (heap : Memory) (string : String) : Checked (Memory × String) := do
  let string := { string with length := 0 }
  let heap ← (if string.data ≠ none then stringTerminate heap string 0 else .ok heap)
  return (heap, string)

def asciiUpper (value : UInt8) : UInt8 :=
  if ch 'a' ≤ value ∧ value ≤ ch 'z' then value - ch 'a' + ch 'A' else value

def asciiLower (value : UInt8) : UInt8 :=
  if ch 'A' ≤ value ∧ value ≤ ch 'Z' then value - ch 'A' + ch 'a' else value

/-- The loop of `string_upper` and of `string_lower`. -/
def stringMapBytes (change : UInt8 → UInt8) (heap : Memory) (string : String) : Checked (Memory × String) :=
  if string.data = none then return (heap, string)
  else do
    let bytes ← heap.load string.data string.length
    let heap ← heap.store string.data (bytes.map change)
    return (heap, string)

def stringUpper (heap : Memory) (string : String) : Checked (Memory × String) :=
  stringMapBytes asciiUpper heap string

def stringLower (heap : Memory) (string : String) : Checked (Memory × String) :=
  stringMapBytes asciiLower heap string

def stringRemove (heap : Memory) (string : String) (start length : ℕ) :
    Checked (Bool × Memory × String) :=
  if string.length < start then return (false, heap, string)
  else do
    let remaining ← sizeSub string.length start
    let length := if remaining < length then remaining else length
    match string.data with
    | none => return (decide (length = 0), heap, string)
    | some data =>
      let rest ← sizeSub remaining length
      let moved ← sizeAdd rest 1
      let heap ← heap.move (some (data + start)) (some (data + start + length)) moved
      let newLength ← sizeSub string.length length
      return (true, heap, { string with length := newLength })

/-- The loop of `string_replace_build`: whether something was found, or `none` when an append has
failed. -/
def stringReplaceLoop (answers : Answers UInt8) (source search replacement : View) (replaceAll : Bool)
    (hsearch : 0 < search.length) (heap : Memory) (result : String) (cursor : ℕ) (found : Bool) :
    Checked (Option Bool × Memory × String) :=
  if source.length < cursor then return (some found, heap, result)
  else do
    let remaining := stringvFrom source cursor
    match ← stringvFind heap remaining search with
    | none =>
      let (appended, heap, result) ← stringAppend answers heap result remaining
      return (if appended then some found else none, heap, result)
    | some relative =>
      let (appended, heap, result) ← stringAppend answers heap result (stringvSlice source cursor relative)
      if appended = false then
        return (none, heap, result)
      let (appended, heap, result) ← stringAppend answers heap result replacement
      if appended = false then
        return (none, heap, result)
      if SIZE_MAX < cursor + relative + search.length then
        .error .wrapped
      else if replaceAll then
        stringReplaceLoop answers source search replacement replaceAll hsearch heap result
          (cursor + relative + search.length) true
      else
        let (appended, heap, result) ← stringAppend answers heap result
          (stringvFrom source (cursor + relative + search.length))
        return (if appended then some true else none, heap, result)
termination_by source.length + 1 - cursor

def stringReplaceBuild (answers : Answers UInt8) (heap : Memory) (string : String)
    (search replacement : View) (replaceAll : Bool) : Checked (Bool × Memory × String) :=
  if h : search.length = 0 ∨ stringvValid search = false ∨ stringvValid replacement = false then
    return (false, heap, string)
  else do
    let source := stringAsView string
    let (outcome, heap, result) ← stringReplaceLoop answers source search replacement replaceAll
      (Nat.pos_of_ne_zero fun hzero => h (.inl hzero)) heap (stringNew string.allocator) 0 false
    match outcome with
    | none =>
      let (heap, _) ← stringDestroy heap result
      return (false, heap, string)
    | some false =>
      let (heap, _) ← stringDestroy heap result
      return (true, heap, string)
    | some true =>
      let (heap, _) ← stringDestroy heap string
      return (true, heap, result)

def stringReplace (answers : Answers UInt8) (heap : Memory) (string : String)
    (search replacement : View) : Checked (Bool × Memory × String) :=
  stringReplaceBuild answers heap string search replacement false

def stringReplaceAll (answers : Answers UInt8) (heap : Memory) (string : String)
    (search replacement : View) : Checked (Bool × Memory × String) :=
  stringReplaceBuild answers heap string search replacement true

end Ceasy.OwnedString
