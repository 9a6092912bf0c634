import Ceasy.Chain
import Ceasy.StringView

set_option autoImplicit false

/-!
# Arenas

An arena hands out memory from a chain of blocks and takes it back all at once.
Arithmetic on `size_t` is checked here: a computation that would wrap has no
value, and none does. `malloc` is a parameter, and what the memory holds is left
out. The sizes are those of the x86-64 ABI.
-/
namespace Ceasy.Arenas
open StringView Chain

inductive SizeError where
  | wrapped
deriving DecidableEq, Repr

abbrev Sized := Except SizeError

def sizeAdd (a b : ℕ) : Sized ℕ := if a + b ≤ SIZE_MAX then .ok (a + b) else .error .wrapped

def sizeSub (a b : ℕ) : Sized ℕ := if b ≤ a then .ok (a - b) else .error .wrapped

def sizeMul (a b : ℕ) : Sized ℕ := if a * b ≤ SIZE_MAX then .ok (a * b) else .error .wrapped

/-- `_Alignof(max_align_t)`. -/
def MAX_ALIGN : ℕ := 16

/-- `sizeof(ArenaBlock)`, which is also where `data` begins. -/
def ARENA_BLOCK_SIZE : ℕ := 80

structure ArenaBlock where
  address : ℕ
  capacity : ℕ
  used : ℕ := 0
  allocationCount : ℕ := 0
  oversized : Bool
deriving DecidableEq, Repr

/-- The chain is the list of its blocks from `first` on; `self` is where the arena is. -/
structure Arena where
  self : ℕ
  blocks : List ArenaBlock := []
  current : Option ℕ := none
  defaultBlockSize : ℕ
  blockCount : ℕ := 0
  capacity : ℕ := 0
  used : ℕ := 0
  allocationCount : ℕ := 0
  generation : ℕ
deriving DecidableEq, Repr

structure ArenaMark where
  arena : Option ℕ := none
  block : Option ℕ := none
  used : ℕ := 0
  allocationCount : ℕ := 0
  totalUsed : ℕ := 0
  totalAllocations : ℕ := 0
  generation : ℕ := 0
deriving DecidableEq, Repr

def arenaAlignUp (value : ℕ) : Sized (Option ℕ) := do
  let remainder := value % MAX_ALIGN
  if remainder = 0 then
    return some value
  let padding ← sizeSub MAX_ALIGN remainder
  let limit ← sizeSub SIZE_MAX padding
  if limit < value then
    return none
  let aligned ← sizeAdd value padding
  return some aligned

def arenaRequiredCapacity (size : ℕ) : Sized (Option ℕ) := do
  let alignmentPadding ← sizeSub MAX_ALIGN 1
  let limit ← sizeSub SIZE_MAX alignmentPadding
  if limit < size then
    return none
  let capacity ← sizeAdd size alignmentPadding
  return some capacity

def arenaCapacityIsOversized (arena : Arena) (capacity : ℕ) : Sized Bool := do
  if SIZE_MAX / 4 < arena.defaultBlockSize then
    return false
  let threshold ← sizeMul arena.defaultBlockSize 4
  return decide (threshold < capacity)

def arenaBlockCreate (malloc : ℕ → Option ℕ) (arena : Arena) (capacity : ℕ) :
    Sized (Option ArenaBlock) := do
  let limit ← sizeSub SIZE_MAX ARENA_BLOCK_SIZE
  if limit < capacity then
    return none
  let size ← sizeAdd ARENA_BLOCK_SIZE capacity
  match malloc size with
  | none => return none
  | some address =>
    let oversized ← arenaCapacityIsOversized arena capacity
    return some { address := address, capacity := capacity, oversized := oversized }

def arenaBlockCanAllocate (block : ArenaBlock) (size : ℕ) : Sized Bool := do
  match ← arenaAlignUp block.used with
  | none => return false
  | some alignedUsed =>
    if block.capacity < alignedUsed then
      return false
    let room ← sizeSub block.capacity alignedUsed
    return decide (size ≤ room)

def arenaInsertBlock (arena : Arena) (block : ArenaBlock) : List ArenaBlock :=
  match arena.current with
  | none => [block]
  | some current => insertAfter ArenaBlock.address current block arena.blocks

def arenaAddBlock (malloc : ℕ → Option ℕ) (arena : Arena) (size : ℕ) : Sized (Bool × Arena) := do
  match ← arenaRequiredCapacity size with
  | none => return (false, arena)
  | some requiredCapacity =>
    let capacity :=
      if arena.defaultBlockSize < requiredCapacity then requiredCapacity else arena.defaultBlockSize
    if arena.blockCount = SIZE_MAX then
      return (false, arena)
    let limit ← sizeSub SIZE_MAX capacity
    if limit < arena.capacity then
      return (false, arena)
    match ← arenaBlockCreate malloc arena capacity with
    | none => return (false, arena)
    | some block =>
      let blockCount ← sizeAdd arena.blockCount 1
      let total ← sizeAdd arena.capacity capacity
      return (true, { arena with
        blocks := arenaInsertBlock arena block
        current := some block.address
        blockCount := blockCount
        capacity := total })

def arenaInit (self blockSize : ℕ) : Option Arena :=
  if blockSize = 0 then none else some { self := self, defaultBlockSize := blockSize, generation := 1 }

/-- The first part of `arena_alloc`: the block that is to serve becomes current. -/
def arenaSelectBlock (malloc : ℕ → Option ℕ) (arena : Arena) (size : ℕ) : Sized (Bool × Arena) :=
  match arena.current with
  | none => arenaAddBlock malloc arena size
  | some current =>
    match at? ArenaBlock.address current arena.blocks with
    | none => arenaAddBlock malloc arena size
    | some block => do
      if ← arenaBlockCanAllocate block size then
        return (true, arena)
      match next? ArenaBlock.address current arena.blocks with
      | none => arenaAddBlock malloc arena size
      | some next =>
        if ← arenaBlockCanAllocate next size then
          return (true, { arena with current := some next.address })
        arenaAddBlock malloc arena size

def arenaBump (arena : Arena) (size : ℕ) : Sized (Option ℕ × Arena) :=
  match arena.current.bind fun current => at? ArenaBlock.address current arena.blocks with
  | none => return (none, arena)
  | some block => do
    match ← arenaAlignUp block.used with
    | none => return (none, arena)
    | some alignedUsed =>
      let room ← sizeSub block.capacity alignedUsed
      if room < size then
        return (none, arena)
      let used ← sizeAdd alignedUsed size
      let allocationCount ← sizeAdd block.allocationCount 1
      let growth ← sizeSub used block.used
      let totalUsed ← sizeAdd arena.used growth
      let totalAllocations ← sizeAdd arena.allocationCount 1
      return (some (block.address + ARENA_BLOCK_SIZE + alignedUsed), { arena with
        blocks := modify ArenaBlock.address block.address
          (fun block => { block with used := used, allocationCount := allocationCount }) arena.blocks
        used := totalUsed
        allocationCount := totalAllocations })

def arenaAlloc (malloc : ℕ → Option ℕ) (arena : Arena) (size : ℕ) : Sized (Option ℕ × Arena) := do
  if arena.defaultBlockSize = 0 || size = 0 then
    return (none, arena)
  let (found, arena) ← arenaSelectBlock malloc arena size
  if !found then
    return (none, arena)
  arenaBump arena size

/-- Clearing the bytes has no effect on the arena. -/
def arenaAllocZero (malloc : ℕ → Option ℕ) (arena : Arena) (size : ℕ) : Sized (Option ℕ × Arena) :=
  arenaAlloc malloc arena size

def arenaAllocArray (malloc : ℕ → Option ℕ) (arena : Arena) (count elementSize : ℕ) :
    Sized (Option ℕ × Arena) := do
  if count ≠ 0 && decide (SIZE_MAX / count < elementSize) then
    return (none, arena)
  let size ← sizeMul count elementSize
  arenaAlloc malloc arena size

def arenaMark (arena : Arena) : ArenaMark :=
  if arena.defaultBlockSize = 0 then {}
  else
    let block := arena.current.bind fun current => at? ArenaBlock.address current arena.blocks
    { arena := some arena.self
      block := arena.current
      used := (block.map ArenaBlock.used).getD 0
      allocationCount := (block.map ArenaBlock.allocationCount).getD 0
      totalUsed := arena.used
      totalAllocations := arena.allocationCount
      generation := arena.generation }

def arenaResetToEmpty (arena : Arena) : Arena :=
  { arena with
    blocks := []
    current := none
    blockCount := 0
    capacity := 0
    used := 0
    allocationCount := 0 }

/-- The loop at the end of `arena_restore`. -/
def arenaRecount : List ArenaBlock → ℕ → ℕ → Sized (ℕ × ℕ)
  | [], blockCount, capacity => return (blockCount, capacity)
  | block :: blocks, blockCount, capacity => do
    let blockCount ← sizeAdd blockCount 1
    let capacity ← sizeAdd capacity block.capacity
    arenaRecount blocks blockCount capacity

def arenaRestore (arena : Arena) (mark : ArenaMark) : Sized (Bool × Arena) :=
  if mark.arena ≠ some arena.self ∨ mark.generation ≠ arena.generation then return (false, arena)
  else
    match mark.block with
    | none =>
      if mark.totalUsed ≠ 0 ∨ mark.totalAllocations ≠ 0 then return (false, arena)
      else return (true, arenaResetToEmpty arena)
    | some target =>
      match at? ArenaBlock.address target arena.blocks with
      | none => return (false, arena)
      | some block =>
        if block.used < mark.used ∨ block.allocationCount < mark.allocationCount then
          return (false, arena)
        else do
          let blocks := modify ArenaBlock.address target
            (fun block => { block with used := mark.used, allocationCount := mark.allocationCount })
            (upTo ArenaBlock.address target arena.blocks)
          let (blockCount, capacity) ← arenaRecount blocks 0 0
          return (true, { arena with
            blocks := blocks
            current := some target
            blockCount := blockCount
            capacity := capacity
            used := mark.totalUsed
            allocationCount := mark.totalAllocations })

/-- The loop of `arena_reset`: oversized blocks are freed, the others emptied. -/
def arenaRetain : List ArenaBlock → ℕ → ℕ → Sized (List ArenaBlock × ℕ × ℕ)
  | [], blockCount, capacity => return ([], blockCount, capacity)
  | block :: blocks, blockCount, capacity =>
    if block.oversized then do
      let blockCount ← sizeSub blockCount 1
      let capacity ← sizeSub capacity block.capacity
      arenaRetain blocks blockCount capacity
    else do
      let (retained, blockCount, capacity) ← arenaRetain blocks blockCount capacity
      return ({ block with used := 0, allocationCount := 0 } :: retained, blockCount, capacity)

/-- A generation has 64 bits, and 0 is skipped. -/
def arenaNextGeneration (generation : ℕ) : ℕ :=
  let next := (generation + 1) % 2 ^ 64
  if next = 0 then 1 else next

def arenaReset (arena : Arena) : Sized Arena :=
  if arena.defaultBlockSize = 0 then return arena
  else do
    let (retained, blockCount, capacity) ← arenaRetain arena.blocks arena.blockCount arena.capacity
    return { arena with
      blocks := retained
      current := retained.head?.map ArenaBlock.address
      blockCount := blockCount
      capacity := capacity
      used := 0
      allocationCount := 0
      generation := arenaNextGeneration arena.generation }

structure Allocation where
  address : ℕ
  size : ℕ
deriving DecidableEq, Repr

structure Marked where
  mark : ArenaMark
  live : List Allocation
deriving DecidableEq, Repr

/-- An arena, what has been allocated from it and not been taken back, and the marks
    that have not been invalidated, both with the newest first. -/
structure History where
  arena : Arena
  live : List Allocation := []
  marks : List Marked := []
deriving DecidableEq, Repr

/-- `restore` takes the number of its mark. -/
inductive ArenaOperation where
  | alloc (size : ℕ)
  | allocZero (size : ℕ)
  | allocArray (count elementSize : ℕ)
  | mark
  | restore (number : ℕ)
  | reset
deriving DecidableEq, Repr

def History.allocated (history : History) (size : ℕ) (result : Option ℕ × Arena) : History :=
  match result.1 with
  | none => { history with arena := result.2 }
  | some address => { history with arena := result.2, live := ⟨address, size⟩ :: history.live }

/-- Restoring a mark takes back what was allocated after it and invalidates the marks
    that were made after it. -/
def History.restored (history : History) (marks : List Marked) : Sized History :=
  match marks with
  | [] => return history
  | marked :: older => do
    let (ok, arena) ← arenaRestore history.arena marked.mark
    if ok then
      return { arena := arena, live := marked.live, marks := marked :: older }
    return { history with arena := arena }

def arenaPerform (malloc : ℕ → Option ℕ) (history : History) : ArenaOperation → Sized History
  | .alloc size => do
    let result ← arenaAlloc malloc history.arena size
    return history.allocated size result
  | .allocZero size => do
    let result ← arenaAllocZero malloc history.arena size
    return history.allocated size result
  | .allocArray count elementSize => do
    let result ← arenaAllocArray malloc history.arena count elementSize
    return history.allocated (count * elementSize) result
  | .mark => return { history with marks := ⟨arenaMark history.arena, history.live⟩ :: history.marks }
  | .restore number => history.restored (history.marks.drop number)
  | .reset => do
    let arena ← arenaReset history.arena
    return { arena := arena }

/-- `malloc` returns memory for any object, apart from the blocks that the arena holds. -/
def MallocAnswers (malloc : ℕ → Option ℕ) (arena : Arena) : Prop :=
  ∀ size address, malloc size = some address → address % MAX_ALIGN = 0 ∧
    ∀ block ∈ arena.blocks, address + size ≤ block.address ∨
      block.address + ARENA_BLOCK_SIZE + block.capacity ≤ address

/-- What an arena comes to, with any answers of `malloc`. -/
inductive ArenaRun (start : History) : History → Prop where
  | start : ArenaRun start start
  | step {history next : History} {malloc : ℕ → Option ℕ} {operation : ArenaOperation}
    (h : ArenaRun start history) (hmalloc : MallocAnswers malloc history.arena)
    (hperform : arenaPerform malloc history operation = .ok next) : ArenaRun start next

end Ceasy.Arenas
