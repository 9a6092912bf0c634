import Ceasy.ArenaRuns
import Ceasy.ByteHeap

set_option autoImplicit false

/-!
# Arenas as heaps

The bytes that an arena's blocks hold. The functions of an arena write the headers of
the blocks, and `malloc` and `free` write what is theirs; all of it is the `effect`, and
only the data of blocks that stay is out of its reach. On top of that an arena, used
through its allocator, is a heap of separate blocks that reclaims nothing, with marks to
go back to.
-/
namespace Ceasy.Arenas
open StringView Chain ByteHeap

abbrev ArenaMemory := ℕ → UInt8

def memset (memory : ArenaMemory) (address : ℕ) (value : UInt8) (size : ℕ) : ArenaMemory :=
  fun place => if address ≤ place ∧ place < address + size then value else memory place

def memcpy (memory : ArenaMemory) (target source size : ℕ) : ArenaMemory :=
  fun place => if target ≤ place ∧ place < target + size then memory (source + (place - target)) else memory place

def poke (memory : ArenaMemory) (address : ℕ) (data : Bytes) : ArenaMemory :=
  fun place => if address ≤ place then data.getD (place - address) (memory place) else memory place

section Functions

variable (malloc : ℕ → Option ℕ) (effect : ArenaMemory → ArenaMemory)

/-- `arena_alloc_zero`, with the bytes it clears. -/
def arenaAllocZeroIn (arena : Arena) (memory : ArenaMemory) (size : ℕ) :
    Sized (Option ℕ × Arena × ArenaMemory) := do
  let (answer, arena) ← arenaAlloc malloc arena size
  let memory := effect memory
  match answer with
  | none => return (none, arena, memory)
  | some address => return (some address, arena, memset memory address 0 size)

/-- The old memory is not given back. -/
def arenaRealloc (arena : Arena) (memory : ArenaMemory) (old : Option ℕ) (oldSize newSize : ℕ) :
    Sized (Option ℕ × Arena × ArenaMemory) := do
  let (replacement, arena) ← arenaAlloc malloc arena newSize
  let memory := effect memory
  match replacement with
  | none => return (none, arena, memory)
  | some address =>
    match old with
    | none => return (some address, arena, memory)
    | some old =>
      if oldSize ≠ 0 then
        return (some address, arena, memcpy memory address old (if oldSize < newSize then oldSize else newSize))
      else return (some address, arena, memory)

end Functions

/-- Calls of the arena's functions and of its allocator's, and what the program writes
into the memory it was handed. `restore` takes the number of its mark. -/
inductive HeapCall where
  | alloc (size : ℕ)
  | allocZero (size : ℕ)
  | allocArray (count elementSize : ℕ)
  | realloc (memory : Option ℕ) (oldSize newSize : ℕ)
  | free (memory : Option ℕ)
  | write (address : ℕ) (data : Bytes)
  | mark
  | restore (number : ℕ)
  | reset
deriving DecidableEq, Repr

structure Store where
  history : History
  memory : ArenaMemory

def Store.served (store : Store) (size : ℕ) (result : Option ℕ × Arena × ArenaMemory) : Option ℕ × Store :=
  (result.1,
    { history := store.history.allocated size (result.1, result.2.1)
      memory := result.2.2 })

/-- A call, and the pointer that comes back. `arena_allocator_free` does nothing. -/
def storePerform (malloc : ℕ → Option ℕ) (effect : ArenaMemory → ArenaMemory) (store : Store) :
    HeapCall → Sized (Option ℕ × Store)
  | .alloc size => do
    let (answer, arena) ← arenaAlloc malloc store.history.arena size
    return store.served size (answer, arena, effect store.memory)
  | .allocZero size => do
    let result ← arenaAllocZeroIn malloc effect store.history.arena store.memory size
    return store.served size result
  | .allocArray count elementSize => do
    let (answer, arena) ← arenaAllocArray malloc store.history.arena count elementSize
    return store.served (count * elementSize) (answer, arena, effect store.memory)
  | .realloc memory oldSize newSize => do
    let result ← arenaRealloc malloc effect store.history.arena store.memory memory oldSize newSize
    return store.served newSize result
  | .free _ => return (none, store)
  | .write address data => return (none, { store with memory := poke store.memory address data })
  | .mark => do
    let history ← arenaPerform malloc store.history .mark
    return (none, ⟨history, effect store.memory⟩)
  | .restore number => do
    let history ← arenaPerform malloc store.history (.restore number)
    return (none, ⟨history, effect store.memory⟩)
  | .reset => do
    let history ← arenaPerform malloc store.history .reset
    return (none, ⟨history, effect store.memory⟩)

/-- A pointer that the arena handed out, to memory of at least this size. -/
def Store.Owns (store : Store) (address size : ℕ) : Prop :=
  ∃ allocation ∈ store.history.live, allocation.address = address ∧ size ≤ allocation.size

def HeapCall.Allowed (store : Store) : HeapCall → Prop
  | .realloc (some address) oldSize _ => store.Owns address oldSize
  | .free (some address) => store.Owns address 0
  | .write address data => ∃ allocation ∈ store.history.live,
      allocation.address ≤ address ∧ address + data.length ≤ allocation.address + allocation.size
  | _ => True

/-- The data of a block that stays in the arena is as it was. The effect is all that a call writes
elsewhere: what `malloc` writes, and the headers of the arena's own blocks. -/
def Keeps (effect : ArenaMemory → ArenaMemory) (arena next : Arena) : Prop :=
  ∀ memory, ∀ block ∈ arena.blocks,
    (∃ kept ∈ next.blocks, kept.address = block.address ∧ kept.capacity = block.capacity) →
    ∀ place, block.address + ARENA_BLOCK_SIZE ≤ place →
      place < block.address + ARENA_BLOCK_SIZE + block.capacity → effect memory place = memory place

/-- The calls of a program with the pointers that came back, whatever `malloc` answers. -/
inductive StoreRun (start : Store) : List (HeapCall × Option ℕ) → Store → Prop where
  | start : StoreRun start [] start
  | step {trace : List (HeapCall × Option ℕ)} {store next : Store} {malloc : ℕ → Option ℕ}
    {effect : ArenaMemory → ArenaMemory} {call : HeapCall} {reply : Option ℕ}
    (h : StoreRun start trace store) (hmalloc : MallocAnswers malloc store.history.arena)
    (hallowed : call.Allowed store) (hperform : storePerform malloc effect store call = .ok (reply, next))
    (heffect : Keeps effect store.history.arena next.history.arena) :
    StoreRun start (trace ++ [(call, reply)]) next

def oldestBlocks {β : Type} (heap : Heap β) (count : ℕ) : Heap β :=
  { heap with
    blocks := heap.blocks.drop (heap.blocks.length - count)
    apart := heap.apart.sublist (List.drop_sublist _ _)
    sized := fun block hmem => heap.sized block (List.mem_of_mem_drop hmem) }

/-- A heap of separate blocks. A mark is the number of blocks that there were. -/
structure Region where
  heap : Heap UInt8
  marks : List ℕ := []

def regionPerform (answers : Answers UInt8) (region : Region) : HeapCall → Checked (Option ℕ × Region)
  | .alloc size =>
    let (pointer, heap) := region.heap.allocate answers size
    return (pointer, { region with heap := heap })
  | .allocZero size =>
    match region.heap.allocate answers size with
    | (none, heap) => return (none, { region with heap := heap })
    | (some base, heap) => do
      let heap ← heap.store (some base) (List.replicate size 0)
      return (some base, { region with heap := heap })
  | .allocArray count elementSize =>
    let (pointer, heap) := region.heap.allocate answers (count * elementSize)
    return (pointer, { region with heap := heap })
  | .realloc memory oldSize newSize => do
    let (pointer, heap) ← region.heap.reallocate answers false memory oldSize newSize
    return (pointer, { region with heap := heap })
  | .free memory => do
    let heap ← region.heap.release false memory
    return (none, { region with heap := heap })
  | .write address data => do
    let heap ← region.heap.store (some address) data
    return (none, { region with heap := heap })
  | .mark => return (none, { region with marks := region.heap.blocks.length :: region.marks })
  | .restore number =>
    match region.marks.drop number with
    | [] => return (none, region)
    | count :: older => return (none, { heap := oldestBlocks region.heap count, marks := count :: older })
  | .reset => return (none, { heap := oldestBlocks region.heap 0 })

/-- The same calls of a heap. None of them is a fault. -/
inductive RegionRun (start : Region) : List (HeapCall × Option ℕ) → Region → Prop where
  | start : RegionRun start [] start
  | step {trace : List (HeapCall × Option ℕ)} {region next : Region} {call : HeapCall} {reply : Option ℕ}
    (answers : Answers UInt8) (h : RegionRun start trace region)
    (hperform : regionPerform answers region call = .ok (reply, next)) :
    RegionRun start (trace ++ [(call, reply)]) next

def Allocation.block (allocation : Allocation) : Block := ⟨allocation.address, allocation.size⟩

/-- The heap's blocks are what is live, and the memory holds their bytes. -/
structure Shows (store : Store) (region : Region) : Prop where
  blocks : region.heap.blocks = store.history.live.map Allocation.block
  bytes : ∀ allocation ∈ store.history.live, ∀ place, allocation.address ≤ place →
    place < allocation.address + allocation.size → region.heap.bytes place = store.memory place
  marks : region.marks = store.history.marks.map fun marked => marked.live.length

section Steps

variable {arena result : Arena} {active active' : List ArenaBlock} {history : History} {allocation : Allocation}
  {malloc : ℕ → Option ℕ} {effect : ArenaMemory → ArenaMemory} {store next : Store} {region : Region}
  {size address : ℕ} {answer : Option ℕ}

def Stays (arena next : Arena) (allocation : Allocation) : Prop :=
  ∃ block ∈ arena.blocks,
    (∃ kept ∈ next.blocks, kept.address = block.address ∧ kept.capacity = block.capacity) ∧
    block.address + ARENA_BLOCK_SIZE ≤ allocation.address ∧
      allocation.address + allocation.size ≤ block.address + ARENA_BLOCK_SIZE + block.capacity

theorem Keeps.same (h : Keeps effect arena result) (hstays : Stays arena result allocation)
    (memory : ArenaMemory) {place : ℕ} (hlow : allocation.address ≤ place)
    (hhigh : place < allocation.address + allocation.size) : effect memory place = memory place := by
  obtain ⟨block, hmem, hkept, hbase, hend⟩ := hstays
  exact h memory block hmem hkept place (by omega) (by omega)

/-- Each node of a chain is in the chains that extend it. -/
theorem extends_mem {α : Type} {grows : α → α → Prop} (hrefl : ∀ node, grows node node)
    {shorter longer : List α} (h : Extends grows shorter longer) {node : α} (hmem : node ∈ shorter) :
    ∃ grown ∈ longer, grows node grown := by
  induction h with
  | nil => cases hmem
  | @top last grown hgrows rest =>
    obtain rfl := List.mem_singleton.mp hmem
    exact ⟨grown, List.mem_cons_self, hgrows⟩
  | cons first _ ih =>
    rcases List.mem_cons.mp hmem with rfl | hrest
    · exact ⟨node, List.mem_cons_self, hrefl node⟩
    · obtain ⟨grown, hgrown, hgrows⟩ := ih hrest
      exact ⟨grown, List.mem_cons_of_mem _ hgrown, hgrows⟩

/-- What is placed in a block that grows, on one side or on the other, stays. -/
theorem stays_of_placed (hplaced : Placed active allocation) (hok : ∀ block ∈ active, BlockOk block)
    (hstays : ∀ block ∈ active, ∃ first ∈ arena.blocks, ∃ second ∈ result.blocks,
      (first.address = block.address ∧ first.capacity = block.capacity) ∧
        second.address = block.address ∧ second.capacity = block.capacity) :
    Stays arena result allocation := by
  obtain ⟨-, block, hmem, hlow, hhigh⟩ := hplaced
  obtain ⟨first, hfirst, second, hsecond, ⟨hbase, hcapacity⟩, hbase', hcapacity'⟩ := hstays block hmem
  have hused := (hok block hmem).used
  exact ⟨first, hfirst, ⟨second, hsecond, by rw [hbase, hbase'], by rw [hcapacity, hcapacity']⟩,
    by omega, by omega⟩

theorem Sound.stays_allocated (h : Sound history) (hmalloc : MallocAnswers malloc history.arena)
    (halloc : arenaAlloc malloc history.arena size = .ok (answer, result)) (hmem : allocation ∈ history.live) :
    Stays history.arena result allocation := by
  obtain ⟨active, spare, hshape, hplaced, -, -⟩ := h
  obtain ⟨other, arena, hother, hfailed, hserved⟩ := arenaAlloc_spec hshape hmalloc size
  cases halloc.symm.trans hother
  have hok : ∀ block ∈ active, BlockOk block := fun block hblock =>
    hshape.ok block (List.mem_append_left _ hblock)
  have hhere : ∀ block ∈ active, block ∈ history.arena.blocks := fun block hblock =>
    hshape.blocks ▸ List.mem_append_left _ hblock
  refine stays_of_placed (hplaced allocation hmem) hok fun block hblock => ?_
  cases answer with
  | none =>
    rw [hfailed rfl]
    exact ⟨block, hhere block hblock, block, hhere block hblock, ⟨rfl, rfl⟩, rfl, rfl⟩
  | some address =>
    obtain ⟨active', spare', hshape', hextends, -⟩ := hserved address rfl
    obtain ⟨grown, hgrown, hgrows⟩ := extends_mem Grows.refl hextends hblock
    exact ⟨block, hhere block hblock, grown, hshape'.blocks ▸ List.mem_append_left _ hgrown, ⟨rfl, rfl⟩,
      hgrows.address.symm, hgrows.capacity.symm⟩

/-- No memory is handed out for nothing, and none is asked for. -/
theorem arenaAlloc_nothing (malloc : ℕ → Option ℕ) (arena : Arena) :
    arenaAlloc malloc arena 0 = .ok (none, arena) := by
  unfold arenaAlloc
  rw [if_pos (by simp)]
  rfl

theorem arenaAlloc_positive (halloc : arenaAlloc malloc arena size = .ok (some address, result)) :
    0 < size := by
  by_contra hzero
  obtain rfl : size = 0 := by omega
  rw [arenaAlloc_nothing] at halloc
  cases halloc

theorem Sound.stays_same (h : Sound history) (hmalloc : MallocAnswers malloc history.arena)
    (hmem : allocation ∈ history.live) : Stays history.arena history.arena allocation :=
  h.stays_allocated hmalloc (arenaAlloc_nothing malloc history.arena) hmem

theorem Sound.stays_restored (h : Sound history) {newer older : List Marked} {marked : Marked}
    (hmarks : history.marks = newer ++ marked :: older) {later : History}
    (hrestored : history.restored (marked :: older) = .ok later) (hmem : allocation ∈ marked.live) :
    Stays history.arena later.arena allocation := by
  obtain ⟨active, spare, hshape, -, -, hvalid⟩ := h
  rw [hmarks] at hvalid
  obtain ⟨snapshot, hextends, hmark, hok, hkept, -, -⟩ := hvalid.split
  obtain ⟨result, hrestore, hshape', -, -⟩ := arenaRestore_spec hshape hextends hmark hok
  unfold History.restored at hrestored
  dsimp only at hrestored
  rw [hrestore, sized_bind] at hrestored
  cases hrestored
  refine stays_of_placed (hkept allocation hmem) hok fun block hblock => ?_
  obtain ⟨grown, hgrown, hgrows⟩ := extends_mem Grows.refl hextends hblock
  refine ⟨grown, hshape.blocks ▸ List.mem_append_left _ hgrown, block, ?_,
    ⟨hgrows.address.symm, hgrows.capacity.symm⟩, rfl, rfl⟩
  rw [show result.blocks = snapshot ++ [] from hshape'.blocks, List.append_nil]
  exact hblock

theorem memset_eq_poke (memory : ArenaMemory) (address : ℕ) (value : UInt8) (size : ℕ) :
    memset memory address value size = poke memory address (List.replicate size value) := by
  funext place
  unfold memset poke
  by_cases hlow : address ≤ place
  · by_cases hhigh : place < address + size
    · rw [if_pos ⟨hlow, hhigh⟩, if_pos hlow, List.getD_eq_getElem _ _ (by rw [List.length_replicate]; omega),
        List.getElem_replicate]
    · rw [if_neg (fun h => hhigh h.2), if_pos hlow,
        List.getD_eq_default _ _ (by rw [List.length_replicate]; omega)]
  · rw [if_neg (fun h => hlow h.1), if_neg hlow]

theorem Shows.block_mem (h : Shows store region) (hmem : allocation ∈ store.history.live) :
    allocation.block ∈ region.heap.blocks := by
  rw [h.blocks]
  exact List.mem_map_of_mem hmem

theorem Shows.written (h : Shows store region) {data : Bytes} (hmem : allocation ∈ store.history.live)
    (hlow : allocation.address ≤ address) (hhigh : address + data.length ≤ allocation.address + allocation.size) :
    region.heap.store (some address) data = .ok (region.heap.write address data) ∧
      Shows { store with memory := poke store.memory address data }
        { region with heap := region.heap.write address data } := by
  refine ⟨store_ok ⟨allocation.block, h.block_mem hmem, hlow, hhigh⟩, h.blocks, ?_, h.marks⟩
  intro other hother place hbase hend
  have hsame := h.bytes other hother place hbase hend
  change (if address ≤ place then data.getD (place - address) (region.heap.bytes place)
    else region.heap.bytes place) = poke store.memory address data place
  rw [hsame]
  rfl

/-- An allocator's answer is the heap's, with the bytes that the memory then holds. -/
theorem Shows.served (h : Shows store region) {memory : ArenaMemory}
    (hsound : Sound (store.history.allocated size (answer, result)))
    (hpositive : ∀ address, answer = some address → 0 < size)
    (hsame : ∀ allocation ∈ store.history.live, ∀ place, allocation.address ≤ place →
      place < allocation.address + allocation.size → memory place = store.memory place)
    {kept : List Block} (hkept : kept.Sublist region.heap.blocks) (hall : kept = region.heap.blocks)
    {old : Bytes} (hold : ∀ address, answer = some address → ∀ index (hindex : index < old.length),
      memory (address + index) = old[index]) :
    ∃ heap, region.heap.grant (fun _ _ => answer.map fun base => ⟨base, memory⟩) kept hkept size old =
        (answer, heap) ∧
      Shows (store.served size (answer, result, memory)).2 { region with heap := heap } := by
  subst hall
  cases answer with
  | none =>
    refine ⟨region.heap.refuse, rfl, h.blocks, ?_, h.marks⟩
    intro allocation hmem place hlow hhigh
    exact (h.bytes allocation hmem place hlow hhigh).trans (hsame allocation hmem place hlow hhigh).symm
  | some address =>
    obtain ⟨active, spare, -, -, hdisjoint, -⟩ := hsound
    have hapart := (List.pairwise_cons.mp hdisjoint).1
    have hfree : (∀ block ∈ region.heap.blocks, Block.Apart ⟨address, size⟩ block) ∧ 0 < size := by
      refine ⟨fun block hblock => ?_, hpositive address rfl⟩
      rw [h.blocks] at hblock
      obtain ⟨allocation, hmem, rfl⟩ := List.mem_map.mp hblock
      exact hapart allocation hmem
    unfold Heap.grant
    dsimp only [Option.map_some]
    rw [dif_pos hfree]
    refine ⟨_, rfl, congrArg _ h.blocks, ?_, h.marks⟩
    intro allocation hmem place hlow hhigh
    dsimp only
    rcases List.mem_cons.mp hmem with rfl | hlive
    · obtain ⟨index, rfl⟩ := Nat.exists_eq_add_of_le hlow
      rw [if_pos ⟨hlow, hhigh⟩, Nat.add_sub_cancel_left]
      by_cases hindex : index < old.length
      · rw [List.getD_eq_getElem _ _ hindex]
        exact (hold address rfl index hindex).symm
      · rw [List.getD_eq_default _ _ (Nat.le_of_not_lt hindex)]
        rfl
    · have hnew := hapart allocation hlive
      unfold Disjoint at hnew
      dsimp only at hnew
      rw [if_neg (by omega)]
      exact (h.bytes allocation hlive place hlow hhigh).trans (hsame allocation hlive place hlow hhigh).symm

/-- The call does not wrap, and the heap answers it in the same way. -/
def Answered (malloc : ℕ → Option ℕ) (effect : ArenaMemory → ArenaMemory) (store : Store) (region : Region)
    (call : HeapCall) : Prop :=
  ∃ reply next, storePerform malloc effect store call = .ok (reply, next) ∧ Sound next.history ∧
    (Keeps effect store.history.arena next.history.arena → ∃ answers later,
      regionPerform answers region call = .ok (reply, later) ∧ Shows next later)

theorem allocated_arena (history : History) (size : ℕ) (outcome : Option ℕ × Arena) :
    (history.allocated size outcome).arena = outcome.2 := by
  obtain ⟨answer, arena⟩ := outcome
  cases answer with
  | none => rfl
  | some address => rfl

/-- What `arena_alloc` and `arena_alloc_array` leave. -/
structure Serves (store : Store) (size : ℕ) (answer : Option ℕ) (result : Arena) : Prop where
  sound : Sound (store.history.allocated size (answer, result))
  positive : ∀ address, answer = some address → 0 < size
  stays : ∀ allocation ∈ store.history.live, Stays store.history.arena result allocation

theorem Sound.serves (h : Sound store.history) (hmalloc : MallocAnswers malloc store.history.arena) (size : ℕ) :
    ∃ answer result, arenaAlloc malloc store.history.arena size = .ok (answer, result) ∧
      Serves store size answer result := by
  obtain ⟨⟨answer, result⟩, halloc, hlater, -⟩ := h.allocated hmalloc size
  refine ⟨answer, result, halloc, hlater, ?_, fun _ => h.stays_allocated hmalloc halloc⟩
  intro address haddress
  rw [haddress] at halloc
  exact arenaAlloc_positive halloc

theorem Sound.serves_array (h : Sound store.history) (hmalloc : MallocAnswers malloc store.history.arena)
    (count elementSize : ℕ) :
    ∃ answer result, arenaAllocArray malloc store.history.arena count elementSize = .ok (answer, result) ∧
      Serves store (count * elementSize) answer result := by
  rw [arenaAllocArray_eq]
  by_cases hlarge : SIZE_MAX < count * elementSize
  · rw [if_pos hlarge]
    exact ⟨none, store.history.arena, rfl, h, by simp, fun _ => h.stays_same hmalloc⟩
  · rw [if_neg hlarge]
    exact h.serves hmalloc (count * elementSize)

theorem Serves.same (h : Serves store size answer result) (hkeeps : Keeps effect store.history.arena result) :
    ∀ allocation ∈ store.history.live, ∀ place, allocation.address ≤ place →
      place < allocation.address + allocation.size → effect store.memory place = store.memory place :=
  fun allocation hmem _ hlow hhigh => hkeeps.same (h.stays allocation hmem) store.memory hlow hhigh

theorem Serves.fresh (h : Serves store size answer result) (hshows : Shows store region)
    (hkeeps : Keeps effect store.history.arena result) :
    ∃ answers heap, region.heap.allocate answers size = (answer, heap) ∧
      Shows (store.served size (answer, result, effect store.memory)).2 { region with heap := heap } := by
  have hnothing : ∀ address, answer = some address → ∀ index (hindex : index < ([] : Bytes).length),
      effect store.memory (address + index) = ([] : Bytes)[index] := by simp
  obtain ⟨heap, hgrant, hshows'⟩ := hshows.served h.sound h.positive (h.same hkeeps) (List.Sublist.refl _) rfl
    hnothing
  exact ⟨_, heap, hgrant, hshows'⟩

theorem answered_alloc (hsound : Sound store.history) (hshows : Shows store region)
    (hmalloc : MallocAnswers malloc store.history.arena) (size : ℕ) :
    Answered malloc effect store region (.alloc size) := by
  obtain ⟨answer, result, halloc, hserves⟩ := hsound.serves hmalloc size
  refine ⟨answer, (store.served size (answer, result, effect store.memory)).2,
    by rw [storePerform, halloc]; rfl, hserves.sound, fun hkeeps => ?_⟩
  rw [Store.served, allocated_arena] at hkeeps
  obtain ⟨answers, heap, hallocate, hshows'⟩ := hserves.fresh hshows hkeeps
  exact ⟨answers, _, by rw [regionPerform, hallocate]; rfl, hshows'⟩

theorem answered_allocArray (hsound : Sound store.history) (hshows : Shows store region)
    (hmalloc : MallocAnswers malloc store.history.arena) (count elementSize : ℕ) :
    Answered malloc effect store region (.allocArray count elementSize) := by
  obtain ⟨answer, result, halloc, hserves⟩ := hsound.serves_array hmalloc count elementSize
  refine ⟨answer, (store.served (count * elementSize) (answer, result, effect store.memory)).2,
    by rw [storePerform, halloc]; rfl, hserves.sound, fun hkeeps => ?_⟩
  rw [Store.served, allocated_arena] at hkeeps
  obtain ⟨answers, heap, hallocate, hshows'⟩ := hserves.fresh hshows hkeeps
  exact ⟨answers, _, by rw [regionPerform, hallocate]; rfl, hshows'⟩

theorem answered_allocZero (hsound : Sound store.history) (hshows : Shows store region)
    (hmalloc : MallocAnswers malloc store.history.arena) (size : ℕ) :
    Answered malloc effect store region (.allocZero size) := by
  obtain ⟨answer, result, halloc, hserves⟩ := hsound.serves hmalloc size
  cases answer with
  | none =>
    refine ⟨none, (store.served size (none, result, effect store.memory)).2,
      by rw [storePerform, arenaAllocZeroIn, halloc]; rfl, hserves.sound, fun hkeeps => ?_⟩
    rw [Store.served, allocated_arena] at hkeeps
    obtain ⟨answers, heap, hallocate, hshows'⟩ := hserves.fresh hshows hkeeps
    exact ⟨answers, _, by rw [regionPerform, hallocate]; rfl, hshows'⟩
  | some address =>
    refine ⟨some address, (store.served size (some address, result, memset (effect store.memory) address 0 size)).2,
      by rw [storePerform, arenaAllocZeroIn, halloc]; rfl, hserves.sound, fun hkeeps => ?_⟩
    rw [Store.served, allocated_arena] at hkeeps
    obtain ⟨answers, heap, hallocate, hshows'⟩ := hserves.fresh hshows hkeeps
    have hhigh : address + (List.replicate size (0 : UInt8)).length ≤ address + size := by
      rw [List.length_replicate]
    obtain ⟨hstore, hwritten⟩ := hshows'.written List.mem_cons_self (Nat.le_refl address) hhigh
    refine ⟨answers, { region with heap := heap.write address (List.replicate size 0) }, ?_, ?_⟩
    · rw [regionPerform, hallocate]
      dsimp only at hstore ⊢
      rw [hstore]
      rfl
    · rw [memset_eq_poke]
      exact hwritten

theorem memcpy_nothing (memory : ArenaMemory) (target source : ℕ) : memcpy memory target source 0 = memory := by
  funext place
  exact if_neg (by omega)

theorem memcpy_apart (memory : ArenaMemory) {target source size place : ℕ}
    (h : place < target ∨ target + size ≤ place) : memcpy memory target source size place = memory place :=
  if_neg (by omega)

theorem memcpy_copied (memory : ArenaMemory) (target source : ℕ) {size index : ℕ} (h : index < size) :
    memcpy memory target source size (target + index) = memory (source + index) := by
  unfold memcpy
  rw [if_pos (by omega), Nat.add_sub_cancel_left]

theorem arenaRealloc_some {memory : ArenaMemory} {base oldSize newSize : ℕ}
    (halloc : arenaAlloc malloc arena newSize = .ok (some address, result)) :
    arenaRealloc malloc effect arena memory (some base) oldSize newSize =
      .ok (some address, result, memcpy (effect memory) address base (min oldSize newSize)) := by
  rw [arenaRealloc, halloc, sized_bind]
  dsimp only
  by_cases hzero : oldSize = 0
  · rw [if_neg (not_not.mpr hzero), hzero, Nat.zero_min, memcpy_nothing]
    rfl
  · rw [if_pos hzero]
    have hmin : (if oldSize < newSize then oldSize else newSize) = min oldSize newSize := by
      split_ifs <;> omega
    rw [hmin]
    rfl

theorem arenaRealloc_none {memory : ArenaMemory} {old : Option ℕ} {oldSize newSize : ℕ}
    (halloc : arenaAlloc malloc arena newSize = .ok (none, result)) :
    arenaRealloc malloc effect arena memory old oldSize newSize = .ok (none, result, effect memory) := by
  rw [arenaRealloc, halloc]
  rfl

/-- The heap's answer to a request for more memory, when the old block is there. -/
theorem reallocate_live {heap : Heap UInt8} {answers : Answers UInt8} {oldSize newSize : ℕ}
    (hmem : allocation.block ∈ heap.blocks) (hsize : oldSize ≤ allocation.size) :
    heap.reallocate answers false (some allocation.address) oldSize newSize =
      .ok (heap.grant answers heap.blocks (List.Sublist.refl _) newSize
        (heap.read allocation.address (min oldSize newSize))) := by
  have hat : heap.blockAt allocation.address = some allocation.block := blockAt_mem hmem
  have hload : heap.load (some allocation.address) (min oldSize newSize) =
      .ok (heap.read allocation.address (min oldSize newSize)) :=
    load_ok (live_front hmem ((Nat.min_le_left _ _).trans hsize))
  rw [Heap.reallocate, hat]
  dsimp only
  rw [hload]
  rfl

/-- The copy begins with the old bytes, which stay where they were. -/
theorem answered_realloc (hsound : Sound store.history) (hshows : Shows store region)
    (hmalloc : MallocAnswers malloc store.history.arena) (memory : Option ℕ) (oldSize newSize : ℕ)
    (hallowed : (HeapCall.realloc memory oldSize newSize).Allowed store) :
    Answered malloc effect store region (.realloc memory oldSize newSize) := by
  obtain ⟨answer, result, halloc, hserves⟩ := hsound.serves hmalloc newSize
  cases memory with
  | none =>
    refine ⟨answer, (store.served newSize (answer, result, effect store.memory)).2, ?_, hserves.sound,
      fun hkeeps => ?_⟩
    · rw [storePerform, arenaRealloc, halloc]
      cases answer with
      | none => rfl
      | some address => rfl
    · rw [Store.served, allocated_arena] at hkeeps
      obtain ⟨answers, heap, hallocate, hshows'⟩ := hserves.fresh hshows hkeeps
      refine ⟨answers, _, ?_, hshows'⟩
      rw [regionPerform, Heap.reallocate, hallocate]
      rfl
  | some base =>
    obtain ⟨allocation, hmem, rfl, hsize⟩ := hallowed
    have hold : ∀ index, index < min oldSize newSize → Keeps effect store.history.arena result →
        effect store.memory (allocation.address + index) =
          region.heap.bytes (allocation.address + index) := by
      intro index hindex hkeeps
      have hinside : allocation.address + index < allocation.address + allocation.size := by omega
      rw [hserves.same hkeeps allocation hmem _ (Nat.le_add_right _ _) hinside,
        hshows.bytes allocation hmem _ (Nat.le_add_right _ _) hinside]
    cases answer with
    | none =>
      refine ⟨none, (store.served newSize (none, result, effect store.memory)).2,
        by rw [storePerform, arenaRealloc_none halloc]; rfl, hserves.sound, fun hkeeps => ?_⟩
      rw [Store.served, allocated_arena] at hkeeps
      have hnothing : ∀ (old : Bytes) (address : ℕ), (none : Option ℕ) = some address →
          ∀ index (hindex : index < old.length), effect store.memory (address + index) = old[index] := by simp
      obtain ⟨heap, hgrant, hshows'⟩ := hshows.served hserves.sound hserves.positive (hserves.same hkeeps)
        (List.Sublist.refl _) rfl (hnothing _)
      exact ⟨_, _, by rw [regionPerform, reallocate_live (hshows.block_mem hmem) hsize, hgrant]; rfl, hshows'⟩
    | some address =>
      refine ⟨some address, (store.served newSize (some address, result,
          memcpy (effect store.memory) address allocation.address (min oldSize newSize))).2,
        by rw [storePerform, arenaRealloc_some halloc]; rfl, hserves.sound, fun hkeeps => ?_⟩
      rw [Store.served, allocated_arena] at hkeeps
      obtain ⟨active, spare, -, -, hdisjoint, -⟩ := id hserves.sound
      have hapart := (List.pairwise_cons.mp hdisjoint).1
      have hsame : ∀ other ∈ store.history.live, ∀ place, other.address ≤ place →
          place < other.address + other.size →
          memcpy (effect store.memory) address allocation.address (min oldSize newSize) place =
            store.memory place := by
        intro other hother place hlow hhigh
        have hnew := hapart other hother
        unfold Disjoint at hnew
        dsimp only at hnew
        rw [memcpy_apart _ (by omega)]
        exact hserves.same hkeeps other hother place hlow hhigh
      have hcopied : ∀ base, some address = some base → ∀ index
          (hindex : index < (region.heap.read allocation.address (min oldSize newSize)).length),
          memcpy (effect store.memory) address allocation.address (min oldSize newSize) (base + index) =
            (region.heap.read allocation.address (min oldSize newSize))[index] := by
        intro base hbase index hindex
        cases hbase
        have hlt := hindex
        rw [read_length] at hlt
        rw [memcpy_copied _ _ _ hlt, hold index hlt hkeeps]
        simp [Heap.read]
      obtain ⟨heap, hgrant, hshows'⟩ := hshows.served hserves.sound hserves.positive hsame
        (List.Sublist.refl _) rfl hcopied
      exact ⟨_, _, by rw [regionPerform, reallocate_live (hshows.block_mem hmem) hsize, hgrant]; rfl, hshows'⟩

theorem answered_free (hsound : Sound store.history) (hshows : Shows store region) (memory : Option ℕ)
    (hallowed : (HeapCall.free memory).Allowed store) :
    Answered malloc effect store region (.free memory) := by
  refine ⟨none, store, rfl, hsound, fun _ => ⟨fun _ _ => none, region, ?_, hshows⟩⟩
  cases memory with
  | none => rfl
  | some base =>
    obtain ⟨allocation, hmem, rfl, -⟩ := hallowed
    have hat : region.heap.blockAt allocation.address = some allocation.block := blockAt_mem (hshows.block_mem hmem)
    rw [regionPerform, Heap.release, hat]
    rfl

theorem answered_write (hsound : Sound store.history) (hshows : Shows store region) (address : ℕ) (data : Bytes)
    (hallowed : (HeapCall.write address data).Allowed store) :
    Answered malloc effect store region (.write address data) := by
  obtain ⟨allocation, hmem, hlow, hhigh⟩ := hallowed
  obtain ⟨hstore, hwritten⟩ := hshows.written hmem hlow hhigh
  refine ⟨none, _, rfl, hsound, fun _ => ⟨fun _ _ => none, _, ?_, hwritten⟩⟩
  rw [regionPerform, hstore]
  rfl

/-- The blocks that were live when a mark was made are the oldest ones. -/
theorem Shows.oldest (h : Shows store region) {marked : Marked} (hlive : marked.live <:+ store.history.live) :
    (oldestBlocks region.heap marked.live.length).blocks = marked.live.map Allocation.block := by
  change region.heap.blocks.drop (region.heap.blocks.length - marked.live.length) = _
  rw [h.blocks, List.length_map, ← List.map_drop, ← List.suffix_iff_eq_drop.mp hlive]

/-- An arena that is as it was, to which a mark may have been added. -/
theorem Shows.kept (h : Shows store region) (hsound : Sound store.history)
    (hmalloc : MallocAnswers malloc store.history.arena)
    (hkeeps : Keeps effect store.history.arena store.history.arena) {marks : List Marked} {counts : List ℕ}
    (hmarks : counts = marks.map fun marked => marked.live.length) :
    Shows ⟨{ store.history with marks := marks }, effect store.memory⟩ { region with marks := counts } := by
  refine ⟨h.blocks, ?_, hmarks⟩
  intro allocation hmem place hlow hhigh
  rw [h.bytes allocation hmem place hlow hhigh]
  exact (hkeeps.same (hsound.stays_same hmalloc hmem) store.memory hlow hhigh).symm

theorem answered_mark (hsound : Sound store.history) (hshows : Shows store region)
    (hmalloc : MallocAnswers malloc store.history.arena) :
    Answered malloc effect store region .mark := by
  obtain ⟨later, hperform, hlater, -⟩ := hsound.perform hmalloc .mark
  refine ⟨none, ⟨later, effect store.memory⟩, by rw [storePerform, hperform]; rfl, hlater, fun hkeeps => ?_⟩
  cases hperform
  refine ⟨fun _ _ => none, _, rfl, hshows.kept hsound hmalloc hkeeps ?_⟩
  rw [hshows.marks, hshows.blocks, List.length_map, List.map_cons]

theorem answered_restore (hsound : Sound store.history) (hshows : Shows store region)
    (hmalloc : MallocAnswers malloc store.history.arena) (number : ℕ) :
    Answered malloc effect store region (.restore number) := by
  obtain ⟨later, hperform, hlater, -⟩ := hsound.perform hmalloc (.restore number)
  refine ⟨none, ⟨later, effect store.memory⟩, by rw [storePerform, hperform]; rfl, hlater, fun hkeeps => ?_⟩
  have hcounts : region.marks.drop number =
      (store.history.marks.drop number).map fun marked => marked.live.length := by
    rw [hshows.marks, List.map_drop]
  rw [arenaPerform] at hperform
  cases hdrop : store.history.marks.drop number with
  | nil =>
    rw [hdrop] at hperform hcounts
    cases hperform
    refine ⟨fun _ _ => none, region, by rw [regionPerform, hcounts]; rfl, ?_⟩
    exact hshows.kept hsound hmalloc hkeeps hshows.marks
  | cons marked older =>
    have hmarks : store.history.marks = store.history.marks.take number ++ marked :: older := by
      rw [← hdrop, List.take_append_drop]
    rw [hdrop] at hperform hcounts
    obtain ⟨arena, hrestored, -⟩ := hsound.restored hmarks
    obtain ⟨active, spare, -, -, -, hvalid⟩ := id hsound
    rw [hmarks] at hvalid
    obtain ⟨-, -, -, -, -, hlive, -⟩ := hvalid.split
    have hstays := fun allocation => @Sound.stays_restored store.history allocation hsound _ _ _ hmarks later hperform
    cases hperform.symm.trans hrestored
    refine ⟨fun _ _ => none, _, by rw [regionPerform, hcounts]; rfl, hshows.oldest hlive, ?_, rfl⟩
    intro allocation hmem place hlow hhigh
    change region.heap.bytes place = effect store.memory place
    rw [hshows.bytes allocation (hlive.subset hmem) place hlow hhigh]
    exact (hkeeps.same (hstays allocation hmem) store.memory hlow hhigh).symm

theorem answered_reset (hsound : Sound store.history)
    (hmalloc : MallocAnswers malloc store.history.arena) :
    Answered malloc effect store region .reset := by
  obtain ⟨active, spare, hshape, -⟩ := id hsound
  obtain ⟨result, -, -, hreset, -⟩ := arenaReset_spec hshape
  obtain ⟨later, hperform, hlater, -⟩ := hsound.perform hmalloc .reset
  refine ⟨none, ⟨later, effect store.memory⟩, by rw [storePerform, hperform]; rfl, hlater, fun _ => ?_⟩
  rw [arenaPerform, hreset] at hperform
  cases hperform
  refine ⟨fun _ _ => none, _, rfl, ?_, by simp, rfl⟩
  exact List.drop_length

/-- Each call that a program may make is answered as a heap answers it. -/
theorem Shows.answered (hshows : Shows store region) (hsound : Sound store.history)
    (hmalloc : MallocAnswers malloc store.history.arena) (effect : ArenaMemory → ArenaMemory) (call : HeapCall)
    (hallowed : call.Allowed store) : Answered malloc effect store region call := by
  cases call with
  | alloc size => exact answered_alloc hsound hshows hmalloc size
  | allocZero size => exact answered_allocZero hsound hshows hmalloc size
  | allocArray count elementSize => exact answered_allocArray hsound hshows hmalloc count elementSize
  | realloc memory oldSize newSize =>
    exact answered_realloc hsound hshows hmalloc memory oldSize newSize hallowed
  | free memory => exact answered_free hsound hshows memory hallowed
  | write address data => exact answered_write hsound hshows address data hallowed
  | mark => exact answered_mark hsound hshows hmalloc
  | restore number => exact answered_restore hsound hshows hmalloc number
  | reset => exact answered_reset hsound hmalloc

end Steps

def emptyRegion (memory : ArenaMemory) : Region where
  heap := { blocks := [], bytes := memory, apart := List.Pairwise.nil, sized := by simp }

variable {arena : Arena} {self blockSize : ℕ} {memory : ArenaMemory} {trace : List (HeapCall × Option ℕ)}
  {store : Store}

theorem StoreRun.shows (h : StoreRun ⟨{ arena := arena }, memory⟩ trace store)
    (hstart : Sound { arena := arena }) :
    Sound store.history ∧ ∃ region, RegionRun (emptyRegion memory) trace region ∧ Shows store region := by
  induction h with
  | start => exact ⟨hstart, emptyRegion memory, .start, rfl, by simp, rfl⟩
  | step _ hmalloc hallowed hperform heffect ih =>
    obtain ⟨hsound, region, hrun, hshows⟩ := ih
    obtain ⟨reply, next, hsame, hlater, hanswer⟩ := hshows.answered hsound hmalloc _ _ hallowed
    cases hperform.symm.trans hsame
    obtain ⟨answers, later, hregion, hshows'⟩ := hanswer heffect
    exact ⟨hlater, later, hrun.step answers hregion, hshows'⟩

/-- An arena is a heap: whatever `malloc` answers and wherever it writes, a program that keeps to
what it was handed gets the pointers that a heap of separate blocks gives it, without a fault, and
finds in each block the bytes that the heap holds. Memory that is cleared is zero, a copy begins
with the old bytes, and what a mark or a reset takes back are the newest blocks. Whatever is asked
for next, no size computation wraps. -/
theorem arena_is_heap (hsize : blockSize ≤ SIZE_MAX) (hinit : arenaInit self blockSize = some arena)
    (h : StoreRun ⟨{ arena := arena }, memory⟩ trace store) :
    (∃ region, RegionRun (emptyRegion memory) trace region ∧ Shows store region) ∧
      ∀ malloc effect call, MallocAnswers malloc store.history.arena → call.Allowed store →
        ∃ reply next, storePerform malloc effect store call = .ok (reply, next) := by
  obtain ⟨hsound, region, hrun, hshows⟩ := h.shows (sound_init hinit hsize)
  refine ⟨⟨region, hrun, hshows⟩, fun malloc effect call hmalloc hallowed => ?_⟩
  obtain ⟨reply, next, hperform, -⟩ := hshows.answered hsound hmalloc effect call hallowed
  exact ⟨reply, next, hperform⟩

/-- Three bytes are written into a block of eight, which is then made longer: the heap has both
blocks, and the third byte in each. -/
theorem arena_is_heap_longer :
    ∃ region,
      RegionRun (emptyRegion fun _ => 7)
          [(.alloc 8, some 4176), (.write 4176 [1, 2, 3], none), (.realloc (some 4176) 8 16, some 4192)]
          region ∧
        region.heap.blocks = [⟨4192, 16⟩, ⟨4176, 8⟩] ∧ region.heap.bytes 4178 = 3 ∧ region.heap.bytes 4194 = 3 := by
  have hkeeps : ∀ arena next : Arena, Keeps id arena next := fun _ _ _ _ _ _ _ _ _ => rfl
  have hmalloc : MallocAnswers (fun _ => some 4096) sampleArena := by
    intro size address haddress
    cases haddress
    exact ⟨by decide, by simp [sampleArena]⟩
  have hnone : ∀ arena, MallocAnswers (fun _ => none) arena := fun _ _ _ hanswer => by cases hanswer
  have hstart : StoreRun ⟨{ arena := sampleArena }, fun _ => 7⟩ [] ⟨{ arena := sampleArena }, fun _ => 7⟩ := .start
  have hfirst := hstart.step hmalloc (show (HeapCall.alloc 8).Allowed _ from trivial) rfl (hkeeps _ _)
  have hsecond := hfirst.step (hnone _)
    (show (HeapCall.write 4176 [1, 2, 3]).Allowed _ from ⟨⟨4176, 8⟩, by decide, by decide, by decide⟩) rfl
    (hkeeps _ _)
  have hthird := hsecond.step (hnone _)
    (show (HeapCall.realloc (some 4176) 8 16).Allowed _ from ⟨⟨4176, 8⟩, by decide, rfl, by decide⟩) rfl
    (hkeeps _ _)
  obtain ⟨⟨region, hregion, hshows⟩, -⟩ :=
    arena_is_heap (by decide : 64 ≤ SIZE_MAX) (rfl : arenaInit 0 64 = some sampleArena) hthird
  exact ⟨region, hregion, hshows.blocks,
    (hshows.bytes ⟨4176, 8⟩ (by decide) 4178 (by decide) (by decide)).trans (by decide +kernel),
    (hshows.bytes ⟨4192, 16⟩ (by decide) 4194 (by decide) (by decide)).trans (by decide +kernel)⟩

end Ceasy.Arenas
