import Ceasy.Arena

set_option autoImplicit false

/-!
# The blocks of an arena

The chain is made of active blocks, up to the current one, and spare blocks, which
are empty. Allocating lets the last active block grow or adds one; a mark remembers
the active blocks as they were, which the later ones extend.
-/
namespace Ceasy.Arenas
open StringView Chain

variable {α β : Type}

@[simp]
theorem sized_bind (a : α) (f : α → Sized β) : (Except.ok a >>= f) = f a := rfl

@[simp]
theorem sized_pure (a : α) : (pure a : Sized α) = .ok a := rfl

theorem sizeAdd_ok {a b : ℕ} (h : a + b ≤ SIZE_MAX) : sizeAdd a b = .ok (a + b) := if_pos h

theorem sizeSub_ok {a b : ℕ} (h : b ≤ a) : sizeSub a b = .ok (a - b) := if_pos h

theorem sizeMul_ok {a b : ℕ} (h : a * b ≤ SIZE_MAX) : sizeMul a b = .ok (a * b) := if_pos h

theorem arenaAlignUp_spec (value : ℕ) :
    ∃ result, arenaAlignUp value = .ok result ∧ (∀ aligned, result = some aligned →
      aligned % MAX_ALIGN = 0 ∧ value ≤ aligned) ∧ (value = 0 → result = some 0) := by
  have hpadding : MAX_ALIGN - value % MAX_ALIGN ≤ SIZE_MAX := by
    unfold MAX_ALIGN SIZE_MAX
    omega
  have hremainder : value % MAX_ALIGN ≤ MAX_ALIGN := (Nat.mod_lt value (by decide)).le
  unfold arenaAlignUp
  dsimp only
  by_cases haligned : value % MAX_ALIGN = 0
  · rw [if_pos haligned]
    refine ⟨_, rfl, ?_, fun h => by rw [h]⟩
    intro aligned hsome
    cases hsome
    exact ⟨haligned, le_refl _⟩
  rw [if_neg haligned, sizeSub_ok hremainder, sized_bind, sizeSub_ok hpadding, sized_bind]
  by_cases hlimit : SIZE_MAX - (MAX_ALIGN - value % MAX_ALIGN) < value
  · rw [if_pos hlimit]
    refine ⟨_, rfl, by simp, ?_⟩
    intro hzero
    rw [hzero] at haligned
    exact absurd rfl haligned
  · rw [if_neg hlimit, sizeAdd_ok (by omega), sized_bind]
    refine ⟨_, rfl, ?_, ?_⟩
    · intro aligned hsome
      cases hsome
      unfold MAX_ALIGN at *
      omega
    · intro hzero
      rw [hzero] at haligned
      exact absurd rfl haligned

theorem arenaRequiredCapacity_spec (size : ℕ) :
    ∃ result, arenaRequiredCapacity size = .ok result ∧
      ∀ capacity, result = some capacity → size + (MAX_ALIGN - 1) = capacity ∧ capacity ≤ SIZE_MAX := by
  have hpadding : MAX_ALIGN - 1 ≤ SIZE_MAX := by decide
  unfold arenaRequiredCapacity
  rw [sizeSub_ok (by decide), sized_bind, sizeSub_ok hpadding, sized_bind]
  by_cases hlimit : SIZE_MAX - (MAX_ALIGN - 1) < size
  · rw [if_pos hlimit]
    exact ⟨_, rfl, by simp⟩
  · rw [if_neg hlimit, sizeAdd_ok (by omega), sized_bind]
    refine ⟨_, rfl, ?_⟩
    intro capacity hsome
    cases hsome
    exact ⟨rfl, by omega⟩

theorem arenaCapacityIsOversized_spec (arena : Arena) (capacity : ℕ) :
    ∃ oversized, arenaCapacityIsOversized arena capacity = .ok oversized := by
  unfold arenaCapacityIsOversized
  by_cases hlarge : SIZE_MAX / 4 < arena.defaultBlockSize
  · rw [if_pos hlarge]
    exact ⟨_, rfl⟩
  · rw [if_neg hlarge, sizeMul_ok (by unfold SIZE_MAX at *; omega), sized_bind]
    exact ⟨_, rfl⟩

theorem arenaBlockCanAllocate_spec (block : ArenaBlock) (size : ℕ) :
    ∃ ok, arenaBlockCanAllocate block size = .ok ok ∧ (ok = true →
      ∃ aligned, arenaAlignUp block.used = .ok (some aligned) ∧ aligned + size ≤ block.capacity) := by
  obtain ⟨result, hresult, -⟩ := arenaAlignUp_spec block.used
  unfold arenaBlockCanAllocate
  rw [hresult, sized_bind]
  cases result with
  | none => exact ⟨_, rfl, by simp⟩
  | some aligned =>
    dsimp only
    by_cases hfull : block.capacity < aligned
    · rw [if_pos hfull]
      exact ⟨_, rfl, by simp⟩
    · rw [if_neg hfull, sizeSub_ok (by omega), sized_bind]
      refine ⟨_, rfl, ?_⟩
      intro hroom
      exact ⟨aligned, rfl, by have := of_decide_eq_true hroom; omega⟩

structure BlockOk (block : ArenaBlock) : Prop where
  used : block.used ≤ block.capacity
  fits : ARENA_BLOCK_SIZE + block.capacity ≤ SIZE_MAX
  aligned : block.address % MAX_ALIGN = 0
  counted : block.allocationCount ≤ block.used

def Apart (first second : ArenaBlock) : Prop :=
  first.address + ARENA_BLOCK_SIZE + first.capacity ≤ second.address ∨
    second.address + ARENA_BLOCK_SIZE + second.capacity ≤ first.address

structure Grows (block grown : ArenaBlock) : Prop where
  address : block.address = grown.address
  capacity : block.capacity = grown.capacity
  oversized : block.oversized = grown.oversized
  used : block.used ≤ grown.used
  allocationCount : block.allocationCount ≤ grown.allocationCount

theorem Grows.refl (block : ArenaBlock) : Grows block block :=
  ⟨rfl, rfl, rfl, le_refl _, le_refl _⟩

theorem Grows.trans (first second third : ArenaBlock) (h : Grows first second)
    (hnext : Grows second third) : Grows first third :=
  ⟨h.address.trans hnext.address, h.capacity.trans hnext.capacity, h.oversized.trans hnext.oversized,
    h.used.trans hnext.used, h.allocationCount.trans hnext.allocationCount⟩

theorem Apart.symm {first second : ArenaBlock} (h : Apart first second) : Apart second first :=
  Or.symm h

theorem Apart.address_ne {first second : ArenaBlock} (h : Apart first second) :
    first.address ≠ second.address := by
  unfold Apart ARENA_BLOCK_SIZE at h
  omega

def blocksUsed (blocks : List ArenaBlock) : ℕ := (blocks.map ArenaBlock.used).sum

def blocksCapacity (blocks : List ArenaBlock) : ℕ := (blocks.map ArenaBlock.capacity).sum

def blocksAllocations (blocks : List ArenaBlock) : ℕ := (blocks.map ArenaBlock.allocationCount).sum

section Sums

variable (block : ArenaBlock) (first second : List ArenaBlock)

@[simp]
theorem blocksUsed_append : blocksUsed (first ++ second) = blocksUsed first + blocksUsed second := by
  simp [blocksUsed]

@[simp]
theorem blocksUsed_cons : blocksUsed (block :: second) = block.used + blocksUsed second := by
  simp [blocksUsed]

@[simp]
theorem blocksCapacity_append :
    blocksCapacity (first ++ second) = blocksCapacity first + blocksCapacity second := by
  simp [blocksCapacity]

@[simp]
theorem blocksCapacity_cons :
    blocksCapacity (block :: second) = block.capacity + blocksCapacity second := by
  simp [blocksCapacity]

@[simp]
theorem blocksAllocations_append :
    blocksAllocations (first ++ second) = blocksAllocations first + blocksAllocations second := by
  simp [blocksAllocations]

@[simp]
theorem blocksAllocations_cons :
    blocksAllocations (block :: second) = block.allocationCount + blocksAllocations second := by
  simp [blocksAllocations]

@[simp]
theorem blocksUsed_nil : blocksUsed [] = 0 := rfl

@[simp]
theorem blocksCapacity_nil : blocksCapacity [] = 0 := rfl

@[simp]
theorem blocksAllocations_nil : blocksAllocations [] = 0 := rfl

end Sums

theorem blocksUsed_le {blocks : List ArenaBlock} (h : ∀ block ∈ blocks, BlockOk block) :
    blocksUsed blocks ≤ blocksCapacity blocks := by
  induction blocks with
  | nil => exact le_refl _
  | cons block blocks ih =>
    have hblock := (h block List.mem_cons_self).used
    have hrest := ih fun other hmem => h other (List.mem_cons_of_mem _ hmem)
    rw [blocksUsed_cons, blocksCapacity_cons]
    omega

theorem blocksAllocations_le {blocks : List ArenaBlock} (h : ∀ block ∈ blocks, BlockOk block) :
    blocksAllocations blocks ≤ blocksUsed blocks := by
  induction blocks with
  | nil => exact le_refl _
  | cons block blocks ih =>
    have hblock := (h block List.mem_cons_self).counted
    have hrest := ih fun other hmem => h other (List.mem_cons_of_mem _ hmem)
    rw [blocksAllocations_cons, blocksUsed_cons]
    omega

structure Shape (arena : Arena) (active spare : List ArenaBlock) : Prop where
  blocks : arena.blocks = active ++ spare
  current : arena.current = active.getLast?.map ArenaBlock.address
  spare_nil : active = [] → spare = []
  spare_empty : ∀ block ∈ spare, block.used = 0 ∧ block.allocationCount = 0
  ok : ∀ block ∈ active ++ spare, BlockOk block
  apart : (active ++ spare).Pairwise Apart
  blockSize : arena.defaultBlockSize ≠ 0
  blockSize_le : arena.defaultBlockSize ≤ SIZE_MAX
  blockCount : arena.blockCount = (active ++ spare).length
  blockCount_le : arena.blockCount ≤ SIZE_MAX
  capacity : arena.capacity = blocksCapacity (active ++ spare)
  capacity_le : arena.capacity ≤ SIZE_MAX
  used : arena.used = blocksUsed (active ++ spare)
  allocationCount : arena.allocationCount = blocksAllocations (active ++ spare)

variable {arena : Arena} {active spare before after : List ArenaBlock} {block : ArenaBlock}
  {malloc : ℕ → Option ℕ}

theorem Shape.allocationCount_le (h : Shape arena active spare) : arena.allocationCount ≤ arena.used := by
  rw [h.allocationCount, h.used]
  exact blocksAllocations_le h.ok

theorem addresses_ne (h : (before ++ block :: after).Pairwise Apart) :
    (∀ other ∈ before, other.address ≠ block.address) ∧
      ∀ other ∈ after, other.address ≠ block.address := by
  rw [List.pairwise_append, List.pairwise_cons] at h
  obtain ⟨-, ⟨hafter, -⟩, hbetween⟩ := h
  constructor
  · intro other hmem
    exact (hbetween other hmem block List.mem_cons_self).address_ne
  · intro other hmem
    exact (hafter other hmem).symm.address_ne

theorem Shape.current_block (h : Shape arena (before ++ [block]) spare) :
    arena.current = some block.address ∧
      at? ArenaBlock.address block.address arena.blocks = some block ∧
      next? ArenaBlock.address block.address arena.blocks = spare.head? := by
  have hapart := h.apart
  rw [List.append_assoc, List.singleton_append] at hapart
  obtain ⟨hbefore, -⟩ := addresses_ne hapart
  have hblocks := h.blocks
  rw [List.append_assoc, List.singleton_append] at hblocks
  refine ⟨?_, ?_, ?_⟩
  · rw [h.current]
    simp
  · rw [hblocks]
    exact at?_middle hbefore
  · rw [hblocks]
    exact next?_middle hbefore

theorem arenaBlockCreate_spec (malloc : ℕ → Option ℕ) (arena : Arena) (capacity : ℕ) :
    ∃ result, arenaBlockCreate malloc arena capacity = .ok result ∧
      ∀ block, result = some block → block.used = 0 ∧ block.allocationCount = 0 ∧
        block.capacity = capacity ∧ ARENA_BLOCK_SIZE + capacity ≤ SIZE_MAX ∧
        malloc (ARENA_BLOCK_SIZE + capacity) = some block.address := by
  unfold arenaBlockCreate
  rw [sizeSub_ok (by decide), sized_bind]
  by_cases hlimit : SIZE_MAX - ARENA_BLOCK_SIZE < capacity
  · rw [if_pos hlimit]
    exact ⟨_, rfl, by simp⟩
  have hsize : ARENA_BLOCK_SIZE + capacity ≤ SIZE_MAX := by
    have : ARENA_BLOCK_SIZE ≤ SIZE_MAX := by decide
    omega
  rw [if_neg hlimit, sizeAdd_ok hsize, sized_bind]
  cases hmalloc : malloc (ARENA_BLOCK_SIZE + capacity) with
  | none => exact ⟨_, rfl, by simp⟩
  | some address =>
    obtain ⟨oversized, hoversized⟩ := arenaCapacityIsOversized_spec arena capacity
    dsimp only
    rw [hoversized, sized_bind]
    refine ⟨_, rfl, ?_⟩
    intro block hsome
    cases hsome
    exact ⟨rfl, rfl, rfl, hsize, rfl⟩

/-- A block that is added is empty and holds the size, whatever its alignment. -/
theorem arenaAddBlock_spec (h : Shape arena active spare) (size : ℕ) :
    ∃ ok result, arenaAddBlock malloc arena size = .ok (ok, result) ∧ (ok = false → result = arena) ∧
      (ok = true → ∃ block, block.used = 0 ∧ block.allocationCount = 0 ∧
        size + (MAX_ALIGN - 1) ≤ block.capacity ∧ ARENA_BLOCK_SIZE + block.capacity ≤ SIZE_MAX ∧
        malloc (ARENA_BLOCK_SIZE + block.capacity) = some block.address ∧
        arena.blockCount + 1 ≤ SIZE_MAX ∧ arena.capacity + block.capacity ≤ SIZE_MAX ∧
        result = { arena with
          blocks := arenaInsertBlock arena block
          current := some block.address
          blockCount := arena.blockCount + 1
          capacity := arena.capacity + block.capacity }) := by
  obtain ⟨required, hrequired, hcapacity⟩ := arenaRequiredCapacity_spec size
  unfold arenaAddBlock
  rw [hrequired, sized_bind]
  cases required with
  | none => exact ⟨_, _, rfl, fun _ => rfl, by simp⟩
  | some required =>
    obtain ⟨hsize, hrequired⟩ := hcapacity required rfl
    dsimp only
    generalize hlarger : (if arena.defaultBlockSize < required then required
      else arena.defaultBlockSize) = capacity
    have hbounds : required ≤ capacity ∧ capacity ≤ SIZE_MAX := by
      have := h.blockSize_le
      rw [← hlarger]
      split_ifs <;> omega
    have hcount := h.blockCount_le
    by_cases hfull : arena.blockCount = SIZE_MAX
    · rw [if_pos hfull]
      exact ⟨_, _, rfl, fun _ => rfl, by simp⟩
    rw [if_neg hfull, sizeSub_ok hbounds.2, sized_bind]
    by_cases hlimit : SIZE_MAX - capacity < arena.capacity
    · rw [if_pos hlimit]
      exact ⟨_, _, rfl, fun _ => rfl, by simp⟩
    rw [if_neg hlimit]
    obtain ⟨created, hcreated, hblock⟩ := arenaBlockCreate_spec malloc arena capacity
    rw [hcreated, sized_bind]
    cases created with
    | none => exact ⟨_, _, rfl, fun _ => rfl, by simp⟩
    | some block =>
      obtain ⟨hused, hallocations, rfl, hfits, hmalloc⟩ := hblock block rfl
      dsimp only
      rw [sizeAdd_ok (by omega), sized_bind, sizeAdd_ok (by omega), sized_bind]
      refine ⟨_, _, rfl, by simp, fun _ => ⟨block, hused, hallocations, by omega, hfits, hmalloc,
        by omega, by omega, rfl⟩⟩

/-- What selecting a block leaves: the active blocks, or one more, which is empty. -/
structure Selected (arena selected : Arena) (active active' spare' : List ArenaBlock) (size : ℕ) :
    Prop where
  shape : Shape selected active' spare'
  self : selected.self = arena.self
  generation : selected.generation = arena.generation
  active : active' = active ∨ ∃ block, active' = active ++ [block] ∧ block.used = 0
  room : ∃ before block aligned, active' = before ++ [block] ∧
    arenaAlignUp block.used = .ok (some aligned) ∧ aligned + size ≤ block.capacity

theorem Shape.insert (h : Shape arena active spare) (block : ArenaBlock) :
    arenaInsertBlock arena block = active ++ block :: spare := by
  unfold arenaInsertBlock
  rcases List.eq_nil_or_concat' active with rfl | ⟨before, last, rfl⟩
  · rw [h.current, h.spare_nil rfl]
    rfl
  · have hapart := h.apart
    rw [List.append_assoc, List.singleton_append] at hapart
    rw [h.current_block.1, h.blocks]
    dsimp only
    rw [List.append_assoc, List.singleton_append, insertAfter_middle (addresses_ne hapart).1,
      List.append_assoc, List.singleton_append]

theorem Shape.add (h : Shape arena active spare) (hmalloc : MallocAnswers malloc arena)
    (hused : block.used = 0) (hallocations : block.allocationCount = 0)
    (hfits : ARENA_BLOCK_SIZE + block.capacity ≤ SIZE_MAX)
    (haddress : malloc (ARENA_BLOCK_SIZE + block.capacity) = some block.address)
    (hcount : arena.blockCount + 1 ≤ SIZE_MAX) (hcapacity : arena.capacity + block.capacity ≤ SIZE_MAX) :
    Shape { arena with
      blocks := arenaInsertBlock arena block
      current := some block.address
      blockCount := arena.blockCount + 1
      capacity := arena.capacity + block.capacity } (active ++ [block]) spare := by
  obtain ⟨haligned, hfree⟩ := hmalloc _ _ haddress
  rw [h.blocks] at hfree
  have hperm : (active ++ [block] ++ spare).Perm (block :: (active ++ spare)) := by
    rw [List.append_assoc, List.singleton_append]
    exact List.perm_middle
  have hnew : BlockOk block := ⟨by omega, hfits, haligned, by omega⟩
  refine ⟨?_, by simp, by simp, h.spare_empty, ?_, ?_, h.blockSize, h.blockSize_le, ?_, hcount, ?_,
    hcapacity, ?_, ?_⟩
  · rw [h.insert]
    simp
  · intro other hmem
    rcases List.mem_cons.mp (hperm.mem_iff.mp hmem) with rfl | hold
    · exact hnew
    · exact h.ok other hold
  · rw [hperm.pairwise_iff fun hapart => hapart.symm, List.pairwise_cons]
    refine ⟨?_, h.apart⟩
    intro other hmem
    rcases hfree other hmem with hbefore | hafter
    · exact .inl (by omega)
    · exact .inr hafter
  · rw [h.blockCount, hperm.length_eq, List.length_cons]
  · rw [h.capacity]
    simp only [blocksCapacity_append, blocksCapacity_cons, blocksCapacity_nil]
    omega
  · rw [h.used]
    simp only [blocksUsed_append, blocksUsed_cons, blocksUsed_nil]
    omega
  · rw [h.allocationCount]
    simp only [blocksAllocations_append, blocksAllocations_cons, blocksAllocations_nil]
    omega

theorem arenaAddBlock_selected (h : Shape arena active spare) (hmalloc : MallocAnswers malloc arena)
    (size : ℕ) :
    ∃ ok result, arenaAddBlock malloc arena size = .ok (ok, result) ∧ (ok = false → result = arena) ∧
      (ok = true → ∃ active' spare', Selected arena result active active' spare' size) := by
  obtain ⟨ok, result, hresult, hfailed, hadded⟩ := @arenaAddBlock_spec _ _ _ malloc h size
  refine ⟨ok, result, hresult, hfailed, ?_⟩
  intro hok
  obtain ⟨block, hused, hallocations, hroom, hfits, haddress, hcount, hcapacity, rfl⟩ := hadded hok
  refine ⟨active ++ [block], spare, h.add hmalloc hused hallocations hfits haddress hcount hcapacity,
    rfl, rfl, .inr ⟨block, rfl, hused⟩, active, block, 0, rfl, ?_, by omega⟩
  obtain ⟨aligned, haligned, -, hzero⟩ := arenaAlignUp_spec block.used
  rw [haligned, hzero hused]

/-- Selecting a block fails without a trace, or makes a block current that has room. -/
theorem arenaSelectBlock_spec (h : Shape arena active spare) (hmalloc : MallocAnswers malloc arena)
    (size : ℕ) :
    ∃ ok result, arenaSelectBlock malloc arena size = .ok (ok, result) ∧
      (ok = false → result = arena) ∧
      (ok = true → ∃ active' spare', Selected arena result active active' spare' size) := by
  have hadd := arenaAddBlock_selected h hmalloc size
  unfold arenaSelectBlock
  rcases List.eq_nil_or_concat' active with rfl | ⟨before, block, rfl⟩
  · rw [h.current]
    exact hadd
  obtain ⟨hcurrent, hblock, hnext⟩ := h.current_block
  rw [hcurrent]
  dsimp only
  rw [hblock, hnext]
  dsimp only
  obtain ⟨ok, hok, hroom⟩ := arenaBlockCanAllocate_spec block size
  rw [hok, sized_bind]
  cases ok with
  | true =>
    obtain ⟨aligned, haligned, hsize⟩ := hroom rfl
    exact ⟨true, arena, rfl, fun _ => rfl, fun _ => ⟨_, spare, h, rfl, rfl, .inl rfl, before, block, aligned,
      rfl, haligned, hsize⟩⟩
  | false =>
    rw [if_neg (by simp)]
    cases spare with
    | nil => exact hadd
    | cons next spare =>
      rw [List.head?_cons]
      dsimp only
      obtain ⟨ok, hok, hroom⟩ := arenaBlockCanAllocate_spec next size
      rw [hok, sized_bind]
      cases ok with
      | false => exact hadd
      | true =>
        obtain ⟨aligned, haligned, hsize⟩ := hroom rfl
        have hsame : before ++ [block] ++ next :: spare = before ++ [block] ++ [next] ++ spare := by simp
        refine ⟨true, _, rfl, by simp, fun _ => ⟨before ++ [block] ++ [next], spare, ?_, rfl, rfl,
          .inr ⟨next, rfl, (h.spare_empty next List.mem_cons_self).1⟩, _, next, aligned, rfl, haligned,
          hsize⟩⟩
        exact ⟨hsame ▸ h.blocks, by simp, by simp,
          fun other hmem => h.spare_empty other (List.mem_cons_of_mem _ hmem), hsame ▸ h.ok,
          hsame ▸ h.apart, h.blockSize, h.blockSize_le, hsame ▸ h.blockCount, h.blockCount_le,
          hsame ▸ h.capacity, h.capacity_le, hsame ▸ h.used, hsame ▸ h.allocationCount⟩

def bumped (block : ArenaBlock) (aligned size : ℕ) : ArenaBlock :=
  { block with used := aligned + size, allocationCount := block.allocationCount + 1 }

theorem arenaBump_spec (h : Shape arena (before ++ [block]) spare) {aligned size : ℕ}
    (hsize : size ≠ 0) (haligned : arenaAlignUp block.used = .ok (some aligned))
    (hroom : aligned + size ≤ block.capacity) :
    ∃ result, arenaBump arena size = .ok (some (block.address + ARENA_BLOCK_SIZE + aligned), result) ∧
      Shape result (before ++ [bumped block aligned size]) spare ∧
      result.self = arena.self ∧ result.generation = arena.generation := by
  obtain ⟨hcurrent, hblock, -⟩ := h.current_block
  obtain ⟨found, hfound, hspec, -⟩ := arenaAlignUp_spec block.used
  obtain rfl := Except.ok.inj (haligned.symm.trans hfound)
  have hused := (hspec aligned rfl).2
  have hmem : block ∈ before ++ [block] ++ spare := by simp
  have hok := h.ok block hmem
  have hfits := hok.fits
  have hcounted := hok.counted
  have htotal : arena.used + (aligned + size - block.used) ≤ arena.capacity := by
    have hbefore := blocksUsed_le fun other hmem => h.ok other (List.mem_append_left _ (List.mem_append_left _ hmem))
    have hspare := blocksUsed_le fun other hmem => h.ok other (List.mem_append_right (before ++ [block]) hmem)
    rw [h.used, h.capacity]
    simp only [blocksUsed_append, blocksUsed_cons, blocksUsed_nil, blocksCapacity_append,
      blocksCapacity_cons, blocksCapacity_nil]
    omega
  have hcapacity := h.capacity_le
  have hallocations := h.allocationCount_le
  have hblocks := h.blocks
  have hapart := h.apart
  rw [List.append_assoc, List.singleton_append] at hblocks hapart
  obtain ⟨hbefore, hafter⟩ := addresses_ne hapart
  unfold arenaBump
  rw [hcurrent, Option.bind_some, hblock]
  dsimp only
  rw [haligned, sized_bind]
  dsimp only
  rw [sizeSub_ok (by omega), sized_bind, if_neg (by omega), sizeAdd_ok (by omega), sized_bind,
    sizeAdd_ok (by omega), sized_bind, sizeSub_ok (by omega), sized_bind, sizeAdd_ok (by omega),
    sized_bind, sizeAdd_ok (by omega), sized_bind]
  refine ⟨_, rfl, ?_, rfl, rfl⟩
  refine ⟨?_, ?_, by simp, h.spare_empty, ?_, ?_, h.blockSize, h.blockSize_le, ?_, h.blockCount_le, ?_,
    h.capacity_le, ?_, ?_⟩
  · dsimp only
    rw [hblocks, modify_middle hbefore hafter]
    simp [bumped]
  · simp [bumped]
  · intro other hother
    rcases List.mem_append.mp hother with hactive | hspare
    · rcases List.mem_append.mp hactive with hold | hnew
      · exact h.ok other (by simp [hold])
      · rw [List.mem_singleton.mp hnew]
        exact ⟨hroom, hok.fits, hok.aligned, by dsimp only [bumped]; omega⟩
    · exact h.ok other (by simp [hspare])
  · have hpairs := h.apart
    simp only [List.append_assoc, List.singleton_append, List.pairwise_append, List.pairwise_cons,
      List.mem_cons] at hpairs ⊢
    obtain ⟨hfront, ⟨hback, hrest⟩, hbetween⟩ := hpairs
    refine ⟨hfront, ⟨hback, hrest⟩, ?_⟩
    intro other hother third hthird
    rcases hthird with rfl | hspare
    · exact hbetween other hother block (.inl rfl)
    · exact hbetween other hother third (.inr hspare)
  · rw [h.blockCount]
    simp
  · rw [h.capacity]
    simp [bumped]
  · dsimp only
    rw [h.used]
    simp only [blocksUsed_append, blocksUsed_cons, blocksUsed_nil, bumped]
    omega
  · dsimp only
    rw [h.allocationCount]
    simp only [blocksAllocations_append, blocksAllocations_cons, blocksAllocations_nil, bumped]
    omega

/-- Memory in the used part of a block. -/
def Placed (blocks : List ArenaBlock) (allocation : Allocation) : Prop :=
  allocation.address % MAX_ALIGN = 0 ∧ ∃ block ∈ blocks,
    block.address + ARENA_BLOCK_SIZE ≤ allocation.address ∧
      allocation.address + allocation.size ≤ block.address + ARENA_BLOCK_SIZE + block.used

def Disjoint (first second : Allocation) : Prop :=
  first.address + first.size ≤ second.address ∨ second.address + second.size ≤ first.address

theorem Placed.extends {shorter longer : List ArenaBlock} {allocation : Allocation}
    (h : Placed shorter allocation) (hextends : Extends Grows shorter longer) : Placed longer allocation := by
  obtain ⟨haligned, block, hmem, hlow, hhigh⟩ := h
  refine ⟨haligned, ?_⟩
  induction hextends with
  | nil => cases hmem
  | @top node grown hgrows rest =>
    obtain rfl := List.mem_singleton.mp hmem
    have haddress := hgrows.address
    have hused := hgrows.used
    exact ⟨grown, List.mem_cons_self, by omega, by omega⟩
  | cons node _ ih =>
    rcases List.mem_cons.mp hmem with rfl | hrest
    · exact ⟨block, List.mem_cons_self, hlow, hhigh⟩
    · obtain ⟨other, hother, hplaced⟩ := ih hrest
      exact ⟨other, List.mem_cons_of_mem _ hother, hplaced⟩

/-- Memory above the used part of the last block is apart from all that is placed. -/
theorem Placed.disjoint_new (h : Shape arena (before ++ [block]) spare) {allocation : Allocation}
    (hplaced : Placed (before ++ [block]) allocation) {aligned size : ℕ} (haligned : block.used ≤ aligned)
    (hroom : aligned + size ≤ block.capacity) :
    Disjoint ⟨block.address + ARENA_BLOCK_SIZE + aligned, size⟩ allocation := by
  obtain ⟨-, other, hmem, hlow, hhigh⟩ := hplaced
  rcases List.mem_append.mp hmem with hbefore | hlast
  · have hother := h.ok other (by simp [hbefore])
    have hused := hother.used
    have hapart : Apart other block := by
      have hpairs := h.apart
      rw [List.append_assoc, List.singleton_append, List.pairwise_append] at hpairs
      exact hpairs.2.2 other hbefore block List.mem_cons_self
    rcases hapart with hbelow | habove
    · right
      dsimp only
      omega
    · left
      dsimp only
      omega
  · obtain rfl := List.mem_singleton.mp hlast
    right
    dsimp only
    omega

/-- Memory that is handed out is aligned, in the used part of its block, and apart from
    what was placed before; otherwise nothing has changed. -/
theorem arenaAlloc_spec (h : Shape arena active spare) (hmalloc : MallocAnswers malloc arena) (size : ℕ) :
    ∃ answer result, arenaAlloc malloc arena size = .ok (answer, result) ∧
      (answer = none → result = arena) ∧
      ∀ address, answer = some address → ∃ active' spare', Shape result active' spare' ∧
        Extends Grows active active' ∧ Placed active' ⟨address, size⟩ ∧
        (∀ allocation, Placed active allocation → Disjoint ⟨address, size⟩ allocation) ∧
        result.self = arena.self ∧ result.generation = arena.generation := by
  unfold arenaAlloc
  by_cases hzero : size = 0
  · rw [if_pos (by simp [hzero])]
    exact ⟨none, arena, rfl, fun _ => rfl, by simp⟩
  rw [if_neg (by simp [hzero, h.blockSize])]
  obtain ⟨ok, selected, hselect, hfailed, hfound⟩ := arenaSelectBlock_spec h hmalloc size
  rw [hselect, sized_bind]
  cases ok with
  | false =>
    obtain rfl := hfailed rfl
    exact ⟨none, selected, rfl, fun _ => rfl, by simp⟩
  | true =>
    obtain ⟨active', spare', hselected⟩ := hfound rfl
    obtain ⟨before, block, aligned, rfl, haligned, hroom⟩ := hselected.room
    obtain ⟨result, hbump, hshape, hself, hgeneration⟩ :=
      arenaBump_spec hselected.shape hzero haligned hroom
    dsimp only
    rw [Bool.not_true, if_neg (by simp), hbump]
    refine ⟨_, result, rfl, by simp, ?_⟩
    intro address haddress
    cases haddress
    obtain ⟨found, hfound, hspec, -⟩ := arenaAlignUp_spec block.used
    obtain rfl := Except.ok.inj (haligned.symm.trans hfound)
    obtain ⟨hmultiple, hused⟩ := hspec aligned rfl
    have hok := hselected.shape.ok block (by simp)
    have hbase := hok.aligned
    have hgrows : Grows block (bumped block aligned size) :=
      ⟨rfl, rfl, rfl, by dsimp only [bumped]; omega, by dsimp only [bumped]; omega⟩
    have hextends : Extends Grows active (before ++ [block]) := by
      rcases hselected.active with hsame | ⟨added, hsame, -⟩
      · rw [hsame]
        exact .refl active
      · rw [hsame]
        exact .append active [added]
    refine ⟨before ++ [bumped block aligned size], spare', hshape, hextends.trans Grows.trans (.grow hgrows),
      ?_, ?_, hself.trans hselected.self, hgeneration.trans hselected.generation⟩
    · refine ⟨?_, bumped block aligned size, by simp, ?_, ?_⟩
      · dsimp only
        unfold MAX_ALIGN ARENA_BLOCK_SIZE at *
        omega
      · dsimp only [bumped]
        omega
      · dsimp only [bumped]
        omega
    · intro allocation hplaced
      exact (hplaced.extends hextends).disjoint_new hselected.shape hused hroom

theorem arenaAllocArray_eq (count elementSize : ℕ) :
    arenaAllocArray malloc arena count elementSize =
      if SIZE_MAX < count * elementSize then .ok (none, arena)
      else arenaAlloc malloc arena (count * elementSize) := by
  unfold arenaAllocArray
  by_cases hzero : count = 0
  · subst hzero
    rw [if_neg (by simp), if_neg (by simp), sizeMul_ok (by simp)]
    rfl
  · have hpositive : 0 < count := Nat.pos_of_ne_zero hzero
    have hoverflow : SIZE_MAX / count < elementSize ↔ SIZE_MAX < count * elementSize := by
      rw [Nat.div_lt_iff_lt_mul hpositive, Nat.mul_comm]
    by_cases hlarge : SIZE_MAX < count * elementSize
    · rw [if_pos (by simp [hzero, hoverflow, hlarge]), if_pos hlarge]
      rfl
    · rw [if_neg (by simp [hzero, hoverflow, hlarge]), if_neg hlarge, sizeMul_ok (by omega)]
      rfl

structure MarkOf (arena : Arena) (snapshot : List ArenaBlock) (mark : ArenaMark) : Prop where
  owner : mark.arena = some arena.self
  generation : mark.generation = arena.generation
  block : mark.block = snapshot.getLast?.map ArenaBlock.address
  used : mark.used = (snapshot.getLast?.map ArenaBlock.used).getD 0
  allocationCount : mark.allocationCount = (snapshot.getLast?.map ArenaBlock.allocationCount).getD 0
  totalUsed : mark.totalUsed = blocksUsed snapshot
  totalAllocations : mark.totalAllocations = blocksAllocations snapshot

theorem blocks_spare (h : ∀ block ∈ spare, block.used = 0 ∧ block.allocationCount = 0) :
    blocksUsed spare = 0 ∧ blocksAllocations spare = 0 := by
  induction spare with
  | nil => exact ⟨rfl, rfl⟩
  | cons block spare ih =>
    obtain ⟨hused, hallocations⟩ := h block List.mem_cons_self
    obtain ⟨ihused, ihallocations⟩ := ih fun other hmem => h other (List.mem_cons_of_mem _ hmem)
    simp [hused, hallocations, ihused, ihallocations]

theorem arenaMark_spec (h : Shape arena active spare) : MarkOf arena active (arenaMark arena) := by
  obtain ⟨hused, hallocations⟩ := blocks_spare h.spare_empty
  have htotal := h.used
  have hcount := h.allocationCount
  rw [blocksUsed_append, hused, Nat.add_zero] at htotal
  rw [blocksAllocations_append, hallocations, Nat.add_zero] at hcount
  unfold arenaMark
  rw [if_neg h.blockSize]
  rcases List.eq_nil_or_concat' active with rfl | ⟨before, block, rfl⟩
  · have hcurrent : arena.current = none := h.current
    refine ⟨rfl, rfl, h.current, ?_, ?_, htotal, hcount⟩ <;> simp [hcurrent]
  · obtain ⟨hcurrent, hblock, -⟩ := h.current_block
    refine ⟨rfl, rfl, h.current, ?_, ?_, htotal, hcount⟩ <;> simp [hcurrent, hblock]

theorem arenaRecount_spec (blocks : List ArenaBlock) (blockCount capacity : ℕ)
    (hcount : blockCount + blocks.length ≤ SIZE_MAX)
    (hcapacity : capacity + blocksCapacity blocks ≤ SIZE_MAX) :
    arenaRecount blocks blockCount capacity =
      .ok (blockCount + blocks.length, capacity + blocksCapacity blocks) := by
  induction blocks generalizing blockCount capacity with
  | nil => rfl
  | cons block blocks ih =>
    rw [List.length_cons] at hcount
    rw [blocksCapacity_cons] at hcapacity
    rw [arenaRecount, sizeAdd_ok (by omega), sized_bind, sizeAdd_ok (by omega), sized_bind,
      ih _ _ (by omega) (by omega), List.length_cons, blocksCapacity_cons]
    congr 2 <;> omega

/-- Restoring a mark brings back the active blocks, and drops the others. -/
theorem arenaRestore_spec {snapshot : List ArenaBlock} {mark : ArenaMark} (h : Shape arena active spare)
    (hextends : Extends Grows snapshot active) (hmark : MarkOf arena snapshot mark)
    (hok : ∀ block ∈ snapshot, BlockOk block) :
    ∃ result, arenaRestore arena mark = .ok (true, result) ∧ Shape result snapshot [] ∧
      result.self = arena.self ∧ result.generation = arena.generation := by
  unfold arenaRestore
  rw [if_neg (by simp [hmark.owner, hmark.generation]), hmark.block]
  rcases List.eq_nil_or_concat' snapshot with rfl | ⟨before, block, rfl⟩
  · have hused := hmark.totalUsed
    have hallocations := hmark.totalAllocations
    rw [blocksUsed_nil] at hused
    rw [blocksAllocations_nil] at hallocations
    dsimp only [List.getLast?_nil, Option.map_none]
    rw [if_neg (by simp [hused, hallocations])]
    refine ⟨_, rfl, ?_, rfl, rfl⟩
    exact ⟨rfl, rfl, fun _ => rfl, by simp, by simp, by simp, h.blockSize, h.blockSize_le, rfl,
      Nat.zero_le _, rfl, Nat.zero_le _, rfl, rfl⟩
  · obtain ⟨grown, rest, rfl, hgrows⟩ := hextends.concat Grows.refl
    have hsame : before ++ grown :: rest ++ spare = before ++ grown :: (rest ++ spare) := by simp
    have hapart := h.apart
    rw [hsame] at hapart
    obtain ⟨hbefore, -⟩ := addresses_ne hapart
    have haddress := hgrows.address
    have hused := hgrows.used
    have hallocations := hgrows.allocationCount
    have hmarkUsed : mark.used = block.used := by simpa using hmark.used
    have hmarkCount : mark.allocationCount = block.allocationCount := by simpa using hmark.allocationCount
    have hblocks : modify ArenaBlock.address grown.address
        (fun block => { block with used := mark.used, allocationCount := mark.allocationCount })
        (upTo ArenaBlock.address grown.address arena.blocks) = before ++ [block] := by
      rw [h.blocks, hsame, upTo_middle hbefore, modify_middle hbefore (by simp), hmarkUsed, hmarkCount,
        ← hgrows.address, ← hgrows.capacity, ← hgrows.oversized]
    have hcount := h.blockCount_le
    have hcapacity := h.capacity_le
    have hgrown := hgrows.capacity
    rw [h.blockCount, hsame] at hcount
    rw [h.capacity, hsame] at hcapacity
    simp only [List.length_append, List.length_cons, blocksCapacity_append, blocksCapacity_cons] at hcount hcapacity
    have hrecount := arenaRecount_spec (before ++ [block]) 0 0
      (by rw [List.length_append, List.length_singleton]; omega)
      (by rw [blocksCapacity_append, blocksCapacity_cons, blocksCapacity_nil]; omega)
    have hfound : at? ArenaBlock.address grown.address arena.blocks = some grown := by
      rw [h.blocks, hsame]
      exact at?_middle hbefore
    rw [List.getLast?_append, List.getLast?_singleton, Option.some_or, Option.map_some, haddress]
    dsimp only
    rw [hfound]
    dsimp only
    rw [if_neg (by omega), hblocks, hrecount, sized_bind]
    refine ⟨_, rfl, ?_, rfl, rfl⟩
    refine ⟨by simp, by simp [haddress], by simp, by simp, by simpa using hok, ?_, h.blockSize,
      h.blockSize_le, by simp, ?_, by simp, ?_, ?_, ?_⟩
    · rw [List.pairwise_append, List.pairwise_cons] at hapart
      rw [List.append_nil, List.pairwise_append]
      refine ⟨hapart.1, List.pairwise_singleton _ _, ?_⟩
      intro other hother last hlast
      obtain rfl := List.mem_singleton.mp hlast
      have hgrownApart := hapart.2.2 other hother grown List.mem_cons_self
      unfold Apart at hgrownApart ⊢
      omega
    · dsimp only
      rw [List.length_append, List.length_singleton]
      omega
    · dsimp only
      rw [blocksCapacity_append, blocksCapacity_cons, blocksCapacity_nil]
      omega
    · simpa using hmark.totalUsed
    · simpa using hmark.totalAllocations

def emptied (block : ArenaBlock) : ArenaBlock := { block with used := 0, allocationCount := 0 }

def retained (blocks : List ArenaBlock) : List ArenaBlock :=
  (blocks.filter fun block => !block.oversized).map emptied

theorem arenaRetain_spec (blocks : List ArenaBlock) (blockCount capacity : ℕ)
    (hcount : blocks.length ≤ blockCount) (hcapacity : blocksCapacity blocks ≤ capacity) :
    arenaRetain blocks blockCount capacity = .ok (retained blocks,
      blockCount - blocks.length + (retained blocks).length,
      capacity - blocksCapacity blocks + blocksCapacity (retained blocks)) := by
  induction blocks generalizing blockCount capacity with
  | nil => simp [arenaRetain, retained]
  | cons block blocks ih =>
    rw [List.length_cons] at hcount
    rw [blocksCapacity_cons] at hcapacity
    cases hoversized : block.oversized with
    | true =>
      have hretained : retained (block :: blocks) = retained blocks := by
        simp [retained, hoversized]
      rw [arenaRetain, hoversized, if_pos rfl, sizeSub_ok (by omega), sized_bind, sizeSub_ok (by omega),
        sized_bind, ih _ _ (by omega) (by omega), hretained, List.length_cons, blocksCapacity_cons]
      congr 3 <;> omega
    | false =>
      have hretained : retained (block :: blocks) = emptied block :: retained blocks := by
        simp [retained, hoversized]
      rw [arenaRetain, if_neg (by simp [hoversized]), ih _ _ (by omega) (by omega), hretained,
        List.length_cons, blocksCapacity_cons, List.length_cons, blocksCapacity_cons, sized_bind]
      have hkept : (emptied block).capacity = block.capacity := rfl
      rw [hkept]
      change Except.ok (emptied block :: retained blocks, _, _) = _
      congr 3 <;> omega

theorem retained_ok {blocks : List ArenaBlock} (h : ∀ block ∈ blocks, BlockOk block) :
    ∀ block ∈ retained blocks, BlockOk block ∧ block.used = 0 ∧ block.allocationCount = 0 := by
  intro block hmem
  obtain ⟨original, horiginal, rfl⟩ := List.mem_map.mp hmem
  have hok := h original (List.mem_of_mem_filter horiginal)
  exact ⟨⟨Nat.zero_le _, hok.fits, hok.aligned, le_refl _⟩, rfl, rfl⟩

theorem retained_apart {blocks : List ArenaBlock} (h : blocks.Pairwise Apart) :
    (retained blocks).Pairwise Apart := by
  have hfiltered := h.filter fun block => !block.oversized
  apply List.Pairwise.map emptied ?_ hfiltered
  intro first second hapart
  exact hapart

theorem retained_le (blocks : List ArenaBlock) :
    (retained blocks).length ≤ blocks.length ∧ blocksCapacity (retained blocks) ≤ blocksCapacity blocks := by
  induction blocks with
  | nil => exact ⟨le_refl _, le_refl _⟩
  | cons block blocks ih =>
    obtain ⟨hlength, hcapacity⟩ := ih
    cases hoversized : block.oversized with
    | true =>
      have hretained : retained (block :: blocks) = retained blocks := by
        simp [retained, hoversized]
      rw [hretained, List.length_cons, blocksCapacity_cons]
      constructor <;> omega
    | false =>
      have hretained : retained (block :: blocks) = emptied block :: retained blocks := by
        simp [retained, hoversized]
      rw [hretained, List.length_cons, List.length_cons, blocksCapacity_cons, blocksCapacity_cons]
      have hkept : (emptied block).capacity = block.capacity := rfl
      constructor <;> omega

/-- Resetting empties the blocks it retains, and the first of them becomes current. -/
theorem arenaReset_spec (h : Shape arena active spare) :
    ∃ result active' spare', arenaReset arena = .ok result ∧ Shape result active' spare' := by
  have hcount := h.blockCount
  have hcapacity := h.capacity
  rw [← h.blocks] at hcount hcapacity
  have hok := h.ok
  have hapart := h.apart
  rw [← h.blocks] at hok hapart
  have hretained := retained_ok hok
  obtain ⟨hlength, hsum⟩ := retained_le arena.blocks
  have hblockCount := h.blockCount_le
  have htotal := h.capacity_le
  have hsplit : (retained arena.blocks).take 1 ++ (retained arena.blocks).drop 1 = retained arena.blocks :=
    List.take_append_drop 1 _
  obtain ⟨hused, hallocations⟩ := blocks_spare fun block hmem => (hretained block hmem).2
  unfold arenaReset
  rw [if_neg h.blockSize, arenaRetain_spec _ _ _ (by omega) (by omega), sized_bind]
  refine ⟨_, (retained arena.blocks).take 1, (retained arena.blocks).drop 1, rfl, ?_⟩
  refine ⟨hsplit.symm, ?_, ?_, ?_, ?_, ?_, h.blockSize, h.blockSize_le, ?_, ?_, ?_, ?_, ?_, ?_⟩
  · dsimp only
    cases retained arena.blocks with
    | nil => rfl
    | cons => rfl
  · intro hempty
    rw [List.take_eq_nil_iff] at hempty
    rcases hempty with himpossible | hempty
    · cases himpossible
    · rw [hempty]
      rfl
  · intro block hmem
    exact (hretained block (List.mem_of_mem_drop hmem)).2
  · rw [hsplit]
    exact fun block hmem => (hretained block hmem).1
  · rw [hsplit]
    exact retained_apart hapart
  · rw [hsplit]
    dsimp only
    omega
  · dsimp only
    omega
  · rw [hsplit]
    dsimp only
    omega
  · dsimp only
    omega
  · rw [hsplit]
    exact hused.symm
  · rw [hsplit]
    exact hallocations.symm

end Ceasy.Arenas
