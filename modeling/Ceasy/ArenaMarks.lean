import Ceasy.ArenaRuns

set_option autoImplicit false

/-!
# What a mark is compared with

The chain of an arena is counted, whatever marks were restored. `arena_restore` accepts the marks
that coincide with it.
-/
namespace Ceasy.Arenas
open StringView Chain

/-- What `arena_restore` compares. -/
structure Coincides (arena : Arena) (mark : ArenaMark) : Prop where
  owner : mark.arena = some arena.self
  generation : mark.generation = arena.generation
  empty : mark.block = none → mark.totalUsed = 0 ∧ mark.totalAllocations = 0
  block : ∀ target, mark.block = some target → ∃ block,
    at? ArenaBlock.address target arena.blocks = some block ∧
      mark.used ≤ block.used ∧ mark.allocationCount ≤ block.allocationCount

structure Counted (arena : Arena) : Prop where
  current : ∀ address, arena.current = some address → ∃ block ∈ arena.blocks, block.address = address
  noCurrent : arena.current = none → arena.blocks = []
  blockCount : arena.blockCount = arena.blocks.length
  capacity : arena.capacity = blocksCapacity arena.blocks
  blockCount_le : arena.blockCount ≤ SIZE_MAX
  capacity_le : arena.capacity ≤ SIZE_MAX

/-- The arena is the same, in its lifetime and between its resets. -/
structure SameLife (arena result : Arena) : Prop where
  self : result.self = arena.self
  defaultBlockSize : result.defaultBlockSize = arena.defaultBlockSize
  generation : result.generation = arena.generation

theorem SameLife.refl (arena : Arena) : SameLife arena arena := ⟨rfl, rfl, rfl⟩

section Chain

variable {arena result : Arena} {blocks : List ArenaBlock} {malloc : ℕ → Option ℕ} {size : ℕ} {ok : Bool}

theorem sized_bind_inv {α β : Type} {x : Sized α} {f : α → Sized β} {b : β} (h : (x >>= f) = .ok b) :
    ∃ a, x = .ok a ∧ f a = .ok b := by
  cases x with
  | error error => cases h
  | ok a => exact ⟨a, rfl, h⟩

theorem sized_pure_inv {α : Type} {a b : α} (h : (pure a : Sized α) = .ok b) : a = b := by
  cases h
  rfl

theorem sizeAdd_inv {a b c : ℕ} (h : sizeAdd a b = .ok c) : a + b ≤ SIZE_MAX ∧ c = a + b := by
  unfold sizeAdd at h
  by_cases hle : a + b ≤ SIZE_MAX
  · rw [if_pos hle] at h
    exact ⟨hle, (Except.ok.inj h).symm⟩
  · rw [if_neg hle] at h
    cases h

theorem at?_inv {pointer : ℕ} {block : ArenaBlock} (h : at? ArenaBlock.address pointer blocks = some block) :
    block ∈ blocks ∧ block.address = pointer := by
  unfold at? at h
  exact ⟨List.mem_of_find?_eq_some h, by simpa using List.find?_some h⟩

theorem next?_inv {pointer : ℕ} {block : ArenaBlock}
    (h : next? ArenaBlock.address pointer blocks = some block) : block ∈ blocks := by
  induction blocks with
  | nil => cases h
  | cons first blocks ih =>
    rw [next?] at h
    split_ifs at h with hfirst
    · exact List.mem_cons_of_mem _ (List.mem_of_head? h)
    · exact List.mem_cons_of_mem _ (ih h)

theorem insertAfter_counts {pointer : ℕ} (new : ArenaBlock)
    (h : ∃ block ∈ blocks, block.address = pointer) :
    (insertAfter ArenaBlock.address pointer new blocks).length = blocks.length + 1 ∧
      blocksCapacity (insertAfter ArenaBlock.address pointer new blocks) =
        blocksCapacity blocks + new.capacity ∧
      new ∈ insertAfter ArenaBlock.address pointer new blocks := by
  induction blocks with
  | nil =>
    obtain ⟨block, hmem, -⟩ := h
    cases hmem
  | cons first blocks ih =>
    rw [insertAfter]
    by_cases hfirst : first.address = pointer
    · rw [if_pos hfirst]
      refine ⟨rfl, ?_, by simp⟩
      rw [blocksCapacity_cons, blocksCapacity_cons, blocksCapacity_cons]
      omega
    · rw [List.exists_mem_cons_iff] at h
      obtain ⟨hlength, hcapacity, hmem⟩ := ih (h.resolve_left hfirst)
      rw [if_neg hfirst]
      refine ⟨?_, ?_, List.mem_cons_of_mem _ hmem⟩
      · rw [List.length_cons, hlength, List.length_cons]
      · rw [blocksCapacity_cons, hcapacity, blocksCapacity_cons, Nat.add_assoc]

/-- Changing what is used of a block keeps the addresses and the capacities. -/
theorem modify_counts {change : ArenaBlock → ArenaBlock}
    (hcapacity : ∀ block, (change block).capacity = block.capacity)
    (haddress : ∀ block, (change block).address = block.address) (pointer : ℕ) (blocks : List ArenaBlock) :
    (Chain.modify ArenaBlock.address pointer change blocks).map ArenaBlock.capacity =
        blocks.map ArenaBlock.capacity ∧
      (Chain.modify ArenaBlock.address pointer change blocks).map ArenaBlock.address =
        blocks.map ArenaBlock.address := by
  unfold Chain.modify
  rw [List.map_map, List.map_map]
  constructor
  all_goals
    refine List.map_congr_left fun block _ => ?_
    rw [Function.comp_apply]
    split_ifs
    · simp only [hcapacity, haddress]
    · rfl

theorem upTo_counts (pointer : ℕ) (blocks : List ArenaBlock) :
    (upTo ArenaBlock.address pointer blocks).length ≤ blocks.length ∧
      blocksCapacity (upTo ArenaBlock.address pointer blocks) ≤ blocksCapacity blocks ∧
      ((∃ block ∈ blocks, block.address = pointer) →
        ∃ block ∈ upTo ArenaBlock.address pointer blocks, block.address = pointer) := by
  induction blocks with
  | nil => exact ⟨Nat.le_refl _, Nat.le_refl _, id⟩
  | cons first blocks ih =>
    obtain ⟨hlength, hcapacity, hmem⟩ := ih
    rw [upTo]
    by_cases hfirst : first.address = pointer
    · rw [if_pos hfirst]
      refine ⟨by simp, ?_, fun _ => ⟨first, List.mem_singleton_self _, hfirst⟩⟩
      rw [blocksCapacity_cons, blocksCapacity_cons, blocksCapacity_nil]
      omega
    · rw [if_neg hfirst]
      refine ⟨?_, ?_, fun h => ?_⟩
      · rw [List.length_cons, List.length_cons]
        omega
      · rw [blocksCapacity_cons, blocksCapacity_cons]
        omega
      · rw [List.exists_mem_cons_iff] at h ⊢
        exact .inr (hmem (h.resolve_left hfirst))

theorem Counted.of_maps (h : Counted arena) (hself : result.current = arena.current)
    (hcount : result.blockCount = arena.blockCount) (htotal : result.capacity = arena.capacity)
    (hcapacity : result.blocks.map ArenaBlock.capacity = arena.blocks.map ArenaBlock.capacity)
    (haddress : result.blocks.map ArenaBlock.address = arena.blocks.map ArenaBlock.address) :
    Counted result := by
  have hlength : result.blocks.length = arena.blocks.length := by
    have := congrArg List.length haddress
    rwa [List.length_map, List.length_map] at this
  refine ⟨?_, ?_, ?_, ?_, ?_, ?_⟩
  · intro address hcurrent
    rw [hself] at hcurrent
    have hmem := List.mem_map.mpr (h.current address hcurrent)
    rw [← haddress] at hmem
    exact List.mem_map.mp hmem
  · intro hnone
    rw [hself] at hnone
    rw [h.noCurrent hnone, List.length_nil, List.length_eq_zero_iff] at hlength
    exact hlength
  · rw [hcount, h.blockCount, hlength]
  · rw [htotal, h.capacity, blocksCapacity, blocksCapacity, hcapacity]
  · rw [hcount]
    exact h.blockCount_le
  · rw [htotal]
    exact h.capacity_le

theorem arenaInsertBlock_counts (h : Counted arena) (block : ArenaBlock) :
    (arenaInsertBlock arena block).length = arena.blocks.length + 1 ∧
      blocksCapacity (arenaInsertBlock arena block) = blocksCapacity arena.blocks + block.capacity ∧
      block ∈ arenaInsertBlock arena block := by
  unfold arenaInsertBlock
  cases hcurrent : arena.current with
  | none =>
    rw [h.noCurrent hcurrent]
    exact ⟨rfl, by simp, List.mem_singleton_self _⟩
  | some current => exact insertAfter_counts block (h.current current hcurrent)

/-- A block that is added comes with its count and its capacity. -/
theorem arenaAddBlock_inv (hadd : arenaAddBlock malloc arena size = .ok (ok, result)) :
    result = arena ∨ ∃ block, arena.blockCount + 1 ≤ SIZE_MAX ∧
      arena.capacity + block.capacity ≤ SIZE_MAX ∧ result = { arena with
        blocks := arenaInsertBlock arena block
        current := some block.address
        blockCount := arena.blockCount + 1
        capacity := arena.capacity + block.capacity } := by
  have hkept {found : Bool} (h : (pure (found, arena) : Sized (Bool × Arena)) = .ok (ok, result)) :
      result = arena := (Prod.ext_iff.mp (sized_pure_inv h)).2.symm
  unfold arenaAddBlock at hadd
  obtain ⟨required, -, hadd⟩ := sized_bind_inv hadd
  cases required with
  | none => exact .inl (hkept hadd)
  | some required =>
    dsimp only at hadd
    generalize (if arena.defaultBlockSize < required then required
      else arena.defaultBlockSize) = capacity at hadd
    by_cases hcount : arena.blockCount = SIZE_MAX
    · rw [if_pos hcount] at hadd
      exact .inl (hkept hadd)
    rw [if_neg hcount] at hadd
    obtain ⟨limit, -, hadd⟩ := sized_bind_inv hadd
    by_cases hlimit : limit < arena.capacity
    · rw [if_pos hlimit] at hadd
      exact .inl (hkept hadd)
    rw [if_neg hlimit] at hadd
    obtain ⟨created, hcreate, hadd⟩ := sized_bind_inv hadd
    cases created with
    | none => exact .inl (hkept hadd)
    | some block =>
      obtain ⟨other, hother, hblock⟩ := arenaBlockCreate_spec malloc arena capacity
      obtain rfl := Except.ok.inj (hcreate.symm.trans hother)
      obtain ⟨-, -, hcapacity, -, -⟩ := hblock block rfl
      dsimp only at hadd
      obtain ⟨blockCount, hblockCount, hadd⟩ := sized_bind_inv hadd
      obtain ⟨total, htotal, hadd⟩ := sized_bind_inv hadd
      obtain ⟨hcountLe, rfl⟩ := sizeAdd_inv hblockCount
      obtain ⟨htotalLe, rfl⟩ := sizeAdd_inv htotal
      have hresult := (Prod.ext_iff.mp (sized_pure_inv hadd)).2.symm
      rw [← hcapacity] at hresult htotalLe
      exact .inr ⟨block, hcountLe, htotalLe, hresult⟩

theorem arenaAddBlock_counted (h : Counted arena)
    (hadd : arenaAddBlock malloc arena size = .ok (ok, result)) : Counted result ∧ SameLife arena result := by
  rcases arenaAddBlock_inv hadd with rfl | ⟨block, hcount, hcapacity, rfl⟩
  · exact ⟨h, .refl _⟩
  · obtain ⟨hlength, htotal, hmem⟩ := arenaInsertBlock_counts h block
    refine ⟨⟨?_, by simp, ?_, ?_, hcount, hcapacity⟩, rfl, rfl, rfl⟩
    · intro address hcurrent
      exact ⟨block, hmem, Option.some.inj hcurrent⟩
    · dsimp only
      rw [hlength, h.blockCount]
    · dsimp only
      rw [htotal, h.capacity]

theorem arenaSelectBlock_counted (h : Counted arena)
    (hselect : arenaSelectBlock malloc arena size = .ok (ok, result)) :
    Counted result ∧ SameLife arena result := by
  unfold arenaSelectBlock at hselect
  cases hcurrent : arena.current with
  | none =>
    rw [hcurrent] at hselect
    exact arenaAddBlock_counted h hselect
  | some current =>
    rw [hcurrent] at hselect
    dsimp only at hselect
    cases hblock : at? ArenaBlock.address current arena.blocks with
    | none =>
      rw [hblock] at hselect
      exact arenaAddBlock_counted h hselect
    | some block =>
      rw [hblock] at hselect
      dsimp only at hselect
      obtain ⟨fits, -, hselect⟩ := sized_bind_inv hselect
      cases fits with
      | true =>
        obtain rfl := (Prod.ext_iff.mp (sized_pure_inv hselect)).2
        exact ⟨h, .refl _⟩
      | false =>
        cases hnext : next? ArenaBlock.address current arena.blocks with
        | none =>
          rw [hnext] at hselect
          exact arenaAddBlock_counted h hselect
        | some next =>
          rw [hnext] at hselect
          dsimp only at hselect
          obtain ⟨fits, -, hselect⟩ := sized_bind_inv hselect
          cases fits with
          | true =>
            obtain rfl := (Prod.ext_iff.mp (sized_pure_inv hselect)).2
            refine ⟨⟨?_, by simp, h.blockCount, h.capacity, h.blockCount_le, h.capacity_le⟩, rfl, rfl, rfl⟩
            intro address haddress
            exact ⟨next, next?_inv hnext, Option.some.inj haddress⟩
          | false => exact arenaAddBlock_counted h hselect

theorem arenaBump_counted (h : Counted arena) {answer : Option ℕ}
    (hbump : arenaBump arena size = .ok (answer, result)) : Counted result ∧ SameLife arena result := by
  have hkept (heq : (pure (none, arena) : Sized (Option ℕ × Arena)) = .ok (answer, result)) :
      Counted result ∧ SameLife arena result := by
    obtain rfl := (Prod.ext_iff.mp (sized_pure_inv heq)).2
    exact ⟨h, .refl _⟩
  unfold arenaBump at hbump
  cases hblock : arena.current.bind fun current => at? ArenaBlock.address current arena.blocks with
  | none =>
    rw [hblock] at hbump
    exact hkept hbump
  | some block =>
    rw [hblock] at hbump
    dsimp only at hbump
    obtain ⟨aligned, -, hbump⟩ := sized_bind_inv hbump
    cases aligned with
    | none => exact hkept hbump
    | some aligned =>
      dsimp only at hbump
      obtain ⟨room, -, hbump⟩ := sized_bind_inv hbump
      by_cases hroom : room < size
      · rw [if_pos hroom] at hbump
        exact hkept hbump
      rw [if_neg hroom] at hbump
      obtain ⟨used, -, hbump⟩ := sized_bind_inv hbump
      obtain ⟨allocationCount, -, hbump⟩ := sized_bind_inv hbump
      obtain ⟨growth, -, hbump⟩ := sized_bind_inv hbump
      obtain ⟨totalUsed, -, hbump⟩ := sized_bind_inv hbump
      obtain ⟨totalAllocations, -, hbump⟩ := sized_bind_inv hbump
      obtain rfl := (Prod.ext_iff.mp (sized_pure_inv hbump)).2
      obtain ⟨hcapacity, haddress⟩ := @modify_counts
        (fun block => { block with used := used, allocationCount := allocationCount })
        (fun _ => rfl) (fun _ => rfl) block.address arena.blocks
      exact ⟨h.of_maps rfl rfl rfl hcapacity haddress, rfl, rfl, rfl⟩

theorem arenaAlloc_counted (h : Counted arena) {answer : Option ℕ}
    (halloc : arenaAlloc malloc arena size = .ok (answer, result)) :
    Counted result ∧ SameLife arena result := by
  have hkept {other : Arena} (hother : Counted other ∧ SameLife arena other)
      (heq : (pure (none, other) : Sized (Option ℕ × Arena)) = .ok (answer, result)) :
      Counted result ∧ SameLife arena result := by
    obtain rfl := (Prod.ext_iff.mp (sized_pure_inv heq)).2
    exact hother
  unfold arenaAlloc at halloc
  cases hguard : arena.defaultBlockSize = 0 || size = 0 with
  | true =>
    rw [hguard, if_pos rfl] at halloc
    exact hkept ⟨h, .refl _⟩ halloc
  | false =>
    rw [hguard, if_neg Bool.false_ne_true] at halloc
    obtain ⟨⟨found, selected⟩, hselect, halloc⟩ := sized_bind_inv halloc
    obtain ⟨hselected, hsame⟩ := arenaSelectBlock_counted h hselect
    dsimp only at halloc
    cases found with
    | false => exact hkept ⟨hselected, hsame⟩ halloc
    | true =>
      obtain ⟨hresult, hlife⟩ := arenaBump_counted hselected halloc
      exact ⟨hresult, hlife.self.trans hsame.self,
        hlife.defaultBlockSize.trans hsame.defaultBlockSize, hlife.generation.trans hsame.generation⟩

theorem arenaAllocArray_counted (h : Counted arena) {count elementSize : ℕ} {answer : Option ℕ}
    (halloc : arenaAllocArray malloc arena count elementSize = .ok (answer, result)) :
    Counted result ∧ SameLife arena result := by
  rw [arenaAllocArray_eq] at halloc
  by_cases hlarge : SIZE_MAX < count * elementSize
  · rw [if_pos hlarge] at halloc
    obtain rfl := (Prod.ext_iff.mp (Except.ok.inj halloc)).2
    exact ⟨h, .refl _⟩
  · rw [if_neg hlarge] at halloc
    exact arenaAlloc_counted h halloc

theorem arenaRestore_coincides (h : Counted arena) (mark : ArenaMark) :
    ∃ ok result, arenaRestore arena mark = .ok (ok, result) ∧ (ok = true ↔ Coincides arena mark) ∧
      (ok = false → result = arena) ∧ Counted result ∧ SameLife arena result := by
  have hrefused (hnot : ¬ Coincides arena mark) :
      ∃ ok result, (pure (false, arena) : Sized (Bool × Arena)) = .ok (ok, result) ∧
        (ok = true ↔ Coincides arena mark) ∧ (ok = false → result = arena) ∧ Counted result ∧
        SameLife arena result :=
    ⟨false, arena, rfl, ⟨fun hfalse => (Bool.false_ne_true hfalse).elim, fun hall => (hnot hall).elim⟩,
      fun _ => rfl, h, .refl _⟩
  unfold arenaRestore
  by_cases howner : mark.arena ≠ some arena.self ∨ mark.generation ≠ arena.generation
  · rw [if_pos howner]
    refine hrefused fun hall => ?_
    rcases howner with hself | hgeneration
    · exact hself hall.owner
    · exact hgeneration hall.generation
  rw [if_neg howner]
  rw [not_or, not_not, not_not] at howner
  obtain ⟨hself, hgeneration⟩ := howner
  cases hblock : mark.block with
  | none =>
    dsimp only
    by_cases htotals : mark.totalUsed ≠ 0 ∨ mark.totalAllocations ≠ 0
    · rw [if_pos htotals]
      refine hrefused fun hall => ?_
      obtain ⟨hused, hallocations⟩ := hall.empty hblock
      exact htotals.elim (· hused) (· hallocations)
    · rw [if_neg htotals]
      rw [not_or, not_not, not_not] at htotals
      refine ⟨true, _, rfl, iff_of_true rfl ⟨hself, hgeneration, fun _ => htotals, ?_⟩, by simp,
        ⟨by simp [arenaResetToEmpty], fun _ => rfl, rfl, rfl, Nat.zero_le _, Nat.zero_le _⟩, rfl, rfl, rfl⟩
      intro target htarget
      rw [hblock] at htarget
      cases htarget
  | some target =>
    dsimp only
    cases hfound : at? ArenaBlock.address target arena.blocks with
    | none =>
      refine hrefused fun hall => ?_
      obtain ⟨block, hsome, -⟩ := hall.block target hblock
      rw [hfound] at hsome
      cases hsome
    | some block =>
      dsimp only
      by_cases hcounts : block.used < mark.used ∨ block.allocationCount < mark.allocationCount
      · rw [if_pos hcounts]
        refine hrefused fun hall => ?_
        obtain ⟨other, hsome, hused, hallocations⟩ := hall.block target hblock
        obtain rfl := Option.some.inj (hfound.symm.trans hsome)
        omega
      rw [if_neg hcounts]
      obtain ⟨hlength, htotal, hkept⟩ := upTo_counts target arena.blocks
      obtain ⟨hcapacity, haddress⟩ := @modify_counts
        (fun block => { block with used := mark.used, allocationCount := mark.allocationCount })
        (fun _ => rfl) (fun _ => rfl) target (upTo ArenaBlock.address target arena.blocks)
      generalize Chain.modify ArenaBlock.address target _ _ = blocks at hcapacity haddress ⊢
      have hblocks : blocks.length = (upTo ArenaBlock.address target arena.blocks).length := by
        have := congrArg List.length haddress
        rwa [List.length_map, List.length_map] at this
      have hsum : blocksCapacity blocks = blocksCapacity (upTo ArenaBlock.address target arena.blocks) := by
        rw [blocksCapacity, hcapacity, blocksCapacity]
      have hcountLe := h.blockCount_le
      have hcapacityLe := h.capacity_le
      rw [h.blockCount] at hcountLe
      rw [h.capacity] at hcapacityLe
      rw [arenaRecount_spec blocks 0 0 (by omega) (by omega), sized_bind]
      refine ⟨true, _, rfl, iff_of_true rfl ⟨hself, hgeneration, ?_, ?_⟩, by simp,
        ⟨?_, by simp, ?_, ?_, ?_, ?_⟩, rfl, rfl, rfl⟩
      · intro hnone
        rw [hblock] at hnone
        cases hnone
      · intro other hother
        obtain rfl := Option.some.inj (hblock.symm.trans hother)
        exact ⟨block, hfound, by omega, by omega⟩
      · intro address hcurrent
        obtain rfl := Option.some.inj hcurrent
        have hmem := List.mem_map.mpr (hkept ⟨block, (at?_inv hfound).1, (at?_inv hfound).2⟩)
        rw [← haddress] at hmem
        exact List.mem_map.mp hmem
      · exact Nat.zero_add _
      · exact Nat.zero_add _
      · dsimp only
        omega
      · dsimp only
        omega

theorem arenaReset_counted (h : Counted arena) (hreset : arenaReset arena = .ok result) :
    Counted result ∧ result.self = arena.self ∧ result.defaultBlockSize = arena.defaultBlockSize ∧
      result.generation =
        if arena.defaultBlockSize = 0 then arena.generation else arenaNextGeneration arena.generation := by
  unfold arenaReset at hreset
  by_cases hdestroyed : arena.defaultBlockSize = 0
  · rw [if_pos hdestroyed] at hreset
    obtain rfl := sized_pure_inv hreset
    exact ⟨h, rfl, rfl, (if_pos hdestroyed).symm⟩
  have hcount := h.blockCount
  have hcapacity := h.capacity
  have hcountLe := h.blockCount_le
  have hcapacityLe := h.capacity_le
  obtain ⟨hretainedCount, hretainedCapacity⟩ := retained_le arena.blocks
  rw [if_neg hdestroyed, arenaRetain_spec _ _ _ hcount.ge hcapacity.ge, sized_bind] at hreset
  obtain rfl := sized_pure_inv hreset
  refine ⟨⟨?_, ?_, ?_, ?_, ?_, ?_⟩, rfl, rfl, (if_neg hdestroyed).symm⟩
  · intro address hcurrent
    obtain ⟨block, hhead, haddress⟩ := Option.map_eq_some_iff.mp hcurrent
    exact ⟨block, List.mem_of_head? hhead, haddress⟩
  · intro hnone
    exact List.head?_eq_none_iff.mp (Option.map_eq_none_iff.mp hnone)
  all_goals
    dsimp only
    omega

end Chain

end Ceasy.Arenas
