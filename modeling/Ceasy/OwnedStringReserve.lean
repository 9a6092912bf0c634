import Ceasy.OwnedStringStorage

set_option autoImplicit false

/-!
# Reserving

`string_reserve` leaves the contents as they are, where they were or in a new block. A view that was
inside the contents is found again at the same offset; a view that was outside stays where it was.
-/
namespace Ceasy.OwnedString
open ByteHeap
open StringView (Bytes SIZE_MAX ch)

variable {answers : Answers UInt8} {heap later last : Memory} {string result : String} {value : View}
  {base address length capacity needed oldSize allocationSize : ℕ} {bytes : Bytes}

/-- What a request of a string leaves: nothing new, or a block that begins with the old bytes. -/
structure Allocated (heap later : Memory) (string : String) (oldSize : ℕ) (block : Block) : Prop where
  live : block ∈ later.blocks
  copied : ∀ old, string.data = some old → later.read block.base oldSize = heap.read old oldSize
  untouched : Untouched heap later string.block (some block)
  refusals : later.refusals = heap.refusals

def Denied (heap later : Memory) (string : String) : Prop :=
  heap.refusals < later.refusals ∨ string.allocator.realloc = false ∧ string.allocator.alloc = false

theorem allocated_fresh (hsize : 0 < allocationSize)
    (h : Granted heap later heap.blocks ⟨base, allocationSize⟩ []) (own : Option Block) :
    Untouched heap later own (some ⟨base, allocationSize⟩) := by
  refine ⟨fun block hmem _ => ⟨?_, ?_, h.same block hmem⟩⟩
  · rw [h.blocks]
    exact List.mem_cons_of_mem _ hmem
  · intro heq
    exact ((h.apart block hmem).ne hsize) (Option.some.inj heq).symm

theorem Storage.reallocated (h : Storage heap string base) {reclaims : Bool} (hsize : 0 < allocationSize)
    {old : Bytes} {new : ℕ} (hgranted : Granted heap later
      (heap.keeping reclaims ⟨base, string.capacity + 1⟩) ⟨new, allocationSize⟩ old) :
    Untouched heap later string.block (some ⟨new, allocationSize⟩) := by
  refine ⟨fun block hmem hne => ?_⟩
  rw [h.string_block] at hne
  have hkept := mem_keeping reclaims hmem fun heq => hne (congrArg some heq)
  refine ⟨?_, ?_, hgranted.same block hkept⟩
  · rw [hgranted.blocks]
    exact List.mem_cons_of_mem _ hkept
  · intro heq
    exact ((hgranted.apart block hkept).ne hsize) (Option.some.inj heq).symm

/-- With only `alloc` and `free`: the old bytes are copied before their block is freed. -/
theorem Storage.moved (h : Storage heap string base) {new : ℕ} (hold : oldSize ≤ string.capacity + 1)
    (hpositive : oldSize ≠ 0) (hnew : oldSize ≤ allocationSize)
    (hgranted : Granted heap later heap.blocks ⟨new, allocationSize⟩ []) :
    ∃ last, (do
        let heap ← (if string.data ≠ none ∧ oldSize ≠ 0 then later.move (some new) string.data oldSize
          else .ok later)
        let heap ← (if string.data ≠ none ∧ string.allocator.free = true then
            heap.release string.allocator.reclaims string.data
          else .ok heap)
        return (some new, heap) : Checked (Option ℕ × Memory)) = .ok (some new, last) ∧
      Allocated heap last string oldSize ⟨new, allocationSize⟩ := by
  have hsize : 0 < allocationSize := by omega
  have hdata : string.data ≠ none := by rw [h.data]; exact Option.some_ne_none _
  have hapart := hgranted.apart _ h.block
  have hlater : (⟨base, string.capacity + 1⟩ : Block) ∈ later.blocks := by
    rw [hgranted.blocks]
    exact List.mem_cons_of_mem _ h.block
  have hnewBlock : (⟨new, allocationSize⟩ : Block) ∈ later.blocks := by
    rw [hgranted.blocks]
    exact List.mem_cons_self
  have hsame : later.read base oldSize = heap.read base oldSize :=
    read_congr fun place hle hlt => hgranted.same _ h.block place hle (by dsimp only; omega)
  have hmove : later.move (some new) string.data oldSize =
      .ok (later.write new (heap.read base oldSize)) := by
    rw [h.data, move_ok (live_front hlater hold) (live_front hnewBlock hnew), hsame]
  have hcopied (heap' : Memory) (hbytes : heap'.bytes = (later.write new (heap.read base oldSize)).bytes) :
      heap'.read new oldSize = heap.read base oldSize := by
    have hwrite := read_write later new (heap.read base oldSize)
    rw [read_length] at hwrite
    rw [← hwrite]
    exact read_congr fun place _ _ => by rw [hbytes]
  have hkept (heap' : Memory) (hbytes : heap'.bytes = (later.write new (heap.read base oldSize)).bytes)
      (hblocks : ∀ block ∈ heap.blocks, some block ≠ string.block → block ∈ heap'.blocks) :
      Untouched heap heap' string.block (some ⟨new, allocationSize⟩) := by
    refine ⟨fun block hmem hne => ⟨hblocks block hmem hne, ?_, fun place hle hlt => ?_⟩⟩
    · exact ((allocated_fresh hsize hgranted string.block).block block hmem hne).2.1
    · have hblock := hgranted.apart block hmem
      unfold Block.Apart at hblock
      dsimp only at hblock
      rw [hbytes, write_bytes_apart (by rw [read_length]; omega)]
      exact hgranted.same block hmem place hle hlt
  rw [if_pos ⟨hdata, hpositive⟩, hmove, checked_bind]
  by_cases hfree : string.allocator.free = true
  · rw [if_pos ⟨hdata, hfree⟩, h.data]
    have hwritten : (⟨base, string.capacity + 1⟩ : Block) ∈
        (later.write new (heap.read base oldSize)).blocks := hlater
    obtain ⟨last, hrelease, hbytes, hrefusals, hblocks⟩ := release_spec string.allocator.reclaims hwritten
    dsimp only at hrelease
    rw [hrelease, checked_bind]
    refine ⟨last, rfl, ?_, ?_, hkept last hbytes ?_, hrefusals.trans hgranted.refusals⟩
    · rw [hblocks]
      exact mem_keeping _ hnewBlock (hapart.ne hsize)
    · intro old hold
      rw [h.data] at hold
      cases hold
      exact hcopied last hbytes
    · intro block hmem hne
      rw [h.string_block] at hne
      rw [hblocks]
      refine mem_keeping _ ?_ fun heq => hne (congrArg some heq)
      rw [write_blocks, hgranted.blocks]
      exact List.mem_cons_of_mem _ hmem
  · rw [if_neg fun hboth => hfree hboth.2, checked_bind]
    refine ⟨_, rfl, hnewBlock, ?_, hkept _ rfl ?_, hgranted.refusals⟩
    · intro old hold
      rw [h.data] at hold
      cases hold
      exact hcopied _ rfl
    · intro block hmem _
      rw [write_blocks, hgranted.blocks]
      exact List.mem_cons_of_mem _ hmem

theorem Storage.stringAllocate (h : Storage heap string base) (hold : oldSize ≤ string.capacity + 1)
    (hpositive : oldSize ≠ 0) (hnew : oldSize ≤ allocationSize) :
    ∃ later, (stringAllocate answers heap string oldSize allocationSize = .ok (none, later) ∧
        later.blocks = heap.blocks ∧ later.bytes = heap.bytes ∧ Denied heap later string) ∨
      ∃ new, stringAllocate answers heap string oldSize allocationSize = .ok (some new, later) ∧
        Allocated heap later string oldSize ⟨new, allocationSize⟩ := by
  have hsize : 0 < allocationSize := by omega
  unfold OwnedString.stringAllocate
  by_cases hrealloc : string.allocator.realloc = true
  · rw [if_pos hrealloc, h.data]
    rcases reallocate_spec answers string.allocator.reclaims h.block hold hnew with
      hrefused | ⟨new, later, hok, hgranted⟩
    · exact ⟨_, .inl ⟨hrefused, rfl, rfl, .inl (Nat.lt_succ_self _)⟩⟩
    · refine ⟨later, .inr ⟨new, hok, ?_, ?_, h.reallocated hsize hgranted, hgranted.refusals⟩⟩
      · rw [hgranted.blocks]
        exact List.mem_cons_self
      · intro old hdata
        rw [h.data] at hdata
        cases hdata
        have hcopied := hgranted.copied
        rw [read_length] at hcopied
        exact hcopied hnew
  rw [if_neg hrealloc]
  by_cases halloc : string.allocator.alloc = true
  · rw [if_pos halloc]
    rcases allocate_spec answers heap allocationSize with hrefused | ⟨new, later, hok, hgranted⟩
    · rw [hrefused]
      exact ⟨_, .inl ⟨rfl, rfl, rfl, .inl (Nat.lt_succ_self _)⟩⟩
    · obtain ⟨last, hmoved, hallocated⟩ := h.moved hold hpositive hnew hgranted
      rw [hok]
      exact ⟨last, .inr ⟨new, hmoved, hallocated⟩⟩
  · rw [if_neg halloc]
    exact ⟨heap, .inl ⟨rfl, rfl, rfl, .inr ⟨Bool.eq_false_of_not_eq_true hrealloc,
      Bool.eq_false_of_not_eq_true halloc⟩⟩⟩

theorem Missing.stringAllocate (h : Missing string) (hsize : 0 < allocationSize) :
    ∃ later, (stringAllocate answers heap string 0 allocationSize = .ok (none, later) ∧
        later.blocks = heap.blocks ∧ later.bytes = heap.bytes ∧ Denied heap later string) ∨
      ∃ new, stringAllocate answers heap string 0 allocationSize = .ok (some new, later) ∧
        Allocated heap later string 0 ⟨new, allocationSize⟩ := by
  have hallocated {new : ℕ} {later : Memory}
      (hgranted : Granted heap later heap.blocks ⟨new, allocationSize⟩ []) :
      Allocated heap later string 0 ⟨new, allocationSize⟩ := by
    refine ⟨?_, fun _ _ => rfl, allocated_fresh hsize hgranted _, hgranted.refusals⟩
    rw [hgranted.blocks]
    exact List.mem_cons_self
  unfold OwnedString.stringAllocate
  rw [h.data]
  rcases allocate_spec answers heap allocationSize with hrefused | ⟨new, later, hok, hgranted⟩
  · by_cases hrealloc : string.allocator.realloc = true
    · rw [if_pos hrealloc]
      exact ⟨_, .inl ⟨congrArg Except.ok hrefused, rfl, rfl, .inl (Nat.lt_succ_self _)⟩⟩
    rw [if_neg hrealloc]
    by_cases halloc : string.allocator.alloc = true
    · rw [if_pos halloc, hrefused]
      exact ⟨_, .inl ⟨rfl, rfl, rfl, .inl (Nat.lt_succ_self _)⟩⟩
    · rw [if_neg halloc]
      exact ⟨heap, .inl ⟨rfl, rfl, rfl, .inr ⟨Bool.eq_false_of_not_eq_true hrealloc,
        Bool.eq_false_of_not_eq_true halloc⟩⟩⟩
  · by_cases hrealloc : string.allocator.realloc = true
    · rw [if_pos hrealloc]
      exact ⟨later, .inr ⟨new, congrArg Except.ok hok, hallocated hgranted⟩⟩
    rw [if_neg hrealloc]
    by_cases halloc : string.allocator.alloc = true
    · rw [if_pos halloc, hok]
      exact ⟨later, .inr ⟨new, rfl, hallocated hgranted⟩⟩
    · rw [if_neg halloc]
      exact ⟨heap, .inl ⟨rfl, rfl, rfl, .inr ⟨Bool.eq_false_of_not_eq_true hrealloc,
        Bool.eq_false_of_not_eq_true halloc⟩⟩⟩

/-- Nothing has changed, and there is a reason. -/
structure Failed (heap later : Memory) (string result : String) (needed : ℕ) : Prop where
  result : result = string
  blocks : later.blocks = heap.blocks
  bytes : later.bytes = heap.bytes
  reason : Denied heap later string ∨ SIZE_MAX ≤ needed

structure Reserved (heap later : Memory) (string result : String) (capacity : ℕ) : Prop where
  valid : Valid later result
  untouched : Untouched heap later string.block result.block
  holds : contents later result = contents heap string
  length : result.length = string.length
  allocator : result.allocator = string.allocator
  fits : capacity ≤ result.capacity
  refusals : later.refusals = heap.refusals
  inPlace : capacity ≤ string.capacity → result = string

/-- The storage that is granted holds the contents, and the NUL is put after them. -/
theorem Allocated.reserved {new newCapacity : ℕ} (h : Valid heap string)
    (hallocated : Allocated heap later string (if string.data = none then 0 else string.length + 1)
      ⟨new, newCapacity + 1⟩) (hlength : string.length ≤ newCapacity) (hmax : newCapacity < SIZE_MAX)
    (hle : capacity ≤ newCapacity) (hgrows : string.capacity < capacity) :
    Reserved heap (later.write (new + string.length) [0]) string
      { string with data := some new, capacity := newCapacity } capacity := by
  have hstorage : Storage later { string with data := some new, capacity := newCapacity } new :=
    ⟨rfl, hallocated.live⟩
  obtain ⟨hstored, hcontents⟩ := hstorage.stored hlength hmax
  refine ⟨.inr ⟨new, hstored⟩, ?_, ?_, rfl, rfl, hle, hallocated.refusals, ?_⟩
  · exact hallocated.untouched.write hstorage (Nat.add_le_add_right hlength 1)
  · refine hcontents.trans ?_
    rcases h with hmissing | ⟨base, hold⟩
    · rw [hmissing.contents_eq]
      dsimp only
      rw [hmissing.length]
      rfl
    · have hcopied := hallocated.copied base hold.data
      rw [if_neg (by rw [hold.data]; exact Option.some_ne_none _)] at hcopied
      have hfront := congrArg (List.take string.length) hcopied
      rw [read_take _ _ (Nat.le_succ _), read_take _ _ (Nat.le_succ _)] at hfront
      rw [hold.contents_eq]
      exact hfront
  · intro hfits
    omega

theorem Valid.lengths (h : Valid heap string) :
    string.length ≤ string.capacity ∧ string.capacity < SIZE_MAX ∧
      ∀ base, string.data = some base → Stored heap string base := by
  rcases h with hmissing | ⟨base, hstored⟩
  · refine ⟨by rw [hmissing.length]; exact Nat.zero_le _, by rw [hmissing.capacity]; decide, fun base hdata => ?_⟩
    rw [hmissing.data] at hdata
    cases hdata
  · refine ⟨hstored.length, hstored.capacity, fun other hdata => ?_⟩
    rw [hstored.data] at hdata
    cases hdata
    exact hstored

theorem stringReserve_spec (h : Valid heap string) (hcapacity : capacity ≤ SIZE_MAX) :
    ∃ ok later result, stringReserve answers heap string capacity = .ok (ok, later, result) ∧
      (ok = true → Reserved heap later string result capacity) ∧
      (ok = false → Failed heap later string result capacity) := by
  obtain ⟨hlength, hmax, hdata⟩ := h.lengths
  unfold stringReserve
  rw [if_neg (Nat.not_lt.mpr hlength)]
  by_cases hfits : capacity ≤ string.capacity
  · rw [if_pos hfits]
    cases hsome : string.data with
    | none =>
      exact ⟨true, heap, string, rfl, fun _ => ⟨h, .refl _ _, rfl, rfl, rfl, hfits, rfl, fun _ => rfl⟩,
        fun hfalse => (Bool.false_ne_true hfalse.symm).elim⟩
    | some base =>
      have hstored := hdata base hsome
      have hstore := hstored.terminate hlength
      unfold stringTerminate at hstore
      rw [hsome] at hstore
      dsimp only [Option.map_some] at hstore ⊢
      rw [hstore]
      obtain ⟨hstored', hcontents⟩ := hstored.toStorage.stored hlength hmax
      refine ⟨true, _, string, rfl, fun _ => ⟨.inr ⟨base, hstored'⟩, ?_, ?_, rfl, rfl, hfits, rfl,
        fun _ => rfl⟩, fun hfalse => (Bool.false_ne_true hfalse.symm).elim⟩
      · exact (Untouched.refl heap string.block).write hstored.toStorage (Nat.add_le_add_right hlength 1)
      · rw [hcontents, hstored.contents_eq]
  rw [if_neg hfits]
  obtain ⟨grown, hgrown, hle, hpositive, hgrownMax⟩ : ∃ grown,
      (if h : string.capacity = 0 then stringGrow capacity 16 (by decide)
        else stringGrow capacity string.capacity (Nat.pos_of_ne_zero h)) = .ok grown ∧
        capacity ≤ grown ∧ string.capacity ≤ grown ∧ grown ≤ SIZE_MAX := by
    by_cases hzero : string.capacity = 0
    · rw [dif_pos hzero]
      obtain ⟨grown, hgrown, hle, -, hgrownMax⟩ := stringGrow_spec capacity 16 (by decide) hcapacity (by decide)
      exact ⟨grown, hgrown, hle, by omega, hgrownMax⟩
    · rw [dif_neg hzero]
      exact stringGrow_spec capacity string.capacity _ hcapacity hmax.le
  rw [hgrown, checked_bind]
  generalize hnew : (if grown = SIZE_MAX then capacity else grown) = newCapacity
  have hnewLe : capacity ≤ newCapacity ∧ (SIZE_MAX - 1 < newCapacity → SIZE_MAX ≤ capacity) := by
    rw [← hnew]
    split_ifs <;> omega
  dsimp only
  by_cases hlimit : SIZE_MAX - 1 < newCapacity
  · rw [if_pos hlimit]
    exact ⟨false, heap, string, rfl, fun htrue => (Bool.false_ne_true htrue).elim,
      fun _ => ⟨rfl, rfl, rfl, .inr (hnewLe.2 hlimit)⟩⟩
  rw [if_neg hlimit, if_neg (by omega), sizeAdd_ok (by omega), checked_bind]
  have holdSize : (if string.data = none then .ok 0 else sizeAdd string.length 1) =
      (.ok (if string.data = none then 0 else string.length + 1) : Checked ℕ) := by
    split_ifs
    · rfl
    · exact sizeAdd_ok (by omega)
  rw [holdSize, checked_bind]
  have hallocate : ∃ later, (stringAllocate answers heap string
        (if string.data = none then 0 else string.length + 1) (newCapacity + 1) = .ok (none, later) ∧
        later.blocks = heap.blocks ∧ later.bytes = heap.bytes ∧ Denied heap later string) ∨
      ∃ new, stringAllocate answers heap string
          (if string.data = none then 0 else string.length + 1) (newCapacity + 1) = .ok (some new, later) ∧
        Allocated heap later string (if string.data = none then 0 else string.length + 1)
          ⟨new, newCapacity + 1⟩ := by
    rcases h with hmissing | ⟨base, hstored⟩
    · rw [if_pos hmissing.data]
      exact hmissing.stringAllocate (Nat.succ_pos _)
    · rw [if_neg (by rw [hstored.data]; exact Option.some_ne_none _)]
      exact hstored.toStorage.stringAllocate (by omega) (Nat.succ_ne_zero _) (by omega)
  obtain ⟨later, ⟨hrefused, hblocks, hbytes, hdenied⟩ | ⟨new, hok, hallocated⟩⟩ := hallocate
  · rw [hrefused, checked_bind]
    exact ⟨false, later, string, rfl, fun htrue => (Bool.false_ne_true htrue).elim,
      fun _ => ⟨rfl, hblocks, hbytes, .inl hdenied⟩⟩
  · rw [hok, checked_bind]
    have hstorage : Storage later { string with data := some new, capacity := newCapacity } new :=
      ⟨rfl, hallocated.live⟩
    have hlengthLe : string.length ≤ newCapacity := by omega
    have hstore := hstorage.terminate hlengthLe
    unfold stringTerminate at hstore
    dsimp only [Option.map_some] at hstore ⊢
    rw [hstore]
    exact ⟨true, _, _, rfl, fun _ => hallocated.reserved h (by omega) (by omega) hnewLe.1 (by omega),
      fun hfalse => (Bool.false_ne_true hfalse.symm).elim⟩

end Ceasy.OwnedString
