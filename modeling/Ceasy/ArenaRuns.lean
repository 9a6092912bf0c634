import Ceasy.ArenaInvariant

set_option autoImplicit false

/-!
# Runs of an arena

Each mark that is still valid remembers the active blocks as they were when it was
made, and what was live then; the marks before it are marks of that state. Restoring
a mark goes back to it.
-/
namespace Ceasy.Arenas
open StringView Chain

variable {arena result : Arena} {active longer spare : List ArenaBlock} {live more : List Allocation}
  {marks newer older : List Marked} {marked : Marked} {history : History} {malloc : ℕ → Option ℕ}

theorem MarkOf.of_same {snapshot : List ArenaBlock} {mark : ArenaMark} (h : MarkOf arena snapshot mark)
    (hself : result.self = arena.self) (hgeneration : result.generation = arena.generation) :
    MarkOf result snapshot mark :=
  ⟨by rw [hself]; exact h.owner, by rw [hgeneration]; exact h.generation, h.block, h.used,
    h.allocationCount, h.totalUsed, h.totalAllocations⟩

/-- The valid marks of an arena with these active blocks and live allocations. -/
inductive Marks (arena : Arena) : List Marked → List ArenaBlock → List Allocation → Prop where
  | nil (active : List ArenaBlock) (live : List Allocation) : Marks arena [] active live
  | cons {marked : Marked} {marks : List Marked} {snapshot active : List ArenaBlock}
    {live : List Allocation} (hextends : Extends Grows snapshot active)
    (hmark : MarkOf arena snapshot marked.mark) (hok : ∀ block ∈ snapshot, BlockOk block)
    (hplaced : ∀ allocation ∈ marked.live, Placed snapshot allocation) (hlive : marked.live <:+ live)
    (hrest : Marks arena marks snapshot marked.live) : Marks arena (marked :: marks) active live

theorem Marks.of_same (h : Marks arena marks active live) (hself : result.self = arena.self)
    (hgeneration : result.generation = arena.generation) : Marks result marks active live := by
  induction h with
  | nil active live => exact .nil active live
  | cons hextends hmark hok hplaced hlive _ ih =>
    exact .cons hextends (hmark.of_same hself hgeneration) hok hplaced hlive ih

theorem Marks.grow (h : Marks arena marks active live) (hextends : Extends Grows active longer)
    (hlive : live <:+ more) : Marks arena marks longer more := by
  cases h with
  | nil => exact .nil longer more
  | cons hsnapshot hmark hok hplaced hsuffix hrest =>
    exact .cons (hsnapshot.trans Grows.trans hextends) hmark hok hplaced (hsuffix.trans hlive) hrest

/-- Every valid mark is a mark of active blocks that the present ones extend. -/
theorem Marks.split (h : Marks arena (newer ++ marked :: older) active live) :
    ∃ snapshot, Extends Grows snapshot active ∧ MarkOf arena snapshot marked.mark ∧
      (∀ block ∈ snapshot, BlockOk block) ∧
      (∀ allocation ∈ marked.live, Placed snapshot allocation) ∧ marked.live <:+ live ∧
      Marks arena older snapshot marked.live := by
  induction newer generalizing active live with
  | nil =>
    cases h with
    | cons hextends hmark hok hplaced hlive hrest =>
      exact ⟨_, hextends, hmark, hok, hplaced, hlive, hrest⟩
  | cons first newer ih =>
    cases h with
    | cons hextends _ _ _ hlive hrest =>
      obtain ⟨snapshot, hsnapshot, hmark, hok, hplaced, hsuffix, holder⟩ := ih hrest
      exact ⟨snapshot, hsnapshot.trans Grows.trans hextends, hmark, hok, hplaced, hsuffix.trans hlive,
        holder⟩

def Sound (history : History) : Prop :=
  ∃ active spare, Shape history.arena active spare ∧
    (∀ allocation ∈ history.live, Placed active allocation) ∧ history.live.Pairwise Disjoint ∧
    Marks history.arena history.marks active history.live

def ArenaOperation.size? : ArenaOperation → Option ℕ
  | .alloc size | .allocZero size => some size
  | .allocArray count elementSize => some (count * elementSize)
  | _ => none

def Allocates (history : History) (size : ℕ) (next : History) : Prop :=
  next = history ∨ ∃ address, next.live = ⟨address, size⟩ :: history.live

theorem Sound.allocated (h : Sound history) (hmalloc : MallocAnswers malloc history.arena) (size : ℕ) :
    ∃ result, arenaAlloc malloc history.arena size = .ok result ∧ Sound (history.allocated size result) ∧
      Allocates history size (history.allocated size result) := by
  obtain ⟨active, spare, hshape, hplaced, hdisjoint, hmarks⟩ := h
  obtain ⟨answer, result, halloc, hfailed, hserved⟩ := arenaAlloc_spec hshape hmalloc size
  refine ⟨(answer, result), halloc, ?_⟩
  cases answer with
  | none =>
    have hsame : history.allocated size (none, result) = history := by
      rw [hfailed rfl]
      rfl
    rw [hsame]
    exact ⟨⟨active, spare, hshape, hplaced, hdisjoint, hmarks⟩, .inl rfl⟩
  | some address =>
    obtain ⟨active', spare', hshape', hextends, hnew, hapart, hself, hgeneration⟩ := hserved address rfl
    refine ⟨⟨active', spare', hshape', ?_, ?_, ?_⟩, .inr ⟨address, rfl⟩⟩
    · intro allocation hmem
      rcases List.mem_cons.mp hmem with rfl | hold
      · exact hnew
      · exact (hplaced allocation hold).extends hextends
    · apply List.Pairwise.cons _ hdisjoint
      intro allocation hmem
      exact hapart allocation (hplaced allocation hmem)
    · exact (hmarks.grow hextends (List.suffix_cons _ _)).of_same hself hgeneration

theorem Sound.restored (h : Sound history) (hmarks : history.marks = newer ++ marked :: older) :
    ∃ arena, history.restored (marked :: older) =
        .ok { arena := arena, live := marked.live, marks := marked :: older } ∧
      Sound { arena := arena, live := marked.live, marks := marked :: older } := by
  obtain ⟨active, spare, hshape, hplaced, hdisjoint, hvalid⟩ := h
  rw [hmarks] at hvalid
  obtain ⟨snapshot, hextends, hmark, hok, hkept, hlive, holder⟩ := hvalid.split
  obtain ⟨result, hrestore, hshape', hself, hgeneration⟩ := arenaRestore_spec hshape hextends hmark hok
  unfold History.restored
  dsimp only
  rw [hrestore, sized_bind]
  refine ⟨result, rfl, snapshot, [], hshape', hkept, hdisjoint.sublist hlive.sublist, ?_⟩
  exact .cons (.refl snapshot) (hmark.of_same hself hgeneration) hok hkept (List.suffix_refl _)
    (holder.of_same hself hgeneration)

theorem Sound.perform (h : Sound history) (hmalloc : MallocAnswers malloc history.arena)
    (operation : ArenaOperation) :
    ∃ next, arenaPerform malloc history operation = .ok next ∧ Sound next ∧
      ∀ size, operation.size? = some size → Allocates history size next := by
  cases operation with
  | alloc size =>
    obtain ⟨result, halloc, hsound, hallocates⟩ := h.allocated hmalloc size
    refine ⟨_, by rw [arenaPerform, halloc, sized_bind, sized_pure], hsound, ?_⟩
    intro other hsize
    cases hsize
    exact hallocates
  | allocZero size =>
    obtain ⟨result, halloc, hsound, hallocates⟩ := h.allocated hmalloc size
    refine ⟨_, by rw [arenaPerform, arenaAllocZero, halloc, sized_bind, sized_pure], hsound, ?_⟩
    intro other hsize
    cases hsize
    exact hallocates
  | allocArray count elementSize =>
    rw [arenaPerform, arenaAllocArray_eq]
    by_cases hlarge : SIZE_MAX < count * elementSize
    · rw [if_pos hlarge, sized_bind]
      exact ⟨history, rfl, h, fun _ _ => .inl rfl⟩
    · rw [if_neg hlarge]
      obtain ⟨result, halloc, hsound, hallocates⟩ := h.allocated hmalloc (count * elementSize)
      refine ⟨_, by rw [halloc, sized_bind, sized_pure], hsound, ?_⟩
      intro other hsize
      cases hsize
      exact hallocates
  | mark =>
    obtain ⟨active, spare, hshape, hplaced, hdisjoint, hmarks⟩ := h
    refine ⟨_, rfl, ⟨active, spare, hshape, hplaced, hdisjoint, ?_⟩, by simp [ArenaOperation.size?]⟩
    refine .cons (.refl active) (arenaMark_spec hshape) ?_ hplaced (List.suffix_refl _) hmarks
    intro block hmem
    exact hshape.ok block (List.mem_append_left _ hmem)
  | restore number =>
    rw [arenaPerform]
    cases hdrop : history.marks.drop number with
    | nil => exact ⟨history, rfl, h, by simp [ArenaOperation.size?]⟩
    | cons marked older =>
      have hmarks : history.marks = history.marks.take number ++ marked :: older := by
        rw [← hdrop, List.take_append_drop]
      obtain ⟨arena, hrestored, hsound⟩ := h.restored hmarks
      exact ⟨_, hrestored, hsound, by simp [ArenaOperation.size?]⟩
  | reset =>
    obtain ⟨active, spare, hshape, -, -, -⟩ := h
    obtain ⟨result, active', spare', hreset, hshape'⟩ := arenaReset_spec hshape
    refine ⟨{ arena := result }, by rw [arenaPerform, hreset, sized_bind, sized_pure],
      ⟨active', spare', hshape', by simp, List.Pairwise.nil, .nil _ _⟩, by simp [ArenaOperation.size?]⟩

theorem sound_init {self blockSize : ℕ} (hinit : arenaInit self blockSize = some arena)
    (hsize : blockSize ≤ SIZE_MAX) : Sound { arena := arena } := by
  unfold arenaInit at hinit
  split_ifs at hinit with hzero
  cases hinit
  refine ⟨[], [], ?_, by simp, List.Pairwise.nil, .nil [] []⟩
  exact ⟨rfl, rfl, fun _ => rfl, by simp, by simp, by simp, hzero, hsize, rfl, Nat.zero_le _, rfl,
    Nat.zero_le _, rfl, rfl⟩

theorem ArenaRun.sound {start : History} (h : ArenaRun start history) (hstart : Sound start) :
    Sound history := by
  induction h with
  | start => exact hstart
  | step _ hmalloc hperform ih =>
    obtain ⟨next, hnext, hsound, -⟩ := ih.perform hmalloc _
    cases hperform.symm.trans hnext
    exact hsound

/-- The chain and the statistics agree, and live allocations are where they should be. -/
structure Represented (history : History) : Prop where
  bounded : ∀ block ∈ history.arena.blocks, block.used ≤ block.capacity
  current : ∀ address, history.arena.current = some address →
    ∃ block ∈ history.arena.blocks, block.address = address
  noCurrent : history.arena.current = none → history.arena.blocks = []
  spare : ∀ before block after, history.arena.blocks = before ++ block :: after →
    history.arena.current = some block.address → ∀ later ∈ after, later.used = 0
  blockCount : history.arena.blockCount = history.arena.blocks.length
  capacity : history.arena.capacity = blocksCapacity history.arena.blocks
  used : history.arena.used = blocksUsed history.arena.blocks
  allocationCount : history.arena.allocationCount = blocksAllocations history.arena.blocks
  placed : ∀ allocation ∈ history.live, Placed history.arena.blocks allocation
  disjoint : history.live.Pairwise Disjoint

theorem Shape.after_current (h : Shape arena active spare) {before after : List ArenaBlock}
    {block : ArenaBlock} (hsplit : arena.blocks = before ++ block :: after)
    (hcurrent : arena.current = some block.address) : ∀ later ∈ after, later ∈ spare := by
  rcases List.eq_nil_or_concat' active with rfl | ⟨front, last, rfl⟩
  · have hnone : arena.current = none := h.current
    rw [hnone] at hcurrent
    cases hcurrent
  · have haddress : last.address = block.address := Option.some.inj (h.current_block.1.symm.trans hcurrent)
    have hblocks := h.blocks
    have hapart := h.apart
    rw [← h.blocks, hsplit] at hapart
    rw [List.append_assoc, List.singleton_append, hsplit] at hblocks
    obtain ⟨hbefore, hafter⟩ := addresses_ne hapart
    intro later hlater
    rcases List.append_eq_append_iff.mp hblocks with ⟨middle, -, hrest⟩ | ⟨middle, -, hrest⟩
    · rcases List.cons_eq_append_iff.mp hrest with ⟨-, hsame⟩ | ⟨tail, -, rfl⟩
      · obtain ⟨-, rfl⟩ := List.cons.inj hsame
        exact hlater
      · exact absurd haddress (hafter last (by simp))
    · rcases List.cons_eq_append_iff.mp hrest with ⟨-, hsame⟩ | ⟨tail, -, rfl⟩
      · obtain ⟨-, rfl⟩ := List.cons.inj hsame
        exact hlater
      · simp [hlater]

theorem Sound.represented (h : Sound history) : Represented history := by
  obtain ⟨active, spare, hshape, hplaced, hdisjoint, -⟩ := h
  have hblocks := hshape.blocks
  refine ⟨?_, ?_, ?_, ?_, ?_, ?_, ?_, ?_, ?_, hdisjoint⟩
  · intro block hmem
    exact (hshape.ok block (hblocks ▸ hmem)).used
  · intro address hcurrent
    rw [hshape.current] at hcurrent
    obtain ⟨block, hlast, rfl⟩ := Option.map_eq_some_iff.mp hcurrent
    exact ⟨block, hblocks ▸ List.mem_append_left _ (List.mem_of_getLast? hlast), rfl⟩
  · intro hnone
    rw [hshape.current, Option.map_eq_none_iff, List.getLast?_eq_none_iff] at hnone
    rw [hblocks, hnone, hshape.spare_nil hnone]
    rfl
  · intro before block after hsplit hcurrent later hlater
    exact (hshape.spare_empty later (hshape.after_current hsplit hcurrent later hlater)).1
  · rw [hshape.blockCount, hblocks]
  · rw [hshape.capacity, hblocks]
  · rw [hshape.used, hblocks]
  · rw [hshape.allocationCount, hblocks]
  · intro allocation hmem
    rw [hblocks]
    exact (hplaced allocation hmem).extends (.append active spare)

/-- The invariant of every arena, in every run: the statistics are the sums over the chain,
    and what is live is aligned, in its block and apart from the rest. Whatever is asked
    for next, no size computation wraps, and memory that is refused changes nothing. -/
theorem arena_represented {self blockSize : ℕ} (hsize : blockSize ≤ SIZE_MAX)
    (hinit : arenaInit self blockSize = some arena) (hrun : ArenaRun { arena := arena } history) :
    Represented history ∧
      ∀ malloc operation, MallocAnswers malloc history.arena →
        ∃ next, arenaPerform malloc history operation = .ok next ∧
          ∀ size, operation.size? = some size → Allocates history size next := by
  have hsound := hrun.sound (sound_init hinit hsize)
  refine ⟨hsound.represented, ?_⟩
  intro malloc operation hmalloc
  obtain ⟨next, hnext, -, hallocates⟩ := hsound.perform hmalloc operation
  exact ⟨next, hnext, hallocates⟩

theorem mallocAnswers_none (arena : Arena) : MallocAnswers (fun _ => none) arena :=
  fun _ _ hnone => by cases hnone

def sampleArena : Arena := { self := 0, defaultBlockSize := 64, generation := 1 }

/-- Two pieces of memory, both from the first block of 64, and a mark. -/
def sampleHistory : History where
  arena :=
    { sampleArena with
      blocks := [⟨4096, 64, 20, 2, false⟩]
      current := some 4096
      blockCount := 1
      capacity := 64
      used := 20
      allocationCount := 2 }
  live := [⟨4192, 4⟩, ⟨4176, 8⟩]
  marks := [⟨⟨some 0, some 4096, 20, 2, 20, 2, 1⟩, [⟨4192, 4⟩, ⟨4176, 8⟩]⟩]

/-- A third piece of memory is taken back with the mark. -/
theorem arena_represented_sample : Represented sampleHistory := by
  have hmalloc : MallocAnswers (fun _ => some 4096) sampleArena := by
    intro size address haddress
    cases haddress
    exact ⟨by decide, by simp [sampleArena]⟩
  have hfirst := ArenaRun.step .start hmalloc
    (show arenaPerform (fun _ => some 4096) { arena := sampleArena } (.alloc 8) = .ok _ from rfl)
  have hsecond := hfirst.step (mallocAnswers_none _)
    (show arenaPerform (fun _ => none) _ (.alloc 4) = .ok _ from rfl)
  have hmarked : ArenaRun { arena := sampleArena } sampleHistory :=
    hsecond.step (mallocAnswers_none _) (show arenaPerform (fun _ => none) _ .mark = .ok _ from rfl)
  have hthird := hmarked.step (mallocAnswers_none _)
    (show arenaPerform (fun _ => none) sampleHistory (.alloc 16) = .ok _ from rfl)
  have hrestored : ArenaRun { arena := sampleArena } sampleHistory :=
    hthird.step (mallocAnswers_none _) (show arenaPerform (fun _ => none) _ (.restore 0) = .ok _ from rfl)
  exact (arena_represented (by decide : 64 ≤ SIZE_MAX) (rfl : arenaInit 0 64 = some sampleArena) hrestored).1

end Ceasy.Arenas
