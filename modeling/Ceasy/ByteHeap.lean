import Mathlib

set_option autoImplicit false

/-!
# Heaps of bytes

Live blocks that share no memory, and what every address holds. A load or a store outside the live
blocks is a fault, and so is one through a null pointer. What an allocator answers to each request
is a parameter: an answer that is not free counts as a refusal.
-/
namespace ByteHeap

structure Block where
  base : ℕ
  size : ℕ
deriving DecidableEq, Repr

def Block.Apart (first second : Block) : Prop :=
  first.base + first.size ≤ second.base ∨ second.base + second.size ≤ first.base

def Block.Within (inner outer : Block) : Prop :=
  outer.base ≤ inner.base ∧ inner.base + inner.size ≤ outer.base + outer.size

instance (first second : Block) : Decidable (first.Apart second) :=
  inferInstanceAs (Decidable (_ ∨ _))

instance (inner outer : Block) : Decidable (inner.Within outer) :=
  inferInstanceAs (Decidable (_ ∧ _))

theorem Block.Apart.symm {first second : Block} (h : first.Apart second) : second.Apart first := Or.symm h

theorem Block.Apart.ne {first second : Block} (h : first.Apart second) (hsize : 0 < first.size) :
    first ≠ second := by
  rintro rfl
  unfold Block.Apart at h
  omega

theorem Block.Within.apart {inner outer other : Block} (h : inner.Within outer) (hapart : outer.Apart other) :
    inner.Apart other := by
  unfold Block.Within at h
  unfold Block.Apart at *
  omega

inductive Fault where
  | null
  | invalid
  | wrapped
deriving DecidableEq, Repr

abbrev Checked := Except Fault

/-- The requests for memory are counted, and those that were refused. -/
structure Heap (β : Type) where
  blocks : List Block
  bytes : ℕ → β
  requests : ℕ := 0
  refusals : ℕ := 0
  apart : blocks.Pairwise Block.Apart
  sized : ∀ block ∈ blocks, 0 < block.size

variable {β : Type} {heap later : Heap β} {address other length count size : ℕ} {data old : List β}

def Heap.Live (heap : Heap β) (range : Block) : Prop := ∃ block ∈ heap.blocks, range.Within block

instance (heap : Heap β) (range : Block) : Decidable (heap.Live range) :=
  inferInstanceAs (Decidable (∃ block ∈ heap.blocks, range.Within block))

def Heap.read (heap : Heap β) (address length : ℕ) : List β :=
  (List.range length).map fun index => heap.bytes (address + index)

def Heap.write (heap : Heap β) (address : ℕ) (data : List β) : Heap β :=
  { heap with
    bytes := fun place =>
      if address ≤ place then data.getD (place - address) (heap.bytes place) else heap.bytes place }

def Heap.load (heap : Heap β) (pointer : Option ℕ) (length : ℕ) : Checked (List β) :=
  match pointer with
  | none => .error .null
  | some address => if heap.Live ⟨address, length⟩ then .ok (heap.read address length) else .error .invalid

def Heap.store (heap : Heap β) (pointer : Option ℕ) (data : List β) : Checked (Heap β) :=
  match pointer with
  | none => .error .null
  | some address =>
    if heap.Live ⟨address, data.length⟩ then .ok (heap.write address data) else .error .invalid

/-- Copying, also where source and target overlap. -/
def Heap.move (heap : Heap β) (target source : Option ℕ) (length : ℕ) : Checked (Heap β) := do
  let data ← heap.load source length
  heap.store target data

@[simp]
theorem read_length (heap : Heap β) (address length : ℕ) : (heap.read address length).length = length := by
  rw [Heap.read, List.length_map, List.length_range]

theorem read_getElem? (heap : Heap β) (address length index : ℕ) :
    (heap.read address length)[index]? = if index < length then some (heap.bytes (address + index)) else none := by
  rw [Heap.read, List.getElem?_map]
  by_cases h : index < length
  · rw [if_pos h, List.getElem?_range h, Option.map_some]
  · rw [if_neg h, List.getElem?_eq_none (by rw [List.length_range]; omega), Option.map_none]

theorem read_add (heap : Heap β) (address length count : ℕ) :
    heap.read address (length + count) = heap.read address length ++ heap.read (address + length) count := by
  rw [Heap.read, List.range_add, List.map_append, List.map_map]
  simp only [Heap.read, Function.comp_def, Nat.add_assoc]

theorem read_take (heap : Heap β) (address : ℕ) (h : count ≤ length) :
    (heap.read address length).take count = heap.read address count := by
  obtain ⟨rest, rfl⟩ := Nat.exists_eq_add_of_le h
  rw [read_add, List.take_left' (read_length heap address count)]

theorem read_drop (heap : Heap β) (address : ℕ) (h : count ≤ length) :
    (heap.read address length).drop count = heap.read (address + count) (length - count) := by
  obtain ⟨rest, rfl⟩ := Nat.exists_eq_add_of_le h
  rw [read_add, List.drop_left' (read_length heap address count), Nat.add_sub_cancel_left]

theorem read_congr (h : ∀ place, address ≤ place → place < address + length → later.bytes place = heap.bytes place) :
    later.read address length = heap.read address length := by
  refine List.map_congr_left fun index hindex => ?_
  have hlt := List.mem_range.mp hindex
  exact h _ (by omega) (by omega)

@[simp]
theorem write_blocks (heap : Heap β) (address : ℕ) (data : List β) :
    (heap.write address data).blocks = heap.blocks := rfl

theorem write_bytes_apart {place : ℕ} (h : place < address ∨ address + data.length ≤ place) :
    (heap.write address data).bytes place = heap.bytes place := by
  change (if address ≤ place then data.getD (place - address) (heap.bytes place) else heap.bytes place) = _
  by_cases hle : address ≤ place
  · rw [if_pos hle, List.getD_eq_default _ _ (by omega)]
  · rw [if_neg hle]

theorem write_bytes (index : ℕ) (h : index < data.length) :
    (heap.write address data).bytes (address + index) = data[index] := by
  change (if address ≤ address + index then data.getD (address + index - address)
    (heap.bytes (address + index)) else heap.bytes (address + index)) = _
  rw [if_pos (Nat.le_add_right _ _), Nat.add_sub_cancel_left, List.getD_eq_getElem _ _ h]

theorem read_write (heap : Heap β) (address : ℕ) (data : List β) :
    (heap.write address data).read address data.length = data := by
  refine List.ext_getElem? fun index => ?_
  rw [read_getElem?]
  by_cases h : index < data.length
  · rw [if_pos h, write_bytes index h, List.getElem?_eq_getElem h]
  · rw [if_neg h, List.getElem?_eq_none (Nat.le_of_not_lt h)]

theorem read_write_apart (h : address + length ≤ other ∨ other + data.length ≤ address) :
    (heap.write other data).read address length = heap.read address length := by
  refine read_congr fun place hle hlt => write_bytes_apart ?_
  omega

theorem live_front {block : Block} (h : block ∈ heap.blocks) (hle : length ≤ block.size) :
    heap.Live ⟨block.base, length⟩ :=
  ⟨block, h, Nat.le_refl _, Nat.add_le_add_left hle _⟩

theorem load_ok (h : heap.Live ⟨address, length⟩) :
    heap.load (some address) length = .ok (heap.read address length) := if_pos h

theorem store_ok (h : heap.Live ⟨address, data.length⟩) :
    heap.store (some address) data = .ok (heap.write address data) := if_pos h

theorem move_ok {target : ℕ} (hsource : heap.Live ⟨address, length⟩) (htarget : heap.Live ⟨target, length⟩) :
    heap.move (some target) (some address) length = .ok (heap.write target (heap.read address length)) := by
  rw [Heap.move, load_ok hsource]
  exact store_ok (by rwa [read_length])

/-- Where a block goes, and what its memory holds before it is written. -/
structure Answer (β : Type) where
  base : ℕ
  contents : ℕ → β

abbrev Answers (β : Type) := ℕ → ℕ → Option (Answer β)

def Heap.refuse (heap : Heap β) : Heap β :=
  { heap with requests := heap.requests + 1, refusals := heap.refusals + 1 }

/-- A block of memory that is apart from the blocks that are kept; it begins with the old bytes. -/
def Heap.grant (answers : Answers β) (heap : Heap β) (kept : List Block)
    (hkept : kept.Sublist heap.blocks) (size : ℕ) (old : List β) : Option ℕ × Heap β :=
  match answers heap.requests size with
  | none => (none, heap.refuse)
  | some answer =>
    if h : (∀ block ∈ kept, Block.Apart ⟨answer.base, size⟩ block) ∧ 0 < size then
      (some answer.base,
        { heap with
          blocks := ⟨answer.base, size⟩ :: kept
          bytes := fun place =>
            if answer.base ≤ place ∧ place < answer.base + size then
              old.getD (place - answer.base) (answer.contents place)
            else heap.bytes place
          requests := heap.requests + 1
          apart := .cons h.1 (heap.apart.sublist hkept)
          sized := by
            intro block hmem
            rcases List.mem_cons.mp hmem with rfl | hold
            · exact h.2
            · exact heap.sized block (hkept.subset hold) })
    else (none, heap.refuse)

def Heap.blockAt (heap : Heap β) (base : ℕ) : Option Block := heap.blocks.find? fun block => block.base = base

def Heap.remove (heap : Heap β) (block : Block) : Heap β :=
  { heap with
    blocks := heap.blocks.erase block
    apart := heap.apart.sublist List.erase_sublist
    sized := fun other hmem => heap.sized other (List.mem_of_mem_erase hmem) }

def Heap.allocate (answers : Answers β) (heap : Heap β) (size : ℕ) : Option ℕ × Heap β :=
  heap.grant answers heap.blocks (List.Sublist.refl _) size []

/-- An allocator that reclaims memory may use the old block again. -/
def Heap.keeping (heap : Heap β) (reclaims : Bool) (block : Block) : List Block :=
  if reclaims then heap.blocks.erase block else heap.blocks

theorem keeping_sublist (heap : Heap β) (reclaims : Bool) (block : Block) :
    (heap.keeping reclaims block).Sublist heap.blocks := by
  unfold Heap.keeping
  split_ifs
  · exact List.erase_sublist
  · exact List.Sublist.refl _

def Heap.reallocate (answers : Answers β) (reclaims : Bool) (heap : Heap β) (pointer : Option ℕ)
    (oldSize newSize : ℕ) : Checked (Option ℕ × Heap β) :=
  match pointer with
  | none => return heap.allocate answers newSize
  | some base =>
    match heap.blockAt base with
    | none => .error .invalid
    | some block => do
      let old ← heap.load (some base) (min oldSize newSize)
      return heap.grant answers (heap.keeping reclaims block) (keeping_sublist heap reclaims block) newSize old

def Heap.release (reclaims : Bool) (heap : Heap β) (pointer : Option ℕ) : Checked (Heap β) :=
  match pointer with
  | none => return heap
  | some base =>
    match heap.blockAt base with
    | none => .error .invalid
    | some block => return if reclaims then heap.remove block else heap

/-- The block is there with the old bytes, and the blocks that were kept are as they were. -/
structure Granted (heap later : Heap β) (kept : List Block) (block : Block) (old : List β) : Prop where
  blocks : later.blocks = block :: kept
  apart : ∀ other ∈ kept, block.Apart other
  copied : old.length ≤ block.size → later.read block.base old.length = old
  same : ∀ other ∈ kept, ∀ place, other.base ≤ place → place < other.base + other.size →
    later.bytes place = heap.bytes place
  refusals : later.refusals = heap.refusals

theorem grant_spec (answers : Answers β) (heap : Heap β) {kept : List Block}
    (hkept : kept.Sublist heap.blocks) (size : ℕ) (old : List β) :
    heap.grant answers kept hkept size old = (none, heap.refuse) ∨
      ∃ base later, heap.grant answers kept hkept size old = (some base, later) ∧
        Granted heap later kept ⟨base, size⟩ old := by
  unfold Heap.grant
  cases answers heap.requests size with
  | none => exact .inl rfl
  | some answer =>
    dsimp only
    by_cases h : (∀ block ∈ kept, Block.Apart ⟨answer.base, size⟩ block) ∧ 0 < size
    · rw [dif_pos h]
      refine .inr ⟨_, _, rfl, rfl, h.1, ?_, ?_, rfl⟩
      · intro hle
        refine List.ext_getElem? fun index => ?_
        rw [read_getElem?]
        by_cases hindex : index < old.length
        · have hinside : answer.base ≤ answer.base + index ∧ answer.base + index < answer.base + size := by
            dsimp only at hle
            omega
          rw [if_pos hindex]
          dsimp only
          rw [if_pos hinside, Nat.add_sub_cancel_left, List.getD_eq_getElem _ _ hindex,
            List.getElem?_eq_getElem hindex]
        · rw [if_neg hindex, List.getElem?_eq_none (Nat.le_of_not_lt hindex)]
      · intro other hmem place hle hlt
        have hother := h.1 other hmem
        unfold Block.Apart at hother
        dsimp only at hother ⊢
        rw [if_neg (by omega)]
    · rw [dif_neg h]
      exact .inl rfl

theorem blocks_apart {first second : Block} (hfirst : first ∈ heap.blocks) (hsecond : second ∈ heap.blocks)
    (hne : first ≠ second) : first.Apart second :=
  have : Std.Symm Block.Apart := ⟨fun _ _ => Block.Apart.symm⟩
  heap.apart.forall hfirst hsecond hne

theorem blockAt_mem {block : Block} (h : block ∈ heap.blocks) : heap.blockAt block.base = some block := by
  unfold Heap.blockAt
  cases hfind : heap.blocks.find? fun other => other.base = block.base with
  | none => exact absurd (List.find?_eq_none.mp hfind block h) (by simp)
  | some found =>
    have hbase : found.base = block.base := by simpa using List.find?_some hfind
    have hmem := List.mem_of_find?_eq_some hfind
    by_contra hne
    have hapart := blocks_apart hmem h fun heq => hne (congrArg some heq)
    have hfound := heap.sized found hmem
    have hblock := heap.sized block h
    unfold Block.Apart at hapart
    omega

theorem mem_keeping (reclaims : Bool) {block kept : Block} (h : kept ∈ heap.blocks) (hne : kept ≠ block) :
    kept ∈ heap.keeping reclaims block := by
  unfold Heap.keeping
  split_ifs
  · exact (List.mem_erase_of_ne hne).mpr h
  · exact h

theorem allocate_spec (answers : Answers β) (heap : Heap β) (size : ℕ) :
    heap.allocate answers size = (none, heap.refuse) ∨
      ∃ base later, heap.allocate answers size = (some base, later) ∧
        Granted heap later heap.blocks ⟨base, size⟩ [] :=
  grant_spec answers heap _ size []

theorem reallocate_spec (answers : Answers β) (reclaims : Bool) {block : Block} (h : block ∈ heap.blocks)
    {oldSize newSize : ℕ} (hold : oldSize ≤ block.size) (hnew : oldSize ≤ newSize) :
    heap.reallocate answers reclaims (some block.base) oldSize newSize = .ok (none, heap.refuse) ∨
      ∃ base later, heap.reallocate answers reclaims (some block.base) oldSize newSize =
          .ok (some base, later) ∧
        Granted heap later (heap.keeping reclaims block) ⟨base, newSize⟩ (heap.read block.base oldSize) := by
  unfold Heap.reallocate
  dsimp only
  rw [blockAt_mem h]
  dsimp only
  rw [Nat.min_eq_left hnew, load_ok (live_front h hold)]
  rcases grant_spec answers heap (keeping_sublist heap reclaims block) newSize
    (heap.read block.base oldSize) with hrefused | ⟨base, later, hgranted, hspec⟩
  · exact .inl (congrArg Except.ok hrefused)
  · exact .inr ⟨base, later, congrArg Except.ok hgranted, hspec⟩

theorem release_spec (reclaims : Bool) {block : Block} (h : block ∈ heap.blocks) :
    ∃ later, heap.release reclaims (some block.base) = .ok later ∧ later.bytes = heap.bytes ∧
      later.refusals = heap.refusals ∧ later.blocks = heap.keeping reclaims block := by
  unfold Heap.release
  dsimp only
  rw [blockAt_mem h]
  cases reclaims with
  | false => exact ⟨heap, rfl, rfl, rfl, rfl⟩
  | true => exact ⟨heap.remove block, rfl, rfl, rfl, rfl⟩

end ByteHeap
