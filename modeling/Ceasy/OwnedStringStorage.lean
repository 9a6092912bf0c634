import Ceasy.OwnedString

set_option autoImplicit false

/-!
# The storage of a string

A string is without storage, or its block is live and holds its contents with a NUL after them.
An operation leaves every other live block as it is.
-/
namespace Ceasy.OwnedString
open ByteHeap
open StringView (Bytes SIZE_MAX ch)

variable {answers : Answers UInt8} {heap later last : Memory} {string result : String} {value : View}
  {base address length capacity : ℕ} {data : Bytes} {own own' own'' : Option Block}

@[simp]
theorem checked_bind {α β : Type} (a : α) (f : α → Checked β) : (Except.ok a >>= f) = f a := rfl

theorem sizeAdd_ok {a b : ℕ} (h : a + b ≤ SIZE_MAX) : sizeAdd a b = .ok (a + b) := if_pos h

theorem sizeSub_ok {a b : ℕ} (h : b ≤ a) : sizeSub a b = .ok (a - b) := if_pos h

/-- The doubling ends at a capacity that is large enough, and does not wrap. -/
theorem stringGrow_spec (capacity newCapacity : ℕ) (hpositive : 0 < newCapacity)
    (hcapacity : capacity ≤ SIZE_MAX) (hnew : newCapacity ≤ SIZE_MAX) :
    ∃ grown, stringGrow capacity newCapacity hpositive = .ok grown ∧ capacity ≤ grown ∧
      newCapacity ≤ grown ∧ grown ≤ SIZE_MAX := by
  induction newCapacity, hpositive using stringGrow.induct capacity with
  | case1 newCapacity hpositive hless hlarge =>
    rw [stringGrow, if_pos hless, if_pos hlarge]
    exact ⟨capacity, rfl, Nat.le_refl _, hless.le, hcapacity⟩
  | case2 newCapacity hpositive hless hsmall hwraps => omega
  | case3 newCapacity hpositive hless hsmall hfits ih =>
    obtain ⟨grown, hgrown, hle, hnewLe, hgrownLe⟩ := ih (by omega)
    rw [stringGrow, if_pos hless, if_neg hsmall, if_neg hfits]
    exact ⟨grown, hgrown, hle, by omega, hgrownLe⟩
  | case4 newCapacity hpositive hless =>
    rw [stringGrow, if_neg hless]
    exact ⟨newCapacity, rfl, Nat.le_of_not_lt hless, Nat.le_refl _, hnew⟩

def String.block (string : String) : Option Block :=
  string.data.map fun base => ⟨base, string.capacity + 1⟩

structure Missing (string : String) : Prop where
  data : string.data = none
  length : string.length = 0
  capacity : string.capacity = 0

structure Storage (heap : Memory) (string : String) (base : ℕ) : Prop where
  data : string.data = some base
  block : ⟨base, string.capacity + 1⟩ ∈ heap.blocks

structure Stored (heap : Memory) (string : String) (base : ℕ) : Prop extends
  Storage heap string base where
  length : string.length ≤ string.capacity
  capacity : string.capacity < SIZE_MAX
  nul : heap.bytes (base + string.length) = 0

/-- The invariant of a string. -/
def Valid (heap : Memory) (string : String) : Prop := Missing string ∨ ∃ base, Stored heap string base

def contents (heap : Memory) (string : String) : Bytes :=
  match string.data with
  | none => []
  | some base => heap.read base string.length

def viewContents (heap : Memory) (value : View) : Bytes :=
  match value.data with
  | none => []
  | some address => heap.read address value.length

/-- Every live block but the string's own stays live, as it is, and apart from the string. -/
structure Untouched (heap later : Memory) (own own' : Option Block) : Prop where
  block : ∀ block ∈ heap.blocks, some block ≠ own → block ∈ later.blocks ∧ some block ≠ own' ∧
    ∀ place, block.base ≤ place → place < block.base + block.size → later.bytes place = heap.bytes place

theorem Untouched.refl (heap : Memory) (own : Option Block) : Untouched heap heap own own :=
  ⟨fun _ hmem hne => ⟨hmem, hne, fun _ _ _ => rfl⟩⟩

theorem Untouched.trans (h : Untouched heap later own own') (hnext : Untouched later last own' own'') :
    Untouched heap last own own'' := by
  refine ⟨fun block hmem hne => ?_⟩
  obtain ⟨hlater, hne', hsame⟩ := h.block block hmem hne
  obtain ⟨hlast, hne'', hsame'⟩ := hnext.block block hlater hne'
  exact ⟨hlast, hne'', fun place hle hlt => (hsame' place hle hlt).trans (hsame place hle hlt)⟩

/-- What is read outside the storage of the string does not change. -/
theorem Untouched.read (h : Untouched heap later own own') {block : Block} (hmem : block ∈ heap.blocks)
    (hne : some block ≠ own) (hwithin : Block.Within ⟨address, length⟩ block) :
    later.read address length = heap.read address length := by
  obtain ⟨hlow, hhigh⟩ := hwithin
  dsimp only at hlow hhigh
  exact read_congr fun place hle hlt => (h.block block hmem hne).2.2 place (by omega) (by omega)

theorem Untouched.of_same (hblocks : later.blocks = heap.blocks) (hbytes : later.bytes = heap.bytes)
    (own : Option Block) : Untouched heap later own own :=
  ⟨fun block hmem hne => ⟨by rw [hblocks]; exact hmem, hne, fun place _ _ => by rw [hbytes]⟩⟩

theorem Storage.string_block (h : Storage heap string base) :
    string.block = some ⟨base, string.capacity + 1⟩ := by
  rw [String.block, h.data]
  rfl

theorem Storage.live (h : Storage heap string base) {offset : ℕ} (hfits : offset + length ≤ string.capacity + 1) :
    heap.Live ⟨base + offset, length⟩ :=
  ⟨_, h.block, Nat.le_add_right _ _, by dsimp only; omega⟩

theorem Storage.store (h : Storage heap string base) {offset : ℕ}
    (hfits : offset + data.length ≤ string.capacity + 1) :
    heap.store (string.data.map (· + offset)) data = .ok (heap.write (base + offset) data) := by
  rw [h.data]
  exact store_ok (h.live hfits)

theorem Storage.terminate (h : Storage heap string base) {index : ℕ} (hfits : index ≤ string.capacity) :
    stringTerminate heap string index = .ok (heap.write (base + index) [0]) :=
  h.store (Nat.add_le_add_right hfits 1)

theorem Storage.write (h : Storage heap string base) (address : ℕ) (data : Bytes) :
    Storage (heap.write address data) string base :=
  ⟨h.data, h.block⟩

theorem Untouched.write (h : Untouched heap later own string.block) (hstorage : Storage later string base)
    {offset : ℕ} (hfits : offset + data.length ≤ string.capacity + 1) :
    Untouched heap (later.write (base + offset) data) own string.block := by
  refine ⟨fun block hmem hne => ?_⟩
  obtain ⟨hlater, hne', hsame⟩ := h.block block hmem hne
  refine ⟨hlater, hne', fun place hle hlt => ?_⟩
  rw [hstorage.string_block] at hne'
  have hapart := blocks_apart hlater hstorage.block fun heq => hne' (congrArg some heq)
  unfold Block.Apart at hapart
  dsimp only at hapart
  rw [write_bytes_apart (by omega)]
  exact hsame place hle hlt

/-- What was written there is the contents, with the NUL after it. -/
theorem Storage.stored (h : Storage heap string base) (hlength : string.length ≤ string.capacity)
    (hcapacity : string.capacity < SIZE_MAX) :
    Stored (heap.write (base + string.length) [0]) string base ∧
      contents (heap.write (base + string.length) [0]) string = heap.read base string.length := by
  refine ⟨⟨h.write _ _, hlength, hcapacity, ?_⟩, ?_⟩
  · exact @write_bytes _ heap (base + string.length) [0] 0 Nat.one_pos
  · rw [contents, h.data]
    exact read_write_apart (.inl (Nat.le_refl _))

theorem Stored.contents_eq (h : Stored heap string base) : contents heap string = heap.read base string.length := by
  rw [contents, h.data]

theorem contents_length (h : Valid heap string) : (contents heap string).length = string.length := by
  rcases h with hmissing | ⟨base, hstored⟩
  · rw [contents, hmissing.data, hmissing.length]
    rfl
  · rw [hstored.contents_eq, read_length]

theorem Missing.contents_eq (h : Missing string) : contents heap string = [] := by
  rw [contents, h.data]

/-- The string stays valid, with its contents, where its own block is left as it is. -/
theorem Valid.of_untouched (h : Valid heap string) (huntouched : Untouched heap later own own')
    (hown : string.block ≠ own ∨ string.data = none) :
    Valid later string ∧ contents later string = contents heap string ∧
      (string.block ≠ own' ∨ string.data = none) := by
  rcases h with hmissing | ⟨base, hstored⟩
  · exact ⟨.inl hmissing, by rw [hmissing.contents_eq, hmissing.contents_eq], .inr hmissing.data⟩
  · have hblock := hstored.string_block
    have hne : some ⟨base, string.capacity + 1⟩ ≠ own := by
      rcases hown with hne | hnone
      · rwa [hblock] at hne
      · rw [hstored.data] at hnone
        cases hnone
    obtain ⟨hlater, hne', hsame⟩ := huntouched.block _ hstored.block hne
    have hlength := hstored.length
    refine ⟨.inr ⟨base, ⟨hstored.data, hlater⟩, hlength, hstored.capacity, ?_⟩, ?_, .inl ?_⟩
    · rw [hsame _ (Nat.le_add_right _ _) (by dsimp only; omega)]
      exact hstored.nul
    · rw [contents, contents, hstored.data]
      exact read_congr fun place hle hlt => hsame place hle (by dsimp only; omega)
    · rwa [hblock]

end Ceasy.OwnedString
