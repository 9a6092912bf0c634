import Ceasy.Ownership
import Ceasy.StringMapOperations

set_option autoImplicit false

/-!
# Who frees what in a string map

A block belongs to the slot array, to the slot that refers to it, or to the caller that has a
value not yet passed, and to one of them only. Every operation keeps the accounts.
-/
namespace Ceasy.Collection
open StringView Allocator LinearProbing

variable {ω : Type*} {allocator : AllocatorAllocFn} {map : StringMap ω} {ledger later : Ledger}
  {held : Multiset Block}

/-- A value that refers to a block owns it. -/
def ValueOwned (value : StringMapValue ω) : Prop :=
  value.block ≠ none → value.ownsData = true ∧
    ((∃ string, value.data = .string string) ∨ ∃ data size, value.data = .object data size)

structure EntryOwned (entry : StringMapEntry ω) : Prop where
  key : entry.key.block ≠ none → entry.ownsKey = true
  value : ValueOwned entry.value

def entryBlocks (entry : StringMapEntry ω) : Multiset Block :=
  blockOf entry.key.block + blockOf entry.value.block

def mapBlocks (map : StringMap ω) : Multiset Block :=
  blockOf map.slotsBlock + ((entries map.slots).map entryBlocks).sum

structure Owned (map : StringMap ω) (ledger : Ledger) (held : Multiset Block) : Prop where
  invariant : Invariant map
  entries : ∀ entry ∈ LinearProbing.entries map.slots, EntryOwned entry
  accounts : Accounts ledger (mapBlocks map + held)

theorem release_owned {pointer : Option Block} {owns : Bool} (howned : pointer ≠ none → owns = true)
    (h : Accounts ledger (blockOf pointer + held)) :
    Accounts (if owns then release ledger pointer else ledger) held := by
  cases owns with
  | true => exact h.release
  | false =>
    cases pointer with
    | none => exact h.release
    | some block => cases howned (Option.some_ne_none block)

theorem valueRelease_owned (hinitialized : map.initialized = true) {value : StringMapValue ω}
    (howned : ValueOwned value) (h : Accounts ledger (blockOf value.block + held)) :
    Accounts (stringMapValueRelease map ledger value) held := by
  obtain ⟨data, pointer, owns⟩ := value
  cases pointer with
  | none =>
    have hsame : stringMapValueRelease map ledger ⟨data, none, owns⟩ = ledger := by
      unfold stringMapValueRelease
      split_ifs
      · rfl
      · cases data <;> rfl
    rw [hsame]
    exact h.release
  | some block =>
    obtain ⟨rfl, hdata⟩ := howned (Option.some_ne_none block)
    have hrelease : stringMapValueRelease map ledger ⟨data, some block, true⟩ =
        release ledger (some block) := by
      rw [stringMapValueRelease, hinitialized]
      rcases hdata with ⟨string, rfl⟩ | ⟨data, size, rfl⟩ <;> rfl
    rw [hrelease]
    exact h.release

theorem slotRelease_owned (hinitialized : map.initialized = true) {entry : StringMapEntry ω}
    (howned : EntryOwned entry) (h : Accounts ledger (entryBlocks entry + held)) :
    Accounts (stringMapSlotRelease map ledger entry) held := by
  rw [entryBlocks, add_assoc] at h
  exact valueRelease_owned hinitialized howned.value (release_owned howned.key h)

theorem mapBlocks_perm {slots : List (StringMapSlot ω)} (h : (entries slots).Perm (entries map.slots)) :
    ((entries slots).map entryBlocks).sum = ((entries map.slots).map entryBlocks).sum :=
  (h.map entryBlocks).sum_eq

theorem stringMapRehash_accounts (hinitialized : map.initialized = true)
    (h : Accounts ledger (mapBlocks map + held)) {newCapacity : ℕ} {out : Outcome ω}
    (hout : stringMapRehash allocator map ledger newCapacity = some out)
    (hperm : (entries out.map.slots).Perm (entries map.slots)) :
    Accounts out.ledger (mapBlocks out.map + held) := by
  unfold stringMapRehash at hout
  rw [if_neg (by simp [hinitialized])] at hout
  cases hbytes : stringMapSlotBytes newCapacity with
  | none =>
    rw [hbytes] at hout
    cases hout
    exact h
  | some bytes =>
    rw [hbytes] at hout
    dsimp only at hout
    rcases hallocate : allocate allocator ledger bytes with ⟨_ | block, later⟩
    · rw [hallocate] at hout
      cases hout
      have hrefused := h.allocate hallocate
      rwa [blockOf, zero_add] at hrefused
    · rw [hallocate] at hout
      dsimp only at hout
      obtain ⟨newSlots, -, rfl⟩ := Option.map_eq_some_iff.mp hout
      apply Accounts.release
      rw [mapBlocks, mapBlocks_perm hperm]
      have hgranted := h.allocate hallocate
      rwa [mapBlocks, add_assoc, add_left_comm, ← add_assoc (blockOf (some block))] at hgranted

theorem stringMapPrepareCapacity_owned (h : Owned map ledger held) {out : Outcome ω}
    (hout : stringMapPrepareCapacity allocator map ledger = some out)
    (hspec : PrepareSpec allocator map ledger out) : Owned out.map out.ledger held := by
  have hrehash : ∀ {newCapacity : ℕ}, stringMapRehash allocator map ledger newCapacity = some out →
      Accounts out.ledger (mapBlocks out.map + held) := fun hrehash =>
    stringMapRehash_accounts h.invariant.initialized h.accounts hrehash hspec.entries
  refine ⟨hspec.invariant, fun entry hmem => h.entries entry (hspec.entries.mem_iff.mp hmem), ?_⟩
  unfold stringMapPrepareCapacity at hout
  split_ifs at hout
  · exact hrehash hout
  · cases hout
    exact h.accounts
  · cases hout
    exact h.accounts
  · exact hrehash hout
  · cases hout
    exact h.accounts
  · exact hrehash hout

theorem copyBytes_owned {size : ℕ} {copy : Option (Option Block)} (h : Accounts ledger held)
    (hcopy : stringMapCopyBytes allocator ledger size = (copy, later)) :
    Accounts later (blockOf copy.join + held) := by
  unfold stringMapCopyBytes at hcopy
  split_ifs at hcopy
  · cases hcopy
    rwa [Option.join_some, blockOf, zero_add]
  · rcases hallocate : allocate allocator ledger size with ⟨_ | block, after⟩
    · rw [hallocate] at hcopy
      cases hcopy
      exact h.allocate hallocate
    · rw [hallocate] at hcopy
      cases hcopy
      exact h.allocate hallocate

theorem mapBlocks_set {index : ℕ} {old : StringMapSlot ω} (hold : map.slots[index]? = some old)
    (later : StringMap ω) {slot : StringMapSlot ω} (hslots : later.slots = map.slots.set index slot)
    (hblock : later.slotsBlock = map.slotsBlock) :
    ∃ rest, mapBlocks map = (old.held?.toList.map entryBlocks).sum + rest ∧
      mapBlocks later = (slot.held?.toList.map entryBlocks).sum + rest ∧
      ∀ entry ∈ entries later.slots, entry ∈ slot.held? ∨ entry ∈ entries map.slots := by
  obtain ⟨rest, hrest, hset⟩ := entries_set hold
  refine ⟨blockOf map.slotsBlock + (rest.map entryBlocks).sum, ?_, ?_, ?_⟩
  · rw [mapBlocks, (hrest.map entryBlocks).sum_eq, List.map_append, List.sum_append, add_left_comm]
  · rw [mapBlocks, hslots, hblock, ((hset slot).map entryBlocks).sum_eq, List.map_append,
      List.sum_append, add_left_comm]
  · intro entry hmem
    rw [hslots] at hmem
    rcases List.mem_append.mp ((hset slot).mem_iff.mp hmem) with hheld | hmem
    · exact .inl (Option.mem_toList.mp hheld)
    · exact .inr (hrest.mem_iff.mpr (List.mem_append_right _ hmem))

theorem stringMapReplace_owned {value : StringMapValue ω} (hvalue : ValueOwned value)
    (h : Owned map ledger (blockOf value.block + held)) {index : ℕ} {entry : StringMapEntry ω}
    (hentry : map.slots[index]? = some (.occupied entry))
    (hinvariant : Invariant (stringMapReplace map ledger index value).map) :
    Owned (stringMapReplace map ledger index value).map (stringMapReplace map ledger index value).ledger
      held := by
  have howned := h.entries entry (mem_entries.mpr ⟨index, hentry⟩)
  rw [stringMapReplace, slotAt_eq hentry] at hinvariant ⊢
  dsimp only at hinvariant ⊢
  obtain ⟨rest, hbefore, hafter, hentries⟩ := mapBlocks_set hentry
    { map with slots := map.slots.set index (.occupied { entry with value := value }) } rfl rfl
  refine ⟨hinvariant, ?_, valueRelease_owned h.invariant.initialized howned.value ?_⟩
  · intro other hmem
    rcases hentries other hmem with hnew | hold
    · obtain rfl := Option.some.inj hnew
      exact ⟨howned.key, hvalue⟩
    · exact h.entries other hold
  · have haccounts := h.accounts
    rw [hbefore] at haccounts
    rw [hafter]
    simp only [Slot.held?, Option.toList, List.map_cons, List.map_nil, List.sum_cons, List.sum_nil,
      entryBlocks, add_zero] at haccounts ⊢
    convert haccounts using 1
    abel

theorem stringMapInsert_owned {entry : StringMapEntry ω} (hentry : EntryOwned entry)
    (h : Owned map ledger (entryBlocks entry + held)) {index : ℕ} {old : StringMapSlot ω}
    (hold : map.slots[index]? = some old) (hfree : old.held? = none) {later : StringMap ω}
    (hslots : later.slots = map.slots.set index (.occupied entry))
    (hblock : later.slotsBlock = map.slotsBlock) (hinvariant : Invariant later) :
    Owned later ledger held := by
  obtain ⟨rest, hbefore, hafter, hentries⟩ := mapBlocks_set hold later hslots hblock
  refine ⟨hinvariant, ?_, ?_⟩
  · intro other hmem
    rcases hentries other hmem with hnew | hkept
    · obtain rfl := Option.some.inj hnew
      exact hentry
    · exact h.entries other hkept
  · have haccounts := h.accounts
    rw [hbefore, hfree] at haccounts
    rw [hafter]
    simp only [Slot.held?, Option.toList, List.map_cons, List.map_nil, List.sum_cons, List.sum_nil,
      add_zero, zero_add] at haccounts ⊢
    convert haccounts using 1
    abel

theorem copyKey_owned {key : Bytes} {copyKey : Bool} {copy : Option StringMapKey}
    (h : Accounts ledger held) (hcopy : (if copyKey then stringMapCopyKey allocator ledger key
      else (some ⟨key, none⟩, ledger)) = (copy, later)) :
    Accounts later (blockOf (copy.bind StringMapKey.block) + held) ∧
      ∀ stored, copy = some stored → stored.block ≠ none →
        (copyKey && decide (0 < key.length)) = true := by
  cases copyKey with
  | false =>
    cases hcopy
    refine ⟨by rwa [Option.bind_some, blockOf, zero_add], ?_⟩
    rintro stored ⟨⟩ hblock
    exact absurd rfl hblock
  | true =>
    rw [if_pos rfl] at hcopy
    unfold stringMapCopyKey at hcopy
    rcases hbytes : stringMapCopyBytes allocator ledger key.length with ⟨block, after⟩
    have hcopied := copyBytes_owned h hbytes
    rw [hbytes] at hcopy
    cases hcopy
    refine ⟨by cases block <;> exact hcopied, ?_⟩
    rintro stored hstored hblock
    rw [Bool.true_and, decide_eq_true_eq]
    by_contra hempty
    unfold stringMapCopyBytes at hbytes
    rw [if_pos (by omega)] at hbytes
    cases hbytes
    cases hstored
    exact hblock rfl

theorem Owned.refuse {value : StringMapValue ω} (hvalue : ValueOwned value)
    (h : Owned map ledger (blockOf value.block + held)) :
    Owned map (stringMapValueRelease map ledger value) held := by
  refine ⟨h.invariant, h.entries, valueRelease_owned h.invariant.initialized hvalue ?_⟩
  rw [add_left_comm]
  exact h.accounts

/-- Whatever a set comes to, the value and a copy of the key are the map's or freed. -/
theorem stringMapSetInternal_owned {value : StringMapValue ω} (hvalue : ValueOwned value)
    (h : Owned map ledger (blockOf value.block + held)) (key : Bytes) (copyKey : Bool) :
    ∃ out, stringMapSetInternal allocator map ledger key value copyKey = some out ∧
      Owned out.map out.ledger held := by
  obtain ⟨out, hout, hspec⟩ := stringMapSetInternal_spec allocator ledger h.invariant key value copyKey
  refine ⟨out, hout, ?_⟩
  have hinvariant := hspec.invariant
  unfold stringMapSetInternal at hout
  by_cases hinvalid : stringMapValueInvalid value = true
  · rw [if_pos (by simp [hinvalid])] at hout
    cases hout
    exact h.refuse hvalue
  rw [Bool.not_eq_true] at hinvalid
  rw [if_neg (by simp [hinvalid, h.invariant.initialized])] at hout
  dsimp only at hout
  cases hfound : (stringMapFindIndex map key (stringvHash key)).index with
  | some index =>
    obtain ⟨entry, hentry, -⟩ := findIndex_hit h.invariant hfound
    rw [hfound] at hout
    obtain rfl := Option.some.inj hout
    exact stringMapReplace_owned hvalue h hentry hinvariant
  | none =>
    rw [hfound] at hout
    dsimp only at hout
    rcases hcopy : (if copyKey then stringMapCopyKey allocator ledger key
      else (some ⟨key, none⟩, ledger)) with ⟨copy, copied⟩
    obtain ⟨haccounts, howns⟩ := copyKey_owned h.accounts hcopy
    rw [hcopy] at hout
    cases copy with
    | none =>
      cases hout
      rw [Option.bind_none, blockOf, zero_add] at haccounts
      exact Owned.refuse hvalue ⟨h.invariant, h.entries, haccounts⟩
    | some stored =>
      have hstored := howns stored rfl
      rw [Option.bind_some, add_left_comm] at haccounts
      obtain ⟨prepared, hprepare, hprepared⟩ :=
        stringMapPrepareCapacity_spec allocator copied h.invariant
      have hready := stringMapPrepareCapacity_owned ⟨h.invariant, h.entries, haccounts⟩ hprepare
        hprepared
      dsimp only at hout
      rw [hprepare, Option.bind_some] at hout
      by_cases hok : prepared.ok = true
      · rw [if_neg (by simp [hok])] at hout
        cases hagain : (stringMapFindIndex prepared.map key (stringvHash key)).index with
        | some index =>
          exact absurd hagain (findIndex_perm h.invariant hprepared.invariant hprepared.entries hfound)
        | none =>
          have hfree := findIndex_miss hprepared.invariant (by have := hprepared.room hok; omega) hagain
          have hbytes : stored.bytes = key := (copyKey_spec hcopy).2.2 stored rfl
          rw [hagain] at hout
          dsimp only at hout
          rw [← hbytes] at hout hfree
          obtain ⟨index, old, hold, hheld, -, -, -, hinsert⟩ := @stringMapInsert_slot _ _
            prepared.ledger hprepared.invariant (hprepared.room hok)
            ⟨stringvHash stored.bytes, stored, value, copyKey && decide (0 < stored.bytes.length)⟩ _ hfree rfl
          rw [hinsert] at hout
          cases hout
          rw [← hbytes] at hstored
          refine stringMapInsert_owned ⟨hstored, hvalue⟩ ?_ hold hheld rfl rfl hinvariant
          rw [entryBlocks, add_assoc]
          exact hready
      · rw [Bool.not_eq_true] at hok
        rw [if_pos (by simp [hok])] at hout
        cases hout
        refine Owned.refuse hvalue ⟨hready.invariant, hready.entries, release_owned hstored ?_⟩
        rw [add_left_comm]
        exact hready.accounts

theorem smRemove_owned (h : Owned map ledger held) (key : Bytes) :
    Owned (smRemove map ledger key).map (smRemove map ledger key).ledger held := by
  have hinvariant := (smRemove_spec ledger h.invariant key).1
  unfold smRemove at hinvariant ⊢
  cases hfound : (stringMapFindIndex map key (stringvHash key)).index with
  | none => exact h
  | some index =>
    obtain ⟨entry, hentry, -⟩ := findIndex_hit h.invariant hfound
    have howned := h.entries entry (mem_entries.mpr ⟨index, hentry⟩)
    rw [hfound] at hinvariant
    dsimp only at hinvariant ⊢
    rw [slotAt_eq hentry] at hinvariant ⊢
    obtain ⟨rest, hbefore, hafter, hentries⟩ := mapBlocks_set hentry
      { map with
        slots := map.slots.set index .tombstone
        length := map.length - 1
        tombstoneCount := map.tombstoneCount + 1 } rfl rfl
    refine ⟨hinvariant, ?_, slotRelease_owned h.invariant.initialized howned ?_⟩
    · intro other hmem
      rcases hentries other hmem with hnew | hkept
      · cases hnew
      · exact h.entries other hkept
    · have haccounts := h.accounts
      rw [hbefore] at haccounts
      rw [hafter]
      simp only [Slot.held?, Option.toList, List.map_cons, List.map_nil, List.sum_cons, List.sum_nil,
        add_zero, zero_add] at haccounts ⊢
      rwa [add_assoc] at haccounts

theorem slotReleases_owned (hinitialized : map.initialized = true) {entries : List (StringMapEntry ω)}
    (howned : ∀ entry ∈ entries, EntryOwned entry)
    (h : Accounts ledger ((entries.map entryBlocks).sum + held)) :
    Accounts (entries.foldl (stringMapSlotRelease map) ledger) held := by
  induction entries generalizing ledger with
  | nil =>
    rw [List.map_nil, List.sum_nil, zero_add] at h
    exact h
  | cons entry entries ih =>
    rw [List.map_cons, List.sum_cons, add_assoc] at h
    exact ih (fun other hmem => howned other (List.mem_cons_of_mem _ hmem))
      (slotRelease_owned hinitialized (howned entry List.mem_cons_self) h)

theorem smClear_owned (h : Owned map ledger held) : Owned (smClear map ledger).1 (smClear map ledger).2 held := by
  have hinvariant := (smClear_spec ledger h.invariant).1
  unfold smClear at hinvariant ⊢
  by_cases hcap : capacity map = 0
  · rw [if_pos (by simp [hcap])]
    exact h
  · rw [if_neg (by simp [hcap, h.invariant.initialized])] at hinvariant ⊢
    refine ⟨hinvariant, ?_, slotReleases_owned h.invariant.initialized h.entries ?_⟩
    · intro entry hmem
      rw [entries_replicate] at hmem
      cases hmem
    · rw [mapBlocks, entries_replicate, List.map_nil, List.sum_nil, add_zero, add_left_comm, ← add_assoc]
      exact h.accounts

theorem smClear_blocks (h : Invariant map) : mapBlocks (smClear map ledger).1 = blockOf map.slotsBlock := by
  unfold smClear
  by_cases hcap : capacity map = 0
  · rw [if_pos (by simp [hcap]), mapBlocks, List.length_eq_zero_iff.mp hcap]
    exact add_zero _
  · rw [if_neg (by simp [hcap, h.initialized]), mapBlocks, entries_replicate, List.map_nil,
      List.sum_nil, add_zero]

theorem smDestroy_accounts (h : Owned map ledger held) : Accounts (smDestroy map ledger).2 held := by
  have hcleared := (smClear_owned h).accounts
  rw [smClear_blocks h.invariant] at hcleared
  rw [smDestroy, if_pos h.invariant.initialized]
  have hsame : (smClear map ledger).1.slotsBlock = map.slotsBlock := by
    unfold smClear
    split_ifs <;> rfl
  dsimp only
  rw [hsame]
  exact hcleared.release

/-- What a caller does with its map. A value that was made is passed once, by its place among
those not yet passed. -/
inductive OwnerOperation (ω : Type*) where
  | stringCopy (value : Bytes)
  | object (data : Option ω) (size : ℕ)
  | borrowed (data : StringMapData ω)
  | setValue (key : Bytes) (place : ℕ)
  | setValueBorrowedKey (key : Bytes) (place : ℕ)
  | setStringView (key value : Bytes)
  | remove (key : Bytes)
  | clear

structure OwnerState (ω : Type*) where
  map : StringMap ω := smInit
  ledger : Ledger := []
  made : List (StringMapValue ω) := []

def ownerPass (state : OwnerState ω) (place : ℕ)
    (set : StringMapValue ω → Option (Outcome ω)) : Option (OwnerState ω) :=
  match state.made[place]? with
  | none => some state
  | some value => (set value).map fun out => ⟨out.map, out.ledger, state.made.eraseIdx place⟩

def ownerStep (allocator : AllocatorAllocFn) (state : OwnerState ω) :
    OwnerOperation ω → Option (OwnerState ω)
  | .stringCopy value =>
    let (copy, ledger) := smStringCopy allocator state.map state.ledger value
    some ⟨state.map, ledger, state.made ++ [copy]⟩
  | .object data size =>
    let (object, ledger) := smObject allocator state.map state.ledger data size
    some ⟨state.map, ledger, state.made ++ [object]⟩
  | .borrowed data => some { state with made := state.made ++ [{ data := data }] }
  | .setValue key place => ownerPass state place (smSetValue allocator state.map state.ledger key)
  | .setValueBorrowedKey key place =>
    ownerPass state place (smSetValueBorrowedKey allocator state.map state.ledger key)
  | .setStringView key value =>
    (smSetStringView allocator state.map state.ledger key value).map fun out =>
      ⟨out.map, out.ledger, state.made⟩
  | .remove key =>
    let out := smRemove state.map state.ledger key
    some ⟨out.map, out.ledger, state.made⟩
  | .clear =>
    let (map, ledger) := smClear state.map state.ledger
    some ⟨map, ledger, state.made⟩

def ownerRun (allocator : AllocatorAllocFn) (state : OwnerState ω) :
    List (OwnerOperation ω) → Option (OwnerState ω)
  | [] => some state
  | operation :: operations =>
    (ownerStep allocator state operation).bind fun state => ownerRun allocator state operations

def valuesBlocks (values : List (StringMapValue ω)) : Multiset Block :=
  (values.map fun value => blockOf value.block).sum

structure OwnerState.Sound (state : OwnerState ω) : Prop where
  owned : Owned state.map state.ledger (valuesBlocks state.made)
  made : ∀ value ∈ state.made, ValueOwned value

theorem valuesBlocks_append (values : List (StringMapValue ω)) (value : StringMapValue ω) :
    valuesBlocks (values ++ [value]) = blockOf value.block + valuesBlocks values := by
  rw [valuesBlocks, List.map_append, List.sum_append, List.map_singleton, List.sum_singleton, add_comm]
  rfl

theorem smStringCopy_owned (h : Owned map ledger held) (value : Bytes) :
    ValueOwned (smStringCopy allocator map ledger value).1 ∧
      Owned map (smStringCopy allocator map ledger value).2
        (blockOf (smStringCopy allocator map ledger value).1.block + held) := by
  unfold smStringCopy
  rw [if_neg (by simp [h.invariant.initialized])]
  rcases hcopy : stringMapCopyBytes allocator ledger value.length with ⟨_ | pointer, later⟩
  · refine ⟨fun hblock => absurd rfl hblock, h.invariant, h.entries, ?_⟩
    rw [add_left_comm]
    exact copyBytes_owned h.accounts hcopy
  · refine ⟨fun _ => ⟨rfl, .inl ⟨value, rfl⟩⟩, h.invariant, h.entries, ?_⟩
    rw [add_left_comm]
    exact copyBytes_owned h.accounts hcopy

theorem smObject_owned (h : Owned map ledger held) (data : Option ω) (size : ℕ) :
    ValueOwned (smObject allocator map ledger data size).1 ∧
      Owned map (smObject allocator map ledger data size).2
        (blockOf (smObject allocator map ledger data size).1.block + held) := by
  unfold smObject
  split_ifs
  · refine ⟨fun hblock => absurd rfl hblock, h.invariant, h.entries, ?_⟩
    rw [blockOf, zero_add]
    exact h.accounts
  · rcases hcopy : stringMapCopyBytes allocator ledger size with ⟨_ | pointer, later⟩
    · refine ⟨fun hblock => absurd rfl hblock, h.invariant, h.entries, ?_⟩
      rw [add_left_comm]
      exact copyBytes_owned h.accounts hcopy
    · refine ⟨fun _ => ⟨rfl, .inr ⟨data, size, rfl⟩⟩, h.invariant, h.entries, ?_⟩
      rw [add_left_comm]
      exact copyBytes_owned h.accounts hcopy

theorem ownerPass_sound {state : OwnerState ω} (h : state.Sound) (place : ℕ)
    {set : StringMapValue ω → Option (Outcome ω)}
    (hset : ∀ value held, ValueOwned value → Owned state.map state.ledger (blockOf value.block + held) →
      ∃ out, set value = some out ∧ Owned out.map out.ledger held) :
    ∃ later, ownerPass state place set = some later ∧ later.Sound := by
  unfold ownerPass
  cases hplace : state.made[place]? with
  | none => exact ⟨state, rfl, h⟩
  | some value =>
    obtain ⟨hlt, hvalue⟩ := List.getElem?_eq_some_iff.mp hplace
    have hperm := List.getElem_cons_eraseIdx_perm hlt
    rw [hvalue] at hperm
    have hblocks : valuesBlocks state.made =
        blockOf value.block + valuesBlocks (state.made.eraseIdx place) := by
      rw [valuesBlocks, ← (hperm.map fun value => blockOf value.block).sum_eq, List.map_cons, List.sum_cons]
      rfl
    have howned := h.owned
    rw [hblocks] at howned
    obtain ⟨out, hout, hlater⟩ := hset value _ (h.made value (List.mem_of_getElem? hplace)) howned
    dsimp only
    rw [hout]
    exact ⟨_, rfl, hlater, fun other hmem => h.made other (List.mem_of_mem_eraseIdx hmem)⟩

theorem ownerStep_sound {state : OwnerState ω} (h : state.Sound) (operation : OwnerOperation ω) :
    ∃ later, ownerStep allocator state operation = some later ∧ later.Sound := by
  have hmade : ∀ {made : StringMapValue ω}, ValueOwned made →
      ∀ value ∈ state.made ++ [made], ValueOwned value := by
    intro made hvalue value hmem
    rcases List.mem_append.mp hmem with hmem | hmem
    · exact h.made value hmem
    · rwa [List.mem_singleton.mp hmem]
  cases operation with
  | stringCopy value =>
    obtain ⟨hvalue, howned⟩ := @smStringCopy_owned _ allocator _ _ _ h.owned value
    refine ⟨_, rfl, ?_, hmade hvalue⟩
    rw [valuesBlocks_append]
    exact howned
  | object data size =>
    obtain ⟨hvalue, howned⟩ := @smObject_owned _ allocator _ _ _ h.owned data size
    refine ⟨_, rfl, ?_, hmade hvalue⟩
    rw [valuesBlocks_append]
    exact howned
  | borrowed data =>
    refine ⟨_, rfl, ?_, hmade fun hblock => absurd rfl hblock⟩
    rw [valuesBlocks_append, blockOf, zero_add]
    exact h.owned
  | setValue key place =>
    exact ownerPass_sound h place fun value held hvalue howned =>
      stringMapSetInternal_owned hvalue howned key true
  | setValueBorrowedKey key place =>
    exact ownerPass_sound h place fun value held hvalue howned =>
      stringMapSetInternal_owned hvalue howned key false
  | setStringView key value =>
    obtain ⟨hvalue, howned⟩ := @smStringCopy_owned _ allocator _ _ _ h.owned value
    obtain ⟨out, hout, hlater⟩ := @stringMapSetInternal_owned _ allocator _ _ _ _ hvalue howned key true
    refine ⟨⟨out.map, out.ledger, state.made⟩, ?_, hlater, h.made⟩
    rw [ownerStep, smSetStringView]
    dsimp only
    rw [smSetValue, hout]
    rfl
  | remove key => exact ⟨_, rfl, smRemove_owned h.owned key, h.made⟩
  | clear => exact ⟨_, rfl, smClear_owned h.owned, h.made⟩

theorem ownerRun_sound {state : OwnerState ω} (h : state.Sound) (operations : List (OwnerOperation ω)) :
    ∃ later, ownerRun allocator state operations = some later ∧ later.Sound := by
  induction operations generalizing state with
  | nil => exact ⟨state, rfl, h⟩
  | cons operation operations ih =>
    obtain ⟨next, hnext, hsound⟩ := @ownerStep_sound _ allocator _ h operation
    obtain ⟨later, hlater, hfinal⟩ := ih hsound
    exact ⟨later, by rw [ownerRun, hnext, Option.bind_some, hlater], hfinal⟩

theorem start_sound : ({} : OwnerState ω).Sound where
  owned := ⟨invariant_init, List.forall_mem_nil _, accounts_nil⟩
  made := List.forall_mem_nil _

/-- Every block is freed at most once and not while the map refers to it, which it does from one
place only; when a map is destroyed that every value was passed to, every block has been freed. -/
theorem stringMap_settles (allocator : AllocatorAllocFn) (operations : List (OwnerOperation ω)) :
    ∃ state, ownerRun allocator {} operations = some state ∧
      FreedOnce state.ledger ∧ (mapBlocks state.map).Nodup ∧
      (∀ block ∈ mapBlocks state.map, block ∉ freedBlocks state.ledger) ∧
      FreedOnce (smDestroy state.map state.ledger).2 ∧
      (state.made = [] → ∀ block ∈ grantedBlocks (smDestroy state.map state.ledger).2,
        block ∈ freedBlocks (smDestroy state.map state.ledger).2) := by
  obtain ⟨state, hrun, hsound⟩ := @ownerRun_sound ω allocator {} start_sound operations
  have hdestroyed := smDestroy_accounts hsound.owned
  have haccounts := hsound.owned.accounts
  refine ⟨state, hrun, haccounts.freedOnce, (Multiset.nodup_add.mp haccounts.held_nodup).1, ?_,
    hdestroyed.freedOnce, ?_⟩
  · intro block hmem
    exact (haccounts.held_granted (Multiset.mem_add.mpr (.inl hmem))).2
  · intro hmade block hgranted
    have hsettled := hdestroyed.settled
    rw [hmade, valuesBlocks, List.map_nil, List.sum_nil, add_zero] at hsettled
    rw [← Multiset.mem_coe, ← hsettled]
    exact Multiset.mem_coe.mpr hgranted

end Ceasy.Collection
