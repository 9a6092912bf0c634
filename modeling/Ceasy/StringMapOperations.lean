import Ceasy.StringMapInvariant

set_option autoImplicit false

/-!
# The operations of string maps

Every operation keeps the invariant and acts on the map's contents as the
operation of that name acts on a finite map from byte strings to values. A set
that is refused changes nothing, and is refused for a reason that can be named.
-/
namespace Ceasy.Collection
open StringView Allocator LinearProbing

variable {ω : Type*} {allocator : AllocatorAllocFn} {map : StringMap ω} {ledger : Ledger}

def mapContents (map : StringMap ω) (key : Bytes) : Option (StringMapData ω) :=
  (contents slotKey map.slots key).map fun slot => slot.value.data

def AtLimit (map : StringMap ω) : Prop := SIZE_MAX / sizeofStringMapSlot < capacity map * 2

theorem continues_valueRelease (map : StringMap ω) (ledger : Ledger) (value : StringMapValue ω) :
    Continues ledger (stringMapValueRelease map ledger value) := by
  unfold stringMapValueRelease
  split_ifs
  · exact List.prefix_refl _
  · split
    · exact continues_release _ _
    · exact continues_release _ _
    · exact List.prefix_refl _

theorem continues_copyBytes (allocator : AllocatorAllocFn) (ledger : Ledger) (size : ℕ) :
    Continues ledger (stringMapCopyBytes allocator ledger size).2 := by
  unfold stringMapCopyBytes
  split_ifs
  · exact List.prefix_refl _
  · have hcontinues := continues_allocate allocator ledger size
    split <;> rename_i h <;> rwa [h] at hcontinues

theorem refusedBetween_copyBytes (allocator : AllocatorAllocFn) (ledger : Ledger) (size : ℕ)
    (h : (stringMapCopyBytes allocator ledger size).1 = none) :
    RefusedBetween allocator ledger (stringMapCopyBytes allocator ledger size).2 := by
  unfold stringMapCopyBytes at *
  split_ifs at h ⊢
  have hrefused := refusedBetween_allocate allocator ledger size
  split at h <;> rename_i hallocate
  · rw [hallocate] at hrefused
    exact hrefused rfl
  · cases h

/-- A rehash keeps the entries; only its failure leaves the map as it was. -/
structure RehashSpec (allocator : AllocatorAllocFn) (map : StringMap ω) (ledger : Ledger) (newCapacity : ℕ) (out : Outcome ω) :
    Prop where
  continues : Continues ledger out.ledger
  refused : out.ok = false → out.map = map ∧
    (SIZE_MAX / sizeofStringMapSlot < newCapacity ∨ RefusedBetween allocator ledger out.ledger)
  invariant : Invariant out.map
  entries : (LinearProbing.entries out.map.slots).Perm (LinearProbing.entries map.slots)
  capacity : out.ok = true → capacity out.map = newCapacity ∧ out.map.tombstoneCount = 0

theorem slots_replicate {n : ℕ} (h : ∃ k, n = 2 ^ k) :
    Slots (List.replicate n (Slot.empty : StringMapSlot ω)) where
  powerOfTwo := by rwa [List.length_replicate]
  wellFormed := wellFormed_replicate n
  hashes slot hslot := by
    rw [entries_replicate] at hslot
    cases hslot

theorem invariant_hashes (h : Invariant map) :
    ∀ slot ∈ entries map.slots, slot.hash = stringvHash (slotKey slot) := by
  intro slot hslot
  refine (h.slots fun hcap => ?_).hashes slot hslot
  rw [List.length_eq_zero_iff.mp hcap] at hslot
  cases hslot

theorem invariant_nodup (h : Invariant map) : ((entries map.slots).map slotKey).Nodup := by
  by_cases hcap : capacity map = 0
  · rw [List.length_eq_zero_iff.mp hcap]
    exact List.nodup_nil
  · exact (h.slots hcap).wellFormed.nodup

theorem stringMapRehash_spec (allocator : AllocatorAllocFn) (ledger : Ledger) (h : Invariant map) {newCapacity : ℕ}
    (hpower : ∃ k, newCapacity = 2 ^ k) (hroom : map.length < newCapacity) :
    ∃ out, stringMapRehash allocator map ledger newCapacity = some out ∧
      RehashSpec allocator map ledger newCapacity out := by
  rw [stringMapRehash, if_neg (by simp [h.initialized])]
  cases hbytes : stringMapSlotBytes newCapacity with
  | none =>
    refine ⟨_, rfl, List.prefix_refl _, fun _ => ⟨rfl, .inl ?_⟩, h, .refl _, fun hok => by cases hok⟩
    unfold stringMapSlotBytes at hbytes
    split_ifs at hbytes with hsize
    omega
  | some bytes =>
    have hcontinues := continues_allocate allocator ledger bytes
    have hrefused := refusedBetween_allocate allocator ledger bytes
    have hfits : newCapacity ≤ SIZE_MAX / sizeofStringMapSlot := by
      unfold stringMapSlotBytes at hbytes
      split_ifs at hbytes with hsize
      omega
    dsimp only
    rcases hallocate : allocate allocator ledger bytes with ⟨_ | block, later⟩
    · rw [hallocate] at hcontinues hrefused
      exact ⟨_, rfl, hcontinues, fun _ => ⟨rfl, .inr (hrefused rfl)⟩, h, .refl _,
        fun hok => by cases hok⟩
    · rw [hallocate] at hcontinues
      have hempty := entries_replicate (ε := StringMapEntry ω) newCapacity
      obtain ⟨final, hloop, hlength, hfinal, hclean, hentries⟩ :=
        stringMapRehashLoop_spec (slots_replicate hpower) map.slots
          (by simp [Slot.isTombstone, List.countP_replicate])
          (by rw [hempty, List.length_replicate, ← h.length]; simpa using hroom)
          (invariant_hashes h) (by rw [hempty]; exact invariant_nodup h)
      rw [List.length_replicate] at hlength
      rw [hempty, List.nil_append] at hentries
      dsimp only
      rw [hloop]
      refine ⟨_, rfl, hcontinues.trans (continues_release _ _), fun hok => (by cases hok), ?_,
        hentries, fun _ => ⟨hlength, rfl⟩⟩
      exact
        { initialized := h.initialized
          slots := fun _ => hfinal
          length := by rw [h.length]; exact hentries.length_eq.symm
          tombstones := hclean.symm
          room := fun _ => by
            change map.length + 0 < final.length
            omega
          bytes := by
            change final.length ≤ _
            omega }

/-- After a successful preparation there is room for one entry more. -/
structure PrepareSpec (allocator : AllocatorAllocFn) (map : StringMap ω) (ledger : Ledger)
    (out : Outcome ω) : Prop where
  continues : Continues ledger out.ledger
  refused : out.ok = false →
    out.map = map ∧ (AtLimit map ∨ RefusedBetween allocator ledger out.ledger)
  invariant : Invariant out.map
  entries : (LinearProbing.entries out.map.slots).Perm (LinearProbing.entries map.slots)
  room : out.ok = true → out.map.length + out.map.tombstoneCount + 1 < capacity out.map
  capacity : capacity out.map ≤
    max STRING_MAP_INITIAL_CAPACITY (max (capacity map) (4 * (map.length + 1)))

theorem rehashSpec_length {newCapacity : ℕ} {out : Outcome ω} (h : Invariant map)
    (hspec : RehashSpec allocator map ledger newCapacity out) : out.map.length = map.length := by
  rw [hspec.invariant.length, h.length]
  exact hspec.entries.length_eq

theorem prepareSpec_rehash (h : Invariant map) {newCapacity : ℕ}
    (hpower : ∃ k, newCapacity = 2 ^ k) (hroom : map.length + 1 < newCapacity)
    (hlimit : SIZE_MAX / sizeofStringMapSlot < newCapacity → AtLimit map)
    (hbound : newCapacity ≤
      max STRING_MAP_INITIAL_CAPACITY (max (capacity map) (4 * (map.length + 1)))) :
    ∃ out, stringMapRehash allocator map ledger newCapacity = some out ∧
      PrepareSpec allocator map ledger out := by
  obtain ⟨out, hout, hspec⟩ := stringMapRehash_spec allocator ledger h hpower
    (by omega)
  refine ⟨out, hout, hspec.continues, fun hok => ?_, hspec.invariant, hspec.entries,
    fun hok => ?_, ?_⟩
  · obtain ⟨hmap, hwhy⟩ := hspec.refused hok
    exact ⟨hmap, hwhy.imp hlimit id⟩
  · obtain ⟨hcap, hclean⟩ := hspec.capacity hok
    rw [hcap, hclean, rehashSpec_length h hspec]
    exact hroom
  · cases hok : out.ok with
    | true => rwa [(hspec.capacity hok).1]
    | false =>
      rw [(hspec.refused hok).1]
      omega

theorem stringMapPrepareCapacity_spec (allocator : AllocatorAllocFn) (ledger : Ledger)
    (h : Invariant map) :
    ∃ out, stringMapPrepareCapacity allocator map ledger = some out ∧
      PrepareSpec allocator map ledger out := by
  have hbytes := h.bytes
  have hsize : SIZE_MAX / sizeofStringMapSlot ≤ SIZE_MAX / 2 ∧
      SIZE_MAX / sizeofStringMapSlot < SIZE_MAX := by decide
  have hinitial : STRING_MAP_INITIAL_CAPACITY ≤ SIZE_MAX / sizeofStringMapSlot := by decide
  unfold stringMapPrepareCapacity
  split_ifs with hcap hoverflow hload hsame hdouble
  · have hzero : map.length = 0 := by
      rw [h.length, List.length_eq_zero_iff.mp hcap]
      rfl
    exact prepareSpec_rehash h ⟨4, rfl⟩ (by rw [hzero]; decide) (fun hlarge => by omega) (by omega)
  · have hroom := h.room hcap
    simp only [Bool.or_eq_true, decide_eq_true_eq] at hoverflow
    omega
  · have hroom := h.room hcap
    refine ⟨_, rfl, List.prefix_refl _, fun hok => (by cases hok), h, .refl _, fun _ => ?_,
      by dsimp only; omega⟩
    simp only [stringMapLoadReached, Bool.not_eq_true', Bool.or_eq_false_iff,
      decide_eq_false_iff_not] at hload
    dsimp only
    omega
  · obtain ⟨hless, -⟩ := hsame
    obtain ⟨k, hk⟩ := (h.slots hcap).powerOfTwo
    exact prepareSpec_rehash h ⟨k, hk⟩ (by omega) (fun hlarge => by omega) (by omega)
  · omega
  · have hroom := h.room hcap
    obtain ⟨k, hk⟩ := (h.slots hcap).powerOfTwo
    -- doubling happens at a load of one half or more
    have hdoubled : capacity map * 2 ≤ 4 * (map.length + 1) := by
      simp only [stringMapLoadReached, Bool.not_eq_true', Bool.or_eq_false_iff,
        decide_eq_false_iff_not] at hload
      cases k with
      | zero =>
        rw [capacity, hk]
        omega
      | succ k =>
        rw [Nat.pow_succ] at hk
        unfold capacity at *
        omega
    exact prepareSpec_rehash h ⟨k + 1, by rw [capacity, hk, Nat.pow_succ]⟩ (by omega) id (by omega)

theorem mapContents_perm {later : StringMap ω} (h : Invariant map)
    (hperm : (entries later.slots).Perm (entries map.slots)) :
    mapContents later = mapContents map := by
  have hcontents : contents slotKey later.slots = contents slotKey map.slots :=
    (lookup_perm (invariant_nodup h) hperm.symm).symm
  funext key
  rw [mapContents, mapContents, hcontents]

theorem mapContents_update (later : StringMap ω) {key : Bytes}
    {stored : Option (StringMapEntry ω)} {data : Option (StringMapData ω)}
    (h : contents slotKey later.slots = Function.update (contents slotKey map.slots) key stored)
    (hdata : stored.map (fun slot => slot.value.data) = data) :
    mapContents later = Function.update (mapContents map) key data := by
  subst hdata
  funext other
  rw [mapContents, h]
  by_cases hkey : other = key
  · rw [hkey, Function.update_self, Function.update_self]
  · rw [Function.update_of_ne hkey, Function.update_of_ne hkey]
    rfl

/-- A map that has only grown is not larger than its entries need. -/
def Compact (map : StringMap ω) : Prop :=
  capacity map ≤ max STRING_MAP_INITIAL_CAPACITY (4 * map.length)

structure SetSpec (allocator : AllocatorAllocFn) (map : StringMap ω) (ledger : Ledger)
    (key : Bytes) (value : StringMapValue ω) (out : Outcome ω) : Prop where
  continues : Continues ledger out.ledger
  invariant : Invariant out.map
  done : out.ok = true → stringMapValueInvalid value = false ∧
    mapContents out.map = Function.update (mapContents map) key (some value.data)
  refused : out.ok = false → mapContents out.map = mapContents map ∧
    (stringMapValueInvalid value = true ∨ AtLimit map ∨ RefusedBetween allocator ledger out.ledger)
  compact : Compact map → Compact out.map

theorem stringMapReplace_spec (h : Invariant map) {key : Bytes} {index : ℕ}
    {slot : StringMapEntry ω} (hslot : map.slots[index]? = some (Slot.occupied slot))
    (hkey : slotKey slot = key) {value : StringMapValue ω}
    (hvalid : stringMapValueInvalid value = false) :
    SetSpec allocator map ledger key value (stringMapReplace map ledger index value) := by
  have hcap : capacity map ≠ 0 := by
    have := (List.getElem?_eq_some_iff.mp hslot).1
    unfold capacity
    omega
  have hslots := h.slots hcap
  have hsame : slotKey { slot with value := value } = slotKey slot := rfl
  obtain ⟨rest, hrest, hset⟩ := entries_set hslot
  have hnew := hset (.occupied { slot with value := value })
  have hcount := countP_set hslot Slot.isTombstone (.occupied { slot with value := value })
  rw [stringMapReplace, slotAt_eq hslot]
  refine ⟨continues_valueRelease _ _ _, ?_, fun _ => ⟨hvalid, ?_⟩, fun hok => (by cases hok),
    fun hcompact => ?_⟩
  · exact
      { initialized := h.initialized
        slots := fun _ =>
          { powerOfTwo := by rw [List.length_set]; exact hslots.powerOfTwo
            wellFormed := by
              rw [List.length_set]
              exact hslots.wellFormed.replace hslot hsame
            hashes := fun other hother => by
              rcases List.mem_cons.mp (hnew.mem_iff.mp hother) with rfl | hmem
              · exact hslots.hashes slot (mem_entries.mpr ⟨index, hslot⟩)
              · exact hslots.hashes other (hrest.mem_iff.mpr (List.mem_cons_of_mem slot hmem)) }
        length := by
          rw [h.length, hrest.length_eq]
          exact hnew.length_eq.symm
        tombstones := by
          rw [h.tombstones]
          exact hcount.symm
        room := fun _ => by
          have hroom := h.room hcap
          rwa [capacity, List.length_set]
        bytes := by
          rw [capacity, List.length_set]
          exact h.bytes }
  · rw [← hkey]
    exact mapContents_update _ (contents_replace hslots.wellFormed hslot hsame) rfl
  · rwa [Compact, capacity, List.length_set]

theorem freeSlot_fill {slots : List (StringMapSlot ω)} (hslots : Slots slots)
    {slot : StringMapEntry ω} (hhash : slot.hash = stringvHash (slotKey slot)) {p : ℕ}
    {old : StringMapSlot ω} (habsent : slotKey slot ∉ (entries slots).map slotKey)
    (hp : slots[p]? = some old) (hold : old.held? = none)
    (hreach : Reached slots (keyIndex slots.length (slotKey slot)) p) :
    Slots (slots.set p (.occupied slot)) ∧
      (entries (slots.set p (.occupied slot))).length = (entries slots).length + 1 ∧
      contents slotKey (slots.set p (.occupied slot)) =
        Function.update (contents slotKey slots) (slotKey slot) (some slot) := by
  have hnext := slots_insert hslots hp hold habsent hreach hhash
  have hwell := hnext.wellFormed
  rw [List.length_set] at hwell
  exact ⟨hnext, (entries_insert slot hp hold).length_eq,
    contents_insert hslots.wellFormed hp hold hwell⟩

structure InsertSpec (map : StringMap ω) (ledger : Ledger) (slot : StringMapEntry ω)
    (out : Outcome ω) : Prop where
  ok : out.ok = true
  ledger : out.ledger = ledger
  invariant : Invariant out.map
  contents : mapContents out.map =
    Function.update (mapContents map) (slotKey slot) (some slot.value.data)
  capacity : capacity out.map = capacity map
  length : out.map.length = map.length + 1

theorem stringMapInsert_slot (ledger : Ledger) (h : Invariant map)
    (hroom : map.length + map.tombstoneCount + 1 < capacity map) {slot : StringMapEntry ω}
    {firstTombstone : Option ℕ} (hfree : FreeSlot map.slots (slotKey slot) firstTombstone)
    (hhash : slot.hash = stringvHash (slotKey slot)) :
    ∃ index old, map.slots[index]? = some old ∧ old.held? = none ∧
      (∀ p, firstTombstone = some p → index = p ∧ old = .tombstone) ∧
      (firstTombstone = none → old = .empty) ∧
      Reached map.slots (keyIndex map.slots.length (slotKey slot)) index ∧
      stringMapInsert map ledger firstTombstone slot = some ⟨true, { map with
        slots := map.slots.set index (.occupied slot)
        tombstoneCount := map.tombstoneCount - (if firstTombstone = none then 0 else 1)
        length := map.length + 1 }, ledger⟩ := by
  have hslots := h.slots (by omega)
  cases firstTombstone with
  | some index =>
    obtain ⟨hp, hreach⟩ := hfree.tombstone index rfl
    exact ⟨index, .tombstone, hp, rfl, fun p hp => ⟨Option.some.inj hp, rfl⟩, fun hno => (by cases hno),
      hreach, rfl⟩
  | none =>
    obtain ⟨i, hi, hp, hocc⟩ := hfree.empty rfl
    have hindex : stringMapFreeIndex map.slots (capacity map) (slotIndex slot.hash (capacity map)) =
        some (position map.slots.length (keyIndex map.slots.length (slotKey slot)) i) := by
      have hstart := position_zero
        (slotIndex_lt (by omega : 0 < map.slots.length) (stringvHash (slotKey slot)))
      rw [hhash, capacity, ← hstart]
      exact stringMapFreeIndex_eq hslots.powerOfTwo hocc hp rfl (Nat.zero_le i) (by omega)
    refine ⟨_, .empty, hp, rfl, fun p hno => (by cases hno), fun _ => rfl, reached_occupied hi hocc, ?_⟩
    rw [stringMapInsert, hindex]
    rfl

theorem stringMapInsert_spec (ledger : Ledger) (h : Invariant map)
    (hroom : map.length + map.tombstoneCount + 1 < capacity map) {slot : StringMapEntry ω}
    {firstTombstone : Option ℕ} (hfree : FreeSlot map.slots (slotKey slot) firstTombstone)
    (hhash : slot.hash = stringvHash (slotKey slot)) :
    ∃ out, stringMapInsert map ledger firstTombstone slot = some out ∧
      InsertSpec map ledger slot out := by
  have hslots := h.slots (by omega)
  obtain ⟨index, old, hp, hold, htombstone, hempty, hreach, hinsert⟩ :=
    stringMapInsert_slot ledger h hroom hfree hhash
  obtain ⟨hnext, hlength, hcontents⟩ := freeSlot_fill hslots hhash hfree.absent hp hold hreach
  have hcount := countP_insert slot hp
  have htombs := h.tombstones
  have hlater : (map.slots.set index (.occupied slot)).countP Slot.isTombstone =
      map.tombstoneCount - (if firstTombstone = none then 0 else 1) := by
    cases firstTombstone with
    | none =>
      rw [hempty rfl] at hcount
      change _ + 0 = _ at hcount
      rw [if_pos rfl]
      omega
    | some p =>
      rw [(htombstone p rfl).2] at hcount
      change _ + 1 = _ at hcount
      rw [if_neg (Option.some_ne_none p)]
      omega
  refine ⟨_, hinsert, rfl, rfl, ?_, mapContents_update _ hcontents rfl, List.length_set, rfl⟩
  exact
    { initialized := h.initialized
      slots := fun _ => hnext
      length := by
        rw [hlength, h.length]
      tombstones := hlater.symm
      room := fun _ => by
        rw [capacity, List.length_set]
        unfold capacity at hroom
        dsimp only
        omega
      bytes := by
        rw [capacity, List.length_set]
        exact h.bytes }

theorem mapContents_zero (hcap : capacity map = 0) : mapContents map = fun _ => none := by
  funext key
  rw [mapContents, List.length_eq_zero_iff.mp hcap]
  rfl

theorem findIndex_hit (h : Invariant map) {key : Bytes} {index : ℕ}
    (hfound : (stringMapFindIndex map key (stringvHash key)).index = some index) :
    ∃ slot, map.slots[index]? = some (Slot.occupied slot) ∧ slotKey slot = key := by
  have hcap : capacity map ≠ 0 := fun hcap => by
    rw [stringMapFindIndex_none hcap] at hfound
    cases hfound
  have hspec := stringMapFindIndex_spec h hcap key
  generalize stringMapFindIndex map key (stringvHash key) = found at hspec hfound
  cases hspec with
  | hit hslot hkey =>
    cases hfound
    exact ⟨_, hslot, hkey⟩
  | miss hfree => cases hfound

theorem findIndex_miss (h : Invariant map) (hcap : capacity map ≠ 0) {key : Bytes}
    (hfound : (stringMapFindIndex map key (stringvHash key)).index = none) :
    FreeSlot map.slots key (stringMapFindIndex map key (stringvHash key)).firstTombstone := by
  have hspec := stringMapFindIndex_spec h hcap key
  generalize stringMapFindIndex map key (stringvHash key) = found at hspec hfound
  cases hspec with
  | hit hslot hkey => cases hfound
  | miss hfree => exact hfree

theorem setSpec_refused (h : Invariant map) {key : Bytes} {value : StringMapValue ω}
    {later : Ledger} (hcontinues : Continues ledger later)
    (hwhy : stringMapValueInvalid value = true ∨ AtLimit map ∨ RefusedBetween allocator ledger later) :
    SetSpec allocator map ledger key value ⟨false, map, stringMapValueRelease map later value⟩ where
  continues := hcontinues.trans (continues_valueRelease _ _ _)
  invariant := h
  done hok := by cases hok
  refused _ := ⟨rfl, hwhy.imp_right (Or.imp_right fun hrefused =>
    hrefused.after (continues_valueRelease _ _ _))⟩
  compact hcompact := hcompact

theorem findIndex_perm {later : StringMap ω} {key : Bytes} {index : ℕ} (h : Invariant map)
    (hlater : Invariant later) (hperm : (entries later.slots).Perm (entries map.slots))
    (hmiss : (stringMapFindIndex map key (stringvHash key)).index = none) :
    (stringMapFindIndex later key (stringvHash key)).index ≠ some index := by
  intro hfound
  obtain ⟨slot, hslot, hkey⟩ := findIndex_hit hlater hfound
  have hmem := hperm.mem_iff.mp (mem_entries.mpr ⟨index, hslot⟩)
  have hcap : capacity map ≠ 0 := fun hcap => by
    rw [List.length_eq_zero_iff.mp hcap] at hmem
    cases hmem
  exact (findIndex_miss h hcap hmiss).absent (hkey ▸ List.mem_map_of_mem hmem)

theorem continues_keyRelease (ownsKey : Bool) (ledger : Ledger) (block : Option Block) :
    Continues ledger (if ownsKey then release ledger block else ledger) := by
  split_ifs
  · exact continues_release _ _
  · exact List.prefix_refl _

theorem copyKey_spec {key : Bytes} {copyKey : Bool} {copy : Option StringMapKey} {later : Ledger}
    (h : (if copyKey then stringMapCopyKey allocator ledger key
      else (some ⟨key, none⟩, ledger)) = (copy, later)) :
    Continues ledger later ∧ (copy = none → RefusedBetween allocator ledger later) ∧
      ∀ stored, copy = some stored → stored.bytes = key := by
  split_ifs at h
  · have hcontinues := continues_copyBytes allocator ledger key.length
    have hrefused := refusedBetween_copyBytes allocator ledger key.length
    unfold stringMapCopyKey at h
    rcases hcopy : stringMapCopyBytes allocator ledger key.length with ⟨block, after⟩
    rw [hcopy] at h hcontinues hrefused
    cases h
    refine ⟨hcontinues, fun hnone => hrefused (Option.map_eq_none_iff.mp hnone), ?_⟩
    intro stored hstored
    obtain ⟨pointer, -, rfl⟩ := Option.map_eq_some_iff.mp hstored
    rfl
  · cases h
    refine ⟨List.prefix_refl _, fun hnone => (by cases hnone), fun stored hstored => ?_⟩
    cases hstored
    rfl

theorem stringMapSetInternal_spec (allocator : AllocatorAllocFn) (ledger : Ledger)
    (h : Invariant map) (key : Bytes) (value : StringMapValue ω) (copyKey : Bool) :
    ∃ out, stringMapSetInternal allocator map ledger key value copyKey = some out ∧
      SetSpec allocator map ledger key value out := by
  unfold stringMapSetInternal
  by_cases hinvalid : stringMapValueInvalid value = true
  · rw [if_pos (by simp [hinvalid])]
    exact ⟨_, rfl, setSpec_refused h (List.prefix_refl _) (.inl hinvalid)⟩
  rw [Bool.not_eq_true] at hinvalid
  rw [if_neg (by simp [hinvalid, h.initialized])]
  dsimp only
  cases hfound : (stringMapFindIndex map key (stringvHash key)).index with
  | some index =>
    obtain ⟨slot, hslot, hkey⟩ := findIndex_hit h hfound
    exact ⟨_, rfl, stringMapReplace_spec h hslot hkey hinvalid⟩
  | none =>
    dsimp only
    rcases hcopy : (if copyKey then stringMapCopyKey allocator ledger key
      else (some ⟨key, none⟩, ledger)) with ⟨copy, copied⟩
    obtain ⟨hcontinues, hrefused, hbytes⟩ := copyKey_spec hcopy
    cases copy with
    | none => exact ⟨_, rfl, setSpec_refused h hcontinues (.inr (.inr (hrefused rfl)))⟩
    | some stored =>
      obtain ⟨prepared, hprepare, hspec⟩ :=
        stringMapPrepareCapacity_spec allocator copied h
      dsimp only
      rw [hprepare, Option.bind_some]
      have hafter := hcontinues.trans hspec.continues
      by_cases hok : prepared.ok = true
      · rw [if_neg (by simp [hok])]
        have hroom := hspec.room hok
        have hcontents := mapContents_perm h hspec.entries
        cases hagain : (stringMapFindIndex prepared.map key (stringvHash key)).index with
        | some index => exact absurd hagain (findIndex_perm h hspec.invariant hspec.entries hfound)
        | none =>
          have hfree := findIndex_miss hspec.invariant (by omega) hagain
          have hkey : slotKey (⟨stringvHash key, stored, value,
              copyKey && decide (0 < key.length)⟩ : StringMapEntry ω) = key := hbytes stored rfl
          rw [← hkey] at hfree
          obtain ⟨out, hout, hinsert⟩ := stringMapInsert_spec prepared.ledger hspec.invariant hroom
            hfree (by rw [hkey])
          have hupdate := hinsert.contents
          rw [hkey, hcontents] at hupdate
          have hlength : prepared.map.length = map.length := by
            rw [hspec.invariant.length, h.length]
            exact hspec.entries.length_eq
          refine ⟨out, by rwa [hkey] at hout, ?_, hinsert.invariant, fun _ => ⟨hinvalid, hupdate⟩,
            fun hrefused => ?_, fun hcompact => ?_⟩
          · rw [hinsert.ledger]
            exact hafter
          · rw [hinsert.ok] at hrefused
            cases hrefused
          · have hbound := hspec.capacity
            unfold Compact at *
            rw [hinsert.capacity, hinsert.length, hlength]
            omega
      · rw [Bool.not_eq_true] at hok
        rw [if_pos (by simp [hok])]
        obtain ⟨hmap, hwhy⟩ := hspec.refused hok
        rw [hmap]
        exact ⟨_, rfl, setSpec_refused h (hafter.trans (continues_keyRelease _ _ _))
          (.inr (hwhy.imp_right fun hrefused => (hrefused.before hcontinues).after
            (continues_keyRelease _ _ _)))⟩

theorem smGet_spec (h : Invariant map) (key : Bytes) :
    (smGet map key).map StringMapValue.data = mapContents map key := by
  by_cases hcap : capacity map = 0
  · rw [smGet, stringMapFindIndex_none hcap, mapContents_zero hcap]
    rfl
  have hslots := h.slots hcap
  unfold smGet
  cases hfound : (stringMapFindIndex map key (stringvHash key)).index with
  | some index =>
    obtain ⟨slot, hslot, hkey⟩ := findIndex_hit h hfound
    have hcontents := (contents_eq_some hslots.wellFormed).mpr ⟨index, hslot, hkey⟩
    rw [mapContents, hcontents, Option.bind_some, slotAt_eq hslot]
    rfl
  | none =>
    have hfree := findIndex_miss h hcap hfound
    rw [mapContents, contents, lookup_eq_none.mpr hfree.absent]
    rfl

theorem smGetObjectConst_eq (h : Invariant map) (key : Bytes) (expectedSize : ℕ) :
    smGetObjectConst map key expectedSize =
      match mapContents map key with
      | some (.object data size) => if size = expectedSize then data else none
      | _ => none := by
  rw [← smGet_spec h, smGetObjectConst]
  cases smGet map key with
  | none => rfl
  | some value =>
    obtain ⟨data, block, ownsData⟩ := value
    cases data <;> rfl

theorem smRemove_spec (ledger : Ledger) (h : Invariant map) (key : Bytes) :
    Invariant (smRemove map ledger key).map ∧
      (smRemove map ledger key).ok = (mapContents map key).isSome ∧
      mapContents (smRemove map ledger key).map =
        Function.update (mapContents map) key none := by
  have hget := smGet_spec h key
  unfold smGet at hget
  unfold smRemove
  cases hfound : (stringMapFindIndex map key (stringvHash key)).index with
  | none =>
    rw [hfound] at hget
    have hnone : mapContents map key = none := hget.symm
    exact ⟨h, by rw [hnone]; rfl, by rw [← hnone, Function.update_eq_self]⟩
  | some index =>
    obtain ⟨slot, hslot, hkey⟩ := findIndex_hit h hfound
    have hcap : capacity map ≠ 0 := by
      have := (List.getElem?_eq_some_iff.mp hslot).1
      unfold capacity
      omega
    have hslots := h.slots hcap
    rw [hfound, Option.bind_some, slotAt_eq hslot] at hget
    obtain ⟨rest, hrest, hset⟩ := entries_set hslot
    have hrestLength := hrest.length_eq
    have hsetLength := (hset .tombstone).length_eq
    have hcount := countP_set hslot Slot.isTombstone .tombstone
    have hlength := h.length
    have htombs := h.tombstones
    simp only [Slot.isTombstone, if_true, Bool.false_eq_true, if_false, Nat.add_zero] at hcount
    simp only [Slot.held?, Option.toList, List.singleton_append, List.nil_append,
      List.length_cons] at hrestLength hsetLength
    dsimp only
    rw [slotAt_eq hslot]
    refine ⟨?_, by rw [← hget]; rfl, ?_⟩
    · exact
        { initialized := h.initialized
          slots := fun _ =>
            { powerOfTwo := by rw [List.length_set]; exact hslots.powerOfTwo
              wellFormed := by
                rw [List.length_set]
                exact hslots.wellFormed.remove hslot
              hashes := fun other hother => hslots.hashes other
                (hrest.mem_iff.mpr (List.mem_cons_of_mem slot ((hset _).mem_iff.mp hother))) }
          length := by
            dsimp only
            omega
          tombstones := by
            dsimp only
            omega
          room := fun _ => by
            have hroom := h.room hcap
            rw [capacity, List.length_set]
            unfold capacity at hroom
            dsimp only
            omega
          bytes := by
            rw [capacity, List.length_set]
            exact h.bytes }
    · rw [← hkey]
      exact mapContents_update _ (contents_remove hslots.wellFormed hslot) rfl

theorem smClear_spec (ledger : Ledger) (h : Invariant map) :
    Invariant (smClear map ledger).1 ∧ mapContents (smClear map ledger).1 = fun _ => none := by
  unfold smClear
  by_cases hcap : capacity map = 0
  · rw [if_pos (by simp [hcap])]
    exact ⟨h, mapContents_zero hcap⟩
  · rw [if_neg (by simp [hcap, h.initialized])]
    refine ⟨?_, ?_⟩
    · exact
        { initialized := h.initialized
          slots := fun _ => slots_replicate (h.slots hcap).powerOfTwo
          length := by rw [entries_replicate]; rfl
          tombstones := by simp [Slot.isTombstone, List.countP_replicate]
          room := fun _ => by
            change 0 + 0 < (List.replicate (capacity map) (Slot.empty : StringMapSlot ω)).length
            rw [List.length_replicate]
            exact Nat.pos_of_ne_zero hcap
          bytes := by
            change (List.replicate (capacity map) (Slot.empty : StringMapSlot ω)).length ≤ _
            rw [List.length_replicate]
            exact h.bytes }
    · funext key
      rw [mapContents, contents_replicate]
      rfl

/-- An iteration from an index on meets the entries of the slots behind it. -/
theorem smIterate_drop (map : StringMap ω) (iterator : ℕ) :
    smIterate map iterator = entries (map.slots.drop iterator) := by
  induction hn : capacity map - iterator using Nat.strongRecOn generalizing iterator with
  | _ n ih =>
    rw [smIterate, smNext]
    by_cases hlt : iterator < capacity map
    · rw [dif_pos hlt]
      have hget := slotAt_get hlt
      obtain ⟨hbound, helem⟩ := List.getElem?_eq_some_iff.mp hget
      rw [List.drop_eq_getElem_cons hbound, helem]
      cases hat : slotAt map.slots iterator with
      | occupied slot =>
        dsimp only
        rw [ih _ (by omega) _ rfl]
        rfl
      | empty =>
        dsimp only
        rw [← smIterate, ih _ (by omega) _ rfl]
        rfl
      | tombstone =>
        dsimp only
        rw [← smIterate, ih _ (by omega) _ rfl]
        rfl
    · rw [dif_neg hlt, List.drop_eq_nil_iff.mpr (by unfold capacity at hlt; omega)]
      rfl

theorem smIterate_entries (map : StringMap ω) : smIterate map 0 = entries map.slots :=
  smIterate_drop map 0

theorem mapContents_eq_some (h : Invariant map) {key : Bytes} {data : StringMapData ω} :
    mapContents map key = some data ↔
      ∃ slot ∈ entries map.slots, slotKey slot = key ∧ slot.value.data = data := by
  rw [mapContents, Option.map_eq_some_iff]
  constructor
  · rintro ⟨slot, hslot, rfl⟩
    obtain ⟨hmem, hkey⟩ := (lookup_eq_some (invariant_nodup h)).mp hslot
    exact ⟨slot, hmem, hkey, rfl⟩
  · rintro ⟨slot, hmem, hkey, rfl⟩
    exact ⟨slot, (lookup_eq_some (invariant_nodup h)).mpr ⟨hmem, hkey⟩, rfl⟩

theorem mapContents_ncard (h : Invariant map) :
    {key | (mapContents map key).isSome}.ncard = map.length := by
  classical
  have hset : {key | (mapContents map key).isSome} =
      (((entries map.slots).map slotKey).toFinset : Set Bytes) := by
    ext key
    simp only [Set.mem_ofPred_eq, Option.isSome_iff_exists, mapContents_eq_some h,
      List.coe_toFinset, List.mem_map]
    constructor
    · rintro ⟨data, slot, hmem, hkey, -⟩
      exact ⟨slot, hmem, hkey⟩
    · rintro ⟨slot, hmem, hkey⟩
      exact ⟨_, slot, hmem, hkey, rfl⟩
  rw [hset, Set.ncard_coe_finset, List.toFinset_card_of_nodup (invariant_nodup h),
    List.length_map, h.length]

/-- The copy of a string is the string, unless the allocator refuses it. -/
theorem smStringCopy_spec (allocator : AllocatorAllocFn) (ledger : Ledger) (h : Invariant map)
    (value : Bytes) :
    Continues ledger (smStringCopy allocator map ledger value).2 ∧
      ((smStringCopy allocator map ledger value).1.data = .string value ∨
        (smStringCopy allocator map ledger value).1 = {} ∧
          RefusedBetween allocator ledger (smStringCopy allocator map ledger value).2) := by
  have hcontinues := continues_copyBytes allocator ledger value.length
  have hrefused := refusedBetween_copyBytes allocator ledger value.length
  rw [smStringCopy, if_neg (by simp [h.initialized])]
  rcases hcopy : stringMapCopyBytes allocator ledger value.length with ⟨_ | block, later⟩
  · rw [hcopy] at hcontinues hrefused
    exact ⟨hcontinues, .inr ⟨rfl, hrefused rfl⟩⟩
  · rw [hcopy] at hcontinues
    exact ⟨hcontinues, .inl rfl⟩

theorem smSetStringView_spec (allocator : AllocatorAllocFn) (ledger : Ledger) (h : Invariant map)
    (key value : Bytes) :
    ∃ out, smSetStringView allocator map ledger key value = some out ∧
      SetSpec allocator map ledger key (smStringBorrowed value) out := by
  obtain ⟨hcontinues, hcopy⟩ := smStringCopy_spec allocator ledger h value
  change ∃ out, stringMapSetInternal allocator map (smStringCopy allocator map ledger value).2 key
    (smStringCopy allocator map ledger value).1 true = some out ∧ _
  obtain ⟨out, hout, hspec⟩ := stringMapSetInternal_spec allocator
    (smStringCopy allocator map ledger value).2 h key (smStringCopy allocator map ledger value).1 true
  refine ⟨out, hout, ⟨hcontinues.trans hspec.continues, hspec.invariant, fun hok => ?_,
    fun hok => ?_, hspec.compact⟩⟩
  · rcases hcopy with hdata | ⟨hempty, -⟩
    · have hdone := (hspec.done hok).2
      rw [hdata] at hdone
      exact ⟨rfl, hdone⟩
    · have hvalid := (hspec.done hok).1
      rw [hempty] at hvalid
      cases hvalid
  · obtain ⟨hcontents, hwhy⟩ := hspec.refused hok
    refine ⟨hcontents, .inr ?_⟩
    rcases hcopy with hdata | ⟨-, hrefused⟩
    · rcases hwhy with hinvalid | hlimit
      · rw [stringMapValueInvalid, hdata] at hinvalid
        cases hinvalid
      · exact hlimit.imp_right fun hrefused => hrefused.before hcontinues
    · exact .inr (hrefused.after hspec.continues)

/-- Where memory is never short, a valid value is stored in a map of moderate size. -/
theorem setSpec_grants {key : Bytes} {value : StringMapValue ω} {out : Outcome ω}
    (hspec : SetSpec allocatorGrants map ledger key value out)
    (hvalid : stringMapValueInvalid value = false) (hlimit : ¬ AtLimit map) :
    out.ok = true ∧ mapContents out.map = Function.update (mapContents map) key (some value.data) := by
  have hok : out.ok = true := by
    by_contra hok
    rw [Bool.not_eq_true] at hok
    rcases (hspec.refused hok).2 with hinvalid | hat | hrefused
    · rw [hvalid] at hinvalid
      cases hinvalid
    · exact hlimit hat
    · exact not_refusedBetween_grants _ _ hrefused
  exact ⟨hok, (hspec.done hok).2⟩

end Ceasy.Collection
