import Ceasy.StringMap

set_option autoImplicit false

/-!
# The invariant of string maps

The capacity is a power of two, the slots are a well-formed probing table under
the keys' hashes, the counters count and at least one slot is empty. Each helper
of the map has one lemma here, stated over this invariant.
-/
namespace Ceasy.Collection
open StringView Allocator LinearProbing

variable {ω : Type*}

def slotKey (slot : StringMapEntry ω) : Bytes := slot.key.bytes

def keyIndex (capacity : ℕ) (key : Bytes) : ℕ := slotIndex (stringvHash key) capacity

/-- Slots as a table: their number is a power of two and each keeps its key's hash. -/
structure Slots (slots : List (StringMapSlot ω)) : Prop where
  powerOfTwo : ∃ k, slots.length = 2 ^ k
  wellFormed : WellFormed (keyIndex slots.length) slotKey slots
  hashes : ∀ slot ∈ entries slots, slot.hash = stringvHash (slotKey slot)

structure Invariant (map : StringMap ω) : Prop where
  initialized : map.initialized = true
  slots : capacity map ≠ 0 → Slots map.slots
  length : map.length = (entries map.slots).length
  tombstones : map.tombstoneCount = map.slots.countP Slot.isTombstone
  room : capacity map ≠ 0 → map.length + map.tombstoneCount < capacity map
  bytes : capacity map ≤ SIZE_MAX / sizeofStringMapSlot

theorem invariant_init : Invariant (smInit : StringMap ω) where
  initialized := rfl
  slots hcap := absurd rfl hcap
  length := rfl
  tombstones := rfl
  room hcap := absurd rfl hcap
  bytes := Nat.zero_le _

theorem slotNext_position {n : ℕ} (hn : ∃ k, n = 2 ^ k) (start i : ℕ) :
    slotNext (position n start i) n = position n start (i + 1) := by
  obtain ⟨k, rfl⟩ := hn
  rw [slotNext, Nat.and_two_pow_sub_one_eq_mod, position_succ]

theorem slotIndex_lt {n : ℕ} (hn : 0 < n) (hash : UInt64) : slotIndex hash n < n := by
  have : slotIndex hash n ≤ n - 1 := Nat.and_le_right
  omega

theorem position_zero {n start : ℕ} (h : start < n) : position n start 0 = start :=
  Nat.mod_eq_of_lt h

theorem slotAt_eq {slots : List (StringMapSlot ω)} {index : ℕ} {slot : StringMapSlot ω}
    (h : slots[index]? = some slot) : slotAt slots index = slot := by
  rw [slotAt, List.getD_eq_getElem?_getD, h, Option.getD_some]

theorem slotAt_get {slots : List (StringMapSlot ω)} {index : ℕ} (h : index < slots.length) :
    slots[index]? = some (slotAt slots index) := by
  rw [slotAt, List.getD_eq_getElem?_getD, List.getElem?_eq_getElem h, Option.getD_some]

/-- What a search has seen after `i` probes. -/
structure Searched (slots : List (StringMapSlot ω)) (key : Bytes) (i : ℕ)
    (firstTombstone : Option ℕ) : Prop where
  passes : Passes slots (keyIndex slots.length key) i
  misses : ∀ j < i, ∀ slot,
    slots[position slots.length (keyIndex slots.length key) j]? = some (Slot.occupied slot) →
      slotKey slot ≠ key
  none_occupied : firstTombstone = none → ∀ j < i,
    slots[position slots.length (keyIndex slots.length key) j]? ≠ some Slot.tombstone
  some_tombstone : ∀ p, firstTombstone = some p →
    slots[p]? = some Slot.tombstone ∧ Reached slots (keyIndex slots.length key) p

structure FreeSlot (slots : List (StringMapSlot ω)) (key : Bytes) (firstTombstone : Option ℕ) :
    Prop where
  absent : key ∉ (entries slots).map slotKey
  tombstone : ∀ p, firstTombstone = some p →
    slots[p]? = some Slot.tombstone ∧ Reached slots (keyIndex slots.length key) p
  empty : firstTombstone = none → ∃ i < slots.length,
    slots[position slots.length (keyIndex slots.length key) i]? = some Slot.empty ∧
    ∀ j < i, ∃ slot,
      slots[position slots.length (keyIndex slots.length key) j]? = some (Slot.occupied slot)

theorem searched_tombstone {slots : List (StringMapSlot ω)} {key : Bytes} {i : ℕ}
    {firstTombstone : Option ℕ} (h : Searched slots key i firstTombstone) (hi : i < slots.length)
    (hslot : slots[position slots.length (keyIndex slots.length key) i]? = some Slot.tombstone) :
    Searched slots key (i + 1) (if firstTombstone = none then
      some (position slots.length (keyIndex slots.length key) i) else firstTombstone) where
  passes j hj := by
    rcases Nat.lt_succ_iff_lt_or_eq.mp hj with hlt | rfl
    · exact h.passes j hlt
    · simp [hslot]
  misses j hj slot hocc := by
    rcases Nat.lt_succ_iff_lt_or_eq.mp hj with hlt | rfl
    · exact h.misses j hlt slot hocc
    · rw [hslot] at hocc
      cases hocc
  none_occupied hnone := by
    split_ifs at hnone with hft
    exact absurd hnone hft
  some_tombstone p hp := by
    split_ifs at hp
    · rw [Option.some.injEq] at hp
      rw [← hp]
      exact ⟨hslot, i, hi, rfl, h.passes⟩
    · exact h.some_tombstone p hp

theorem searched_occupied {slots : List (StringMapSlot ω)} {key : Bytes} {i : ℕ}
    {firstTombstone : Option ℕ} (h : Searched slots key i firstTombstone)
    {slot : StringMapEntry ω} (hkey : slotKey slot ≠ key)
    (hslot : slots[position slots.length (keyIndex slots.length key) i]? =
      some (Slot.occupied slot)) : Searched slots key (i + 1) firstTombstone where
  passes j hj := by
    rcases Nat.lt_succ_iff_lt_or_eq.mp hj with hlt | rfl
    · exact h.passes j hlt
    · simp [hslot]
  misses j hj other hocc := by
    rcases Nat.lt_succ_iff_lt_or_eq.mp hj with hlt | rfl
    · exact h.misses j hlt other hocc
    · rw [hslot, Option.some.injEq, Slot.occupied.injEq] at hocc
      rwa [← hocc]
  none_occupied hnone j hj := by
    rcases Nat.lt_succ_iff_lt_or_eq.mp hj with hlt | rfl
    · exact h.none_occupied hnone j hlt
    · simp [hslot]
  some_tombstone := h.some_tombstone

theorem searched_stop {slots : List (StringMapSlot ω)} {key : Bytes} {i : ℕ}
    {firstTombstone : Option ℕ} (hslots : Slots slots) (h : Searched slots key i firstTombstone)
    (hi : i < slots.length)
    (hslot : slots[position slots.length (keyIndex slots.length key) i]? = some Slot.empty) :
    FreeSlot slots key firstTombstone where
  absent := hslots.wellFormed.absent h.passes h.misses (.inr hslot)
  tombstone := h.some_tombstone
  empty hnone := by
    refine ⟨i, hi, hslot, fun j hj => ?_⟩
    have hget := @slotAt_get _ slots _ (position_lt (by omega) (keyIndex slots.length key) j)
    cases hat : slotAt slots (position slots.length (keyIndex slots.length key) j) with
    | empty => rw [hat] at hget; exact absurd hget (h.passes j hj)
    | tombstone => rw [hat] at hget; exact absurd hget (h.none_occupied hnone j hj)
    | occupied slot => exact ⟨slot, by rw [← hat]; exact hget⟩

/-- A search finds the key's slot or the slot it would get. -/
inductive FindSpec (slots : List (StringMapSlot ω)) (key : Bytes) : StringMapFound → Prop where
  | hit {index : ℕ} {firstTombstone : Option ℕ} {slot : StringMapEntry ω}
    (hslot : slots[index]? = some (Slot.occupied slot)) (hkey : slotKey slot = key) :
    FindSpec slots key ⟨some index, firstTombstone⟩
  | miss {firstTombstone : Option ℕ} (hfree : FreeSlot slots key firstTombstone) :
    FindSpec slots key ⟨none, firstTombstone⟩

theorem stringMapFindLoop_spec {slots : List (StringMapSlot ω)} (hslots : Slots slots)
    (hempty : ∃ p : ℕ, slots[p]? = some Slot.empty) {key : Bytes} {probes i : ℕ}
    {firstTombstone : Option ℕ} (h : Searched slots key i firstTombstone)
    (hi : i + probes = slots.length) :
    FindSpec slots key (stringMapFindLoop slots key (stringvHash key) probes
      (position slots.length (keyIndex slots.length key) i) firstTombstone) := by
  have hpos : 0 < slots.length := by
    obtain ⟨p, hp⟩ := hempty
    have := (List.getElem?_eq_some_iff.mp hp).1
    omega
  induction probes generalizing i firstTombstone with
  | zero =>
    obtain ⟨p, hp⟩ := hempty
    obtain ⟨j, hj, hjp⟩ := position_surjective (keyIndex slots.length key)
      (List.getElem?_eq_some_iff.mp hp).1
    rw [← hjp] at hp
    exact absurd hp (h.passes j (by omega))
  | succ probes ih =>
    have hget := @slotAt_get _ slots _ (position_lt hpos (keyIndex slots.length key) i)
    rw [stringMapFindLoop]
    cases hat : slotAt slots (position slots.length (keyIndex slots.length key) i) with
    | empty =>
      rw [hat] at hget
      exact .miss (searched_stop hslots h (by omega) hget)
    | tombstone =>
      rw [hat] at hget
      dsimp only
      rw [slotNext_position hslots.powerOfTwo]
      exact ih (searched_tombstone h (by omega) hget) (by omega)
    | occupied slot =>
      rw [hat] at hget
      have hhash := hslots.hashes slot (mem_entries.mpr ⟨_, hget⟩)
      have hmatch : (slot.hash == stringvHash key && stringvEqual slot.key.bytes key) = true ↔
          slotKey slot = key := by
        rw [hhash, Bool.and_eq_true, beq_iff_eq, stringvEqual, beq_iff_eq]
        exact ⟨And.right, fun hkey => ⟨congrArg stringvHash hkey, hkey⟩⟩
      dsimp only
      by_cases hkey : slotKey slot = key
      · rw [if_pos (hmatch.mpr hkey)]
        exact .hit hget hkey
      · rw [if_neg (fun heq => hkey (hmatch.mp heq)), slotNext_position hslots.powerOfTwo]
        exact ih (searched_occupied h hkey hget) (by omega)

theorem invariant_empty {map : StringMap ω} (h : Invariant map) (hcap : capacity map ≠ 0) :
    ∃ p : ℕ, map.slots[p]? = some Slot.empty := by
  have hroom := h.room hcap
  rw [h.length, h.tombstones] at hroom
  exact exists_empty hroom

theorem stringMapFindIndex_spec {map : StringMap ω} (h : Invariant map) (hcap : capacity map ≠ 0)
    (key : Bytes) : FindSpec map.slots key (stringMapFindIndex map key (stringvHash key)) := by
  have hstart : keyIndex map.slots.length key < map.slots.length :=
    slotIndex_lt (Nat.pos_of_ne_zero hcap) _
  have hzero : Searched map.slots key 0 none :=
    ⟨fun j hj => by omega, fun j hj => by omega, fun _ j hj => by omega, fun p hp => by cases hp⟩
  have hspec := stringMapFindLoop_spec (h.slots hcap) (invariant_empty h hcap) hzero
    (Nat.zero_add _)
  rw [position_zero hstart] at hspec
  rw [stringMapFindIndex, if_neg (by simp [h.initialized, hcap])]
  exact hspec

theorem stringMapFindIndex_none {map : StringMap ω} (hcap : capacity map = 0) (key : Bytes)
    (hash : UInt64) : stringMapFindIndex map key hash = {} := by
  rw [stringMapFindIndex, if_pos (by simp [hcap])]

theorem stringMapFreeIndex_eq {slots : List (StringMapSlot ω)} (hn : ∃ k, slots.length = 2 ^ k)
    {start i : ℕ} {free : StringMapSlot ω}
    (hocc : ∀ j < i, ∃ slot, slots[position slots.length start j]? = some (Slot.occupied slot))
    (hfree : slots[position slots.length start i]? = some free) (hnone : free.held? = none)
    {k turns : ℕ} (hk : k ≤ i) (hturns : i < k + turns) :
    stringMapFreeIndex slots turns (position slots.length start k) =
      some (position slots.length start i) := by
  induction turns generalizing k with
  | zero => omega
  | succ turns ih =>
    rw [stringMapFreeIndex]
    by_cases hki : k = i
    · rw [hki, slotAt_eq hfree]
      cases free with
      | empty => rfl
      | tombstone => rfl
      | occupied slot => cases hnone
    · obtain ⟨slot, hslot⟩ := hocc k (by omega)
      rw [slotAt_eq hslot]
      dsimp only
      rw [slotNext_position hn]
      exact ih (by omega) (by omega)

theorem reached_occupied {slots : List (StringMapSlot ω)} {start i : ℕ} (hi : i < slots.length)
    (hocc : ∀ j < i, ∃ slot, slots[position slots.length start j]? = some (Slot.occupied slot)) :
    Reached slots start (position slots.length start i) := by
  refine ⟨i, hi, rfl, fun j hj => ?_⟩
  obtain ⟨slot, hslot⟩ := hocc j hj
  simp [hslot]

/-- Slots in which a probe path ends at a free slot take a new entry there. -/
theorem slots_insert {slots : List (StringMapSlot ω)} (h : Slots slots) {p : ℕ}
    {old : StringMapSlot ω} {slot : StringMapEntry ω} (hp : slots[p]? = some old)
    (hold : old.held? = none) (habsent : slotKey slot ∉ (entries slots).map slotKey)
    (hreach : Reached slots (keyIndex slots.length (slotKey slot)) p)
    (hhash : slot.hash = stringvHash (slotKey slot)) : Slots (slots.set p (.occupied slot)) where
  powerOfTwo := by rw [List.length_set]; exact h.powerOfTwo
  wellFormed := by
    rw [List.length_set]
    exact h.wellFormed.insert hp hold habsent hreach
  hashes other hother := by
    obtain ⟨rest, hrest, hset⟩ := entries_set hp
    rw [hold] at hrest
    rcases List.mem_cons.mp ((hset _).mem_iff.mp hother) with rfl | hmem
    · exact hhash
    · exact h.hashes other (hrest.mem_iff.mpr hmem)

theorem entries_insert {slots : List (StringMapSlot ω)} {p : ℕ} {old : StringMapSlot ω}
    (slot : StringMapEntry ω) (hp : slots[p]? = some old) (hold : old.held? = none) :
    (entries (slots.set p (.occupied slot))).Perm (slot :: entries slots) := by
  obtain ⟨rest, hrest, hset⟩ := entries_set hp
  rw [hold] at hrest
  exact (hset _).trans (hrest.symm.cons slot)

theorem countP_insert {slots : List (StringMapSlot ω)} {p : ℕ} {old : StringMapSlot ω}
    (slot : StringMapEntry ω) (hp : slots[p]? = some old) :
    (slots.set p (.occupied slot)).countP Slot.isTombstone + (if old.isTombstone then 1 else 0) =
      slots.countP Slot.isTombstone := countP_set hp Slot.isTombstone (.occupied slot)

/-- The first free slot on the probe path from `start`. -/
theorem exists_firstFree {slots : List (StringMapSlot ω)} (start : ℕ)
    (h : (entries slots).length < slots.length) :
    ∃ i < slots.length, ∃ free, slots[position slots.length start i]? = some free ∧
      free.held? = none ∧
      ∀ j < i, ∃ slot, slots[position slots.length start j]? = some (Slot.occupied slot) := by
  classical
  have hfree : ∃ i, i < slots.length ∧
      (slotAt slots (position slots.length start i)).held? = none := by
    obtain ⟨s, hs, hnone⟩ := List.length_filterMap_lt_length_iff_exists.mp h
    obtain ⟨p, hp⟩ := List.mem_iff_getElem?.mp hs
    obtain ⟨i, hi, rfl⟩ := position_surjective start (List.getElem?_eq_some_iff.mp hp).1
    exact ⟨i, hi, by rw [slotAt_eq hp]; exact hnone⟩
  obtain ⟨hi, hnone⟩ := Nat.find_spec hfree
  have hpos : 0 < slots.length := by omega
  refine ⟨Nat.find hfree, hi, _, slotAt_get (position_lt hpos _ _), hnone, fun j hj => ?_⟩
  have hmin := Nat.find_min hfree hj
  rw [not_and] at hmin
  obtain ⟨slot, hslot⟩ := Option.ne_none_iff_exists'.mp (hmin (by omega))
  rw [Slot.held?_eq_some] at hslot
  exact ⟨slot, by rw [← hslot]; exact slotAt_get (position_lt hpos _ _)⟩

theorem stringMapRehashLoop_spec {newSlots : List (StringMapSlot ω)} (h : Slots newSlots)
    (rest : List (StringMapSlot ω)) (hclean : newSlots.countP Slot.isTombstone = 0)
    (hroom : (entries newSlots).length + (entries rest).length < newSlots.length)
    (hhashes : ∀ slot ∈ entries rest, slot.hash = stringvHash (slotKey slot))
    (hnodup : ((entries newSlots ++ entries rest).map slotKey).Nodup) :
    ∃ final, stringMapRehashLoop newSlots rest = some final ∧
      final.length = newSlots.length ∧ Slots final ∧ final.countP Slot.isTombstone = 0 ∧
      (entries final).Perm (entries newSlots ++ entries rest) := by
  induction rest generalizing newSlots with
  | nil => exact ⟨newSlots, rfl, rfl, h, hclean, by simp [entries]⟩
  | cons slot rest ih =>
    cases slot with
    | empty => exact ih h hclean hroom hhashes hnodup
    | tombstone => exact ih h hclean hroom hhashes hnodup
    | occupied slot =>
      have hcons : entries (Slot.occupied slot :: rest) = slot :: entries rest := rfl
      rw [hcons] at hroom hhashes hnodup
      rw [List.length_cons] at hroom
      have hhash := hhashes slot List.mem_cons_self
      have hmiddle := @List.perm_middle _ slot (entries newSlots) (entries rest)
      have hkeys := (hmiddle.map slotKey).nodup_iff.mp hnodup
      have habsent : slotKey slot ∉ (entries newSlots).map slotKey := fun hmem =>
        (List.nodup_cons.mp hkeys).1 (by rw [List.map_append]; exact List.mem_append_left _ hmem)
      have hless : (entries newSlots).length < newSlots.length := by omega
      obtain ⟨i, hi, free, hfree, hnone, hocc⟩ :=
        exists_firstFree (keyIndex newSlots.length (slotKey slot)) hless
      have hindex : stringMapFreeIndex newSlots newSlots.length
          (slotIndex slot.hash newSlots.length) =
          some (position newSlots.length (keyIndex newSlots.length (slotKey slot)) i) := by
        have hstart := position_zero
          (slotIndex_lt (by omega : 0 < newSlots.length) (stringvHash (slotKey slot)))
        rw [hhash, ← hstart]
        exact stringMapFreeIndex_eq h.powerOfTwo hocc hfree hnone (Nat.zero_le i) (by omega)
      have hperm := entries_insert slot hfree hnone
      have hnext := slots_insert h hfree hnone habsent (reached_occupied hi hocc) hhash
      have hcount := countP_insert slot hfree
      have hlen := hperm.length_eq
      rw [List.length_cons] at hlen
      obtain ⟨final, hloop, hlength, hfinal, hcleanFinal, hentries⟩ := ih hnext (by omega)
        (by rw [List.length_set]; omega)
        (fun other hother => hhashes other (List.mem_cons_of_mem slot hother))
        (((hperm.append_right _).map slotKey).nodup_iff.mpr hkeys)
      refine ⟨final, ?_, by rw [hlength, List.length_set], hfinal, hcleanFinal, ?_⟩
      · rw [stringMapRehashLoop, hindex]
        exact hloop
      · rw [hcons]
        exact hentries.trans ((hperm.append_right _).trans hmiddle.symm)

end Ceasy.Collection
