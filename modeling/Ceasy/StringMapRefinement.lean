import Ceasy.StringMapOperations

set_option autoImplicit false

/-!
# String maps are finite maps

A string map that starts empty answers every sequence of operations as a finite
map does, whatever the allocator refuses on the way.
-/
namespace Ceasy.Collection
open StringView Allocator LinearProbing

variable {ω : Type*} {allocator : AllocatorAllocFn} {map : StringMap ω} {ledger : Ledger}

inductive MapOperation (ω : Type*) where
  | setValue (key : Bytes) (value : StringMapValue ω)
  | setValueBorrowedKey (key : Bytes) (value : StringMapValue ω)
  | setStringView (key value : Bytes)
  | get (key : Bytes)
  | remove (key : Bytes)
  | clear
  | length
  | iterate

inductive MapAnswer (ω : Type*) where
  | done (ok : Bool)
  | found (value : Option (StringMapData ω))
  | cleared
  | count (length : ℕ)
  | visited (entries : List (Bytes × StringMapData ω))

def mapStep (allocator : AllocatorAllocFn) (map : StringMap ω) (ledger : Ledger) :
    MapOperation ω → Option (MapAnswer ω × StringMap ω × Ledger)
  | .setValue key value =>
    (smSetValue allocator map ledger key value).map fun out => (.done out.ok, out.map, out.ledger)
  | .setValueBorrowedKey key value =>
    (smSetValueBorrowedKey allocator map ledger key value).map fun out =>
      (.done out.ok, out.map, out.ledger)
  | .setStringView key value =>
    (smSetStringView allocator map ledger key value).map fun out =>
      (.done out.ok, out.map, out.ledger)
  | .get key => some (.found ((smGet map key).map StringMapValue.data), map, ledger)
  | .remove key =>
    let out := smRemove map ledger key
    some (.done out.ok, out.map, out.ledger)
  | .clear =>
    let (map, ledger) := smClear map ledger
    some (.cleared, map, ledger)
  | .length => some (.count (smLength map), map, ledger)
  | .iterate =>
    some (.visited ((smIterate map 0).map fun slot => (slotKey slot, slot.value.data)), map, ledger)

def storedValue : MapOperation ω → Option (Bytes × StringMapData ω)
  | .setValue key value | .setValueBorrowedKey key value => some (key, value.data)
  | .setStringView key value => some (key, .string value)
  | _ => none

/-- The operations of a finite map `m`. -/
inductive FiniteMapStep (mayRefuse : Prop) (m : Bytes → Option (StringMapData ω)) :
    MapOperation ω → MapAnswer ω → (Bytes → Option (StringMapData ω)) → Prop where
  | set {operation : MapOperation ω} {key : Bytes} {data : StringMapData ω}
    (h : storedValue operation = some (key, data)) :
    FiniteMapStep mayRefuse m operation (.done true) (Function.update m key (some data))
  | refused {operation : MapOperation ω} {stored : Bytes × StringMapData ω}
    (h : storedValue operation = some stored) (hwhy : mayRefuse) :
    FiniteMapStep mayRefuse m operation (.done false) m
  | get (key : Bytes) : FiniteMapStep mayRefuse m (.get key) (.found (m key)) m
  | remove (key : Bytes) :
    FiniteMapStep mayRefuse m (.remove key) (.done (m key).isSome) (Function.update m key none)
  | clear : FiniteMapStep mayRefuse m .clear .cleared fun _ => none
  | length : FiniteMapStep mayRefuse m .length (.count {key | (m key).isSome}.ncard) m
  | iterate {visited : List (Bytes × StringMapData ω)} (honce : (visited.map Prod.fst).Nodup)
    (hall : ∀ key data, (key, data) ∈ visited ↔ m key = some data) :
    FiniteMapStep mayRefuse m .iterate (.visited visited) m

/-- A set may be refused for its value, for the size of the map or for want of memory. -/
def MayRefuse (allocator : AllocatorAllocFn) (map : StringMap ω) (ledger later : Ledger) (operation : MapOperation ω) : Prop :=
  (∃ key value, (operation = .setValue key value ∨ operation = .setValueBorrowedKey key value) ∧
    stringMapValueInvalid value = true) ∨ AtLimit map ∨ RefusedBetween allocator ledger later

theorem finiteMapStep_set {operation : MapOperation ω} {key : Bytes} {value : StringMapValue ω}
    {out : Outcome ω} (hop : storedValue operation = some (key, value.data))
    (hspec : SetSpec allocator map ledger key value out)
    (hwhy : stringMapValueInvalid value = true → MayRefuse allocator map ledger out.ledger operation) :
    FiniteMapStep (MayRefuse allocator map ledger out.ledger operation) (mapContents map) operation
      (.done out.ok) (mapContents out.map) := by
  cases hok : out.ok with
  | true =>
    rw [(hspec.done hok).2]
    exact .set hop
  | false =>
    obtain ⟨hcontents, hreason⟩ := hspec.refused hok
    rw [hcontents]
    refine .refused hop ?_
    rcases hreason with hinvalid | hlimit
    · exact hwhy hinvalid
    · exact .inr hlimit

theorem mapStep_refines (allocator : AllocatorAllocFn) (ledger : Ledger) (h : Invariant map)
    (operation : MapOperation ω) :
    ∃ answer next later, mapStep allocator map ledger operation = some (answer, next, later) ∧
      Invariant next ∧ FiniteMapStep (MayRefuse allocator map ledger later operation) (mapContents map)
        operation answer (mapContents next) := by
  cases operation with
  | setValue key value =>
    obtain ⟨out, hout, hspec⟩ := stringMapSetInternal_spec allocator ledger h key value true
    refine ⟨_, _, _, by rw [mapStep, smSetValue, hout]; rfl, hspec.invariant, ?_⟩
    exact finiteMapStep_set rfl hspec fun hinvalid => .inl ⟨key, value, .inl rfl, hinvalid⟩
  | setValueBorrowedKey key value =>
    obtain ⟨out, hout, hspec⟩ := stringMapSetInternal_spec allocator ledger h key value false
    refine ⟨_, _, _, by rw [mapStep, smSetValueBorrowedKey, hout]; rfl, hspec.invariant, ?_⟩
    exact finiteMapStep_set rfl hspec fun hinvalid => .inl ⟨key, value, .inr rfl, hinvalid⟩
  | setStringView key value =>
    obtain ⟨out, hout, hspec⟩ := smSetStringView_spec allocator ledger h key value
    refine ⟨_, _, _, by rw [mapStep, hout]; rfl, hspec.invariant, ?_⟩
    exact finiteMapStep_set rfl hspec fun hinvalid => by cases hinvalid
  | get key =>
    refine ⟨_, _, _, rfl, h, ?_⟩
    rw [smGet_spec h]
    exact .get key
  | remove key =>
    obtain ⟨hinvariant, hok, hcontents⟩ := smRemove_spec ledger h key
    refine ⟨_, _, _, rfl, hinvariant, ?_⟩
    rw [hok, hcontents]
    exact .remove key
  | clear =>
    obtain ⟨hinvariant, hcontents⟩ := smClear_spec ledger h
    refine ⟨.cleared, (smClear map ledger).1, (smClear map ledger).2, rfl, hinvariant, ?_⟩
    rw [hcontents]
    exact .clear
  | length =>
    refine ⟨_, _, _, rfl, h, ?_⟩
    rw [smLength, ← mapContents_ncard h]
    exact .length
  | iterate =>
    refine ⟨_, _, _, rfl, h, .iterate ?_ fun key data => ?_⟩
    · rw [smIterate_entries, List.map_map]
      exact invariant_nodup h
    · rw [smIterate_entries, mapContents_eq_some h, List.mem_map]
      simp only [Prod.mk.injEq]

/-- Step by step, the operations answer as those of a finite map do. -/
inductive Refines (allocator : AllocatorAllocFn) :
    StringMap ω → Ledger → (Bytes → Option (StringMapData ω)) → List (MapOperation ω) → Prop where
  | nil {map : StringMap ω} {ledger : Ledger} {m : Bytes → Option (StringMapData ω)}
    (h : Invariant map) : Refines allocator map ledger m []
  | cons {map next : StringMap ω} {ledger later : Ledger}
    {m m' : Bytes → Option (StringMapData ω)} {operation : MapOperation ω} {answer : MapAnswer ω}
    {operations : List (MapOperation ω)} (h : Invariant map)
    (hstep : mapStep allocator map ledger operation = some (answer, next, later))
    (habstract : FiniteMapStep (MayRefuse allocator map ledger later operation) m operation answer m')
    (hrest : Refines allocator next later m' operations) :
    Refines allocator map ledger m (operation :: operations)

theorem refines_of_invariant (allocator : AllocatorAllocFn) (operations : List (MapOperation ω))
    {map : StringMap ω} (h : Invariant map) (ledger : Ledger) :
    Refines allocator map ledger (mapContents map) operations := by
  induction operations generalizing map ledger with
  | nil => exact .nil h
  | cons operation operations ih =>
    obtain ⟨answer, next, later, hstep, hnext, habstract⟩ :=
      mapStep_refines allocator ledger h operation
    exact .cons h hstep habstract (ih hnext later)

/-- Whatever the allocator refuses, an initialised map is the empty finite map and
    stays in step with it. -/
theorem stringMap_refines (allocator : AllocatorAllocFn) (ledger : Ledger)
    (operations : List (MapOperation ω)) :
    Refines allocator smInit ledger (fun _ => none) operations :=
  refines_of_invariant allocator operations invariant_init ledger

end Ceasy.Collection
