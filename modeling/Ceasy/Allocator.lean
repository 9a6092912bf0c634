import Ceasy.StringView

set_option autoImplicit false

/-!
# Allocators

An allocator is known by the requests made of it. Whether a request is granted
may depend on its size and on everything that was asked before, so a theorem
about every allocator is a theorem about every pattern of failures.
-/
namespace Ceasy.Allocator

/-- A block is named by the place of its request in the ledger. -/
abbrev Block := ℕ

inductive AllocatorEvent where
  | granted (block : Block) (size : ℕ)
  | refused (size : ℕ)
  | freed (block : Block)
deriving DecidableEq, Repr

abbrev Ledger := List AllocatorEvent

/-- The allocator's answer to a request of this size after this history. -/
abbrev AllocatorAllocFn := Ledger → ℕ → Bool

def allocate (allocator : AllocatorAllocFn) (ledger : Ledger) (size : ℕ) : Option Block × Ledger :=
  if allocator ledger size then (some ledger.length, ledger ++ [.granted ledger.length size])
  else (none, ledger ++ [.refused size])

/-- Freeing NULL is no event. -/
def release (ledger : Ledger) : Option Block → Ledger
  | none => ledger
  | some block => ledger ++ [.freed block]

def RefusedBetween (allocator : AllocatorAllocFn) (ledger later : Ledger) : Prop :=
  ∃ before size after, ledger <+: before ∧ later = before ++ .refused size :: after ∧
    allocator before size = false

def Continues (ledger later : Ledger) : Prop := ledger <+: later

theorem continues_release (ledger : Ledger) (pointer : Option Block) :
    Continues ledger (release ledger pointer) := by
  cases pointer with
  | none => exact List.prefix_refl _
  | some block => exact List.prefix_append _ _

theorem continues_allocate (allocator : AllocatorAllocFn) (ledger : Ledger) (size : ℕ) :
    Continues ledger (allocate allocator ledger size).2 := by
  unfold allocate
  split_ifs <;> exact List.prefix_append _ _

theorem refusedBetween_allocate (allocator : AllocatorAllocFn) (ledger : Ledger) (size : ℕ)
    (h : (allocate allocator ledger size).1 = none) :
    RefusedBetween allocator ledger (allocate allocator ledger size).2 := by
  unfold allocate at *
  split_ifs at h ⊢ with hgranted
  rw [Bool.not_eq_true] at hgranted
  exact ⟨ledger, size, [], List.prefix_refl _, rfl, hgranted⟩

variable {allocator : AllocatorAllocFn}

theorem RefusedBetween.before {first ledger later : Ledger}
    (h : RefusedBetween allocator ledger later) (hfirst : Continues first ledger) :
    RefusedBetween allocator first later := by
  obtain ⟨before, size, after, hbefore, hlater, hrefused⟩ := h
  exact ⟨before, size, after, hfirst.trans hbefore, hlater, hrefused⟩

theorem RefusedBetween.after {ledger later last : Ledger}
    (h : RefusedBetween allocator ledger later) (hlast : Continues later last) :
    RefusedBetween allocator ledger last := by
  obtain ⟨before, size, after, hbefore, rfl, hrefused⟩ := h
  obtain ⟨rest, rfl⟩ := hlast
  exact ⟨before, size, after ++ rest, hbefore, by simp, hrefused⟩

def allocatorGrants : AllocatorAllocFn := fun _ _ => true

theorem not_refusedBetween_grants (ledger later : Ledger) :
    ¬ RefusedBetween allocatorGrants ledger later := by
  rintro ⟨before, size, after, -, -, hrefused⟩
  cases hrefused

end Ceasy.Allocator
