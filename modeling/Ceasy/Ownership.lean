import Mathlib
import Ceasy.Allocator

set_option autoImplicit false

/-!
# Who holds the blocks of an allocator

A block belongs to one holder from the time it is granted to the time it is freed. The accounts
of a ledger are settled when what was granted and not freed is what the holders hold; they are
kept by granting to a holder and by freeing what a holder holds.
-/
namespace Ceasy.Allocator

def grantedBlocks (ledger : Ledger) : List Block :=
  ledger.filterMap fun
    | .granted block _ => some block
    | _ => none

def freedBlocks (ledger : Ledger) : List Block :=
  ledger.filterMap fun
    | .freed block => some block
    | _ => none

/-- A block is freed after it was granted, and never again. -/
def FreedOnce (ledger : Ledger) : Prop :=
  ∀ before block after, ledger = before ++ .freed block :: after →
    block ∈ grantedBlocks before ∧ block ∉ freedBlocks before

structure Accounts (ledger : Ledger) (held : Multiset Block) : Prop where
  fresh : ∀ block ∈ grantedBlocks ledger, block < ledger.length
  nodup : (grantedBlocks ledger).Nodup
  settled : (grantedBlocks ledger : Multiset Block) = freedBlocks ledger + held
  freedOnce : FreedOnce ledger

def blockOf : Option Block → Multiset Block
  | none => 0
  | some block => {block}

theorem grantedBlocks_append (ledger later : Ledger) :
    grantedBlocks (ledger ++ later) = grantedBlocks ledger ++ grantedBlocks later :=
  List.filterMap_append

theorem freedBlocks_append (ledger later : Ledger) :
    freedBlocks (ledger ++ later) = freedBlocks ledger ++ freedBlocks later :=
  List.filterMap_append

variable {ledger : Ledger} {held : Multiset Block}

theorem freedOnce_append {event : AllocatorEvent} (h : FreedOnce ledger)
    (hevent : ∀ block, event = .freed block → block ∈ grantedBlocks ledger ∧ block ∉ freedBlocks ledger) :
    FreedOnce (ledger ++ [event]) := by
  intro before block after heq
  rcases List.eq_nil_or_concat after with rfl | ⟨rest, last, rfl⟩
  · obtain ⟨rfl, hlast⟩ := List.append_inj' heq rfl
    exact hevent block (List.cons.inj hlast).1
  · rw [List.concat_eq_append, ← List.cons_append, ← List.append_assoc] at heq
    exact h before block rest (List.append_inj' heq rfl).1

theorem accounts_nil : Accounts [] 0 where
  fresh := List.forall_mem_nil _
  nodup := List.nodup_nil
  settled := rfl
  freedOnce _ _ _ heq :=
    absurd heq.symm (List.append_ne_nil_of_right_ne_nil _ (List.cons_ne_nil _ _))

theorem Accounts.held_nodup (h : Accounts ledger held) : held.Nodup := by
  have hnodup := Multiset.coe_nodup.mpr h.nodup
  rw [h.settled] at hnodup
  exact (Multiset.nodup_add.mp hnodup).2.1

theorem Accounts.held_granted (h : Accounts ledger held) {block : Block} (hblock : block ∈ held) :
    block ∈ grantedBlocks ledger ∧ block ∉ freedBlocks ledger := by
  have hnodup := Multiset.coe_nodup.mpr h.nodup
  rw [h.settled, Multiset.nodup_add] at hnodup
  constructor
  · rw [← Multiset.mem_coe, h.settled]
    exact Multiset.mem_add.mpr (.inr hblock)
  · intro hfreed
    exact Multiset.disjoint_left.mp hnodup.2.2 (Multiset.mem_coe.mpr hfreed) hblock

theorem Accounts.allocate {allocator : AllocatorAllocFn} {size : ℕ} {pointer : Option Block}
    {later : Ledger} (h : Accounts ledger held)
    (hallocate : Allocator.allocate allocator ledger size = (pointer, later)) :
    Accounts later (blockOf pointer + held) := by
  unfold Allocator.allocate at hallocate
  split_ifs at hallocate <;> cases hallocate
  · have hgranted : grantedBlocks (ledger ++ [.granted ledger.length size]) =
        grantedBlocks ledger ++ [ledger.length] := grantedBlocks_append _ _
    have hfreed : freedBlocks (ledger ++ [.granted ledger.length size]) = freedBlocks ledger := by
      rw [freedBlocks_append]
      exact List.append_nil _
    refine ⟨?_, ?_, ?_, freedOnce_append h.freedOnce fun _ heq => by cases heq⟩
    · rw [hgranted, List.length_append]
      intro block hmem
      rcases List.mem_append.mp hmem with hmem | hmem
      · exact Nat.lt_succ_of_lt (h.fresh block hmem)
      · rw [List.mem_singleton.mp hmem]
        exact Nat.lt_succ_self _
    · rw [hgranted]
      refine List.nodup_append'.mpr ⟨h.nodup, List.nodup_singleton _, ?_⟩
      intro block hmem hnew
      exact absurd (h.fresh block hmem) (by rw [List.mem_singleton.mp hnew]; exact Nat.lt_irrefl _)
    · rw [hgranted, hfreed, ← Multiset.coe_add, h.settled, blockOf, Multiset.coe_singleton]
      abel
  · have hgranted : grantedBlocks (ledger ++ [.refused size]) = grantedBlocks ledger := by
      rw [grantedBlocks_append]
      exact List.append_nil _
    have hfreed : freedBlocks (ledger ++ [.refused size]) = freedBlocks ledger := by
      rw [freedBlocks_append]
      exact List.append_nil _
    refine ⟨?_, ?_, ?_, freedOnce_append h.freedOnce fun _ heq => by cases heq⟩
    · rw [hgranted, List.length_append]
      exact fun block hmem => Nat.lt_succ_of_lt (h.fresh block hmem)
    · rw [hgranted]
      exact h.nodup
    · rw [hgranted, hfreed, h.settled, blockOf, zero_add]

theorem Accounts.release {pointer : Option Block} (h : Accounts ledger (blockOf pointer + held)) :
    Accounts (release ledger pointer) held := by
  cases pointer with
  | none =>
    rw [blockOf, zero_add] at h
    exact h
  | some block =>
    have hblock := h.held_granted (Multiset.mem_add.mpr (.inl (Multiset.mem_singleton_self block)))
    have hgranted : grantedBlocks (ledger ++ [.freed block]) = grantedBlocks ledger := by
      rw [grantedBlocks_append]
      exact List.append_nil _
    have hfreed : freedBlocks (ledger ++ [.freed block]) = freedBlocks ledger ++ [block] :=
      freedBlocks_append _ _
    refine ⟨?_, ?_, ?_, freedOnce_append h.freedOnce ?_⟩
    · rw [Allocator.release, hgranted, List.length_append]
      exact fun block hmem => Nat.lt_succ_of_lt (h.fresh block hmem)
    · rw [Allocator.release, hgranted]
      exact h.nodup
    · rw [Allocator.release, hgranted, hfreed, ← Multiset.coe_add, h.settled, blockOf,
        Multiset.coe_singleton, add_assoc]
    · rintro freed ⟨⟩
      exact hblock

end Ceasy.Allocator
