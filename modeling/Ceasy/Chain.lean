import Mathlib

set_option autoImplicit false

/-!
# Chains of nodes

A linked list as the list of its nodes, which are told apart by their addresses.
A chain extends a shorter one when only the last node of the shorter one may have
grown, and others follow it.
-/
namespace Chain

variable {α κ : Type*} [DecidableEq κ] (address : α → κ)

def at? (pointer : κ) (chain : List α) : Option α := chain.find? fun node => address node = pointer

def next? (pointer : κ) : List α → Option α
  | [] => none
  | node :: rest => if address node = pointer then rest.head? else next? pointer rest

def modify (pointer : κ) (change : α → α) (chain : List α) : List α :=
  chain.map fun node => if address node = pointer then change node else node

def insertAfter (pointer : κ) (new : α) : List α → List α
  | [] => []
  | node :: rest =>
    if address node = pointer then node :: new :: rest else node :: insertAfter pointer new rest

def upTo (pointer : κ) : List α → List α
  | [] => []
  | node :: rest => if address node = pointer then [node] else node :: upTo pointer rest

section Middle

variable {address} {before after : List α} {node : α}

theorem at?_middle (h : ∀ other ∈ before, address other ≠ address node) :
    at? address (address node) (before ++ node :: after) = some node := by
  induction before with
  | nil => simp [at?]
  | cons first before ih =>
    have hfirst := h first List.mem_cons_self
    have hrest := ih fun other hmem => h other (List.mem_cons_of_mem _ hmem)
    rw [at?, List.cons_append, List.find?_cons_of_neg (by simpa using hfirst)]
    exact hrest

theorem next?_middle (h : ∀ other ∈ before, address other ≠ address node) :
    next? address (address node) (before ++ node :: after) = after.head? := by
  induction before with
  | nil => simp [next?]
  | cons first before ih =>
    rw [List.cons_append, next?, if_neg (h first List.mem_cons_self)]
    exact ih fun other hmem => h other (List.mem_cons_of_mem _ hmem)

theorem insertAfter_middle (h : ∀ other ∈ before, address other ≠ address node) (new : α) :
    insertAfter address (address node) new (before ++ node :: after) = before ++ node :: new :: after := by
  induction before with
  | nil => simp [insertAfter]
  | cons first before ih =>
    rw [List.cons_append, insertAfter, if_neg (h first List.mem_cons_self),
      ih fun other hmem => h other (List.mem_cons_of_mem _ hmem), List.cons_append]

theorem upTo_middle (h : ∀ other ∈ before, address other ≠ address node) :
    upTo address (address node) (before ++ node :: after) = before ++ [node] := by
  induction before with
  | nil => simp [upTo]
  | cons first before ih =>
    rw [List.cons_append, upTo, if_neg (h first List.mem_cons_self),
      ih fun other hmem => h other (List.mem_cons_of_mem _ hmem), List.cons_append]

theorem modify_middle (hbefore : ∀ other ∈ before, address other ≠ address node)
    (hafter : ∀ other ∈ after, address other ≠ address node) (change : α → α) :
    modify address (address node) change (before ++ node :: after) =
      before ++ change node :: after := by
  have hsame : ∀ part : List α, (∀ other ∈ part, address other ≠ address node) →
      modify address (address node) change part = part := by
    intro part hpart
    rw [modify]
    conv_rhs => rw [← List.map_id part]
    apply List.map_congr_left
    intro other hmem
    rw [if_neg (hpart other hmem)]
    rfl
  have hfront := hsame before hbefore
  have hback := hsame after hafter
  unfold modify at hfront hback ⊢
  rw [List.map_append, List.map_cons, if_pos rfl, hfront, hback]

end Middle

/-- The longer chain has the nodes of the shorter one, of which the last may have grown. -/
inductive Extends (grows : α → α → Prop) : List α → List α → Prop where
  | nil (chain : List α) : Extends grows [] chain
  | top {node grown : α} (h : grows node grown) (rest : List α) :
    Extends grows [node] (grown :: rest)
  | cons (node : α) {shorter longer : List α} (h : Extends grows shorter longer) :
    Extends grows (node :: shorter) (node :: longer)

variable {grows : α → α → Prop}

theorem Extends.refl (chain : List α) : Extends grows chain chain := by
  induction chain with
  | nil => exact .nil []
  | cons node chain ih => exact .cons node ih

theorem extends_nil {chain : List α} (h : Extends grows chain []) : chain = [] := by
  cases h
  rfl

theorem Extends.trans (htrans : ∀ first second third, grows first second → grows second third →
    grows first third) {first second third : List α} (h : Extends grows first second)
    (hnext : Extends grows second third) : Extends grows first third := by
  induction h generalizing third with
  | nil => exact .nil third
  | top h rest =>
    cases hnext with
    | top hnext => exact .top (htrans _ _ _ h hnext) _
    | cons node hrest => exact .top h _
  | cons node h ih =>
    cases hnext with
    | top hnext rest =>
      obtain rfl := extends_nil h
      exact .top hnext rest
    | cons _ hrest => exact .cons node (ih hrest)

theorem Extends.concat (hrefl : ∀ node, grows node node) {before : List α} {node : α} {chain : List α}
    (h : Extends grows (before ++ [node]) chain) :
    ∃ grown rest, chain = before ++ grown :: rest ∧ grows node grown := by
  generalize hshorter : before ++ [node] = shorter at h
  induction h generalizing before with
  | nil => simp at hshorter
  | @top last grown h rest =>
    cases before with
    | nil =>
      obtain rfl : node = last := by simpa using hshorter
      exact ⟨grown, rest, rfl, h⟩
    | cons => simp at hshorter
  | @cons first shorter longer h ih =>
    cases before with
    | nil =>
      obtain ⟨rfl, -⟩ := List.cons.inj hshorter
      exact ⟨node, longer, rfl, hrefl node⟩
    | cons _ before =>
      obtain ⟨rfl, hrest⟩ := List.cons.inj hshorter
      obtain ⟨grown, rest, rfl, hgrows⟩ := ih hrest
      exact ⟨grown, rest, rfl, hgrows⟩

theorem Extends.grow {before rest : List α} {node grown : α} (h : grows node grown) :
    Extends grows (before ++ [node]) (before ++ grown :: rest) := by
  induction before with
  | nil => exact .top h rest
  | cons first before ih => exact .cons first ih

theorem Extends.append (chain more : List α) : Extends grows chain (chain ++ more) := by
  induction chain with
  | nil => exact .nil more
  | cons node chain ih => exact .cons node ih

end Chain
