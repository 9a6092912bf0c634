import Mathlib.Data.List.Perm.Basic
import Mathlib.Data.List.Sort

set_option autoImplicit false

/-!
# Scans of a directory tree

A scan meets the entries of a directory in whatever order they are listed. What it
collects from the entries one by one is the same up to order for every order, and
sorting by a key makes it the same.
-/
namespace Ceasy.DirectoryScan

/-- The entries of a directory in the order in which they are listed. -/
inductive Entries (α κ : Type*) where
  | nil
  | leaf (name : α) (kind : κ) (rest : Entries α κ)
  | directory (name : α) (inside rest : Entries α κ)
deriving DecidableEq, Repr

variable {α κ ρ σ β : Type*}

def Entries.append : Entries α κ → Entries α κ → Entries α κ
  | .nil, others => others
  | .leaf name kind rest, others => .leaf name kind (rest.append others)
  | .directory name inside rest, others => .directory name inside (rest.append others)

inductive Reordered : Entries α κ → Entries α κ → Prop where
  | nil : Reordered .nil .nil
  | leaf {name : α} {kind : κ} {rest rest' : Entries α κ} :
    Reordered rest rest' → Reordered (.leaf name kind rest) (.leaf name kind rest')
  | directory {name : α} {inside inside' rest rest' : Entries α κ} :
    Reordered inside inside' → Reordered rest rest' →
      Reordered (.directory name inside rest) (.directory name inside' rest')
  | swap (first second rest : Entries α κ) :
    Reordered (first.append (second.append rest)) (second.append (first.append rest))
  | trans {x y z : Entries α κ} : Reordered x y → Reordered y z → Reordered x z

theorem Reordered.refl (entries : Entries α κ) : Reordered entries entries := by
  induction entries with
  | nil => exact .nil
  | leaf _ _ _ ih => exact .leaf ih
  | directory _ _ _ ihinside ihrest => exact .directory ihinside ihrest

def Entries.single (name : α) : κ ⊕ Entries α κ → Entries α κ
  | .inl kind => .leaf name kind .nil
  | .inr inside => .directory name inside .nil

def Entries.ofList (items : List (α × (κ ⊕ Entries α κ))) : Entries α κ :=
  items.foldr (fun item rest => (Entries.single item.1 item.2).append rest) .nil

theorem reordered_ofList {first second : List (α × (κ ⊕ Entries α κ))}
    (h : first.Perm second) : Reordered (Entries.ofList first) (Entries.ofList second) := by
  induction h with
  | nil => exact .nil
  | cons item _ ih =>
    obtain ⟨name, kind | inside⟩ := item
    · exact .leaf ih
    · exact .directory (.refl inside) ih
  | swap one other items => exact .swap _ _ _
  | trans _ _ ihfirst ihsecond => exact ihfirst.trans ihsecond

/-- An entry as a scan meets it; a directory has no kind. -/
structure Visit (ρ α κ : Type*) where
  above : ρ
  name : α
  kind : Option κ

/-- The entries in the order of a scan that goes into each directory as it meets it. -/
def visits (child : ρ → α → ρ) : Entries α κ → ρ → List (Visit ρ α κ)
  | .nil, _ => []
  | .leaf name kind rest, above => ⟨above, name, some kind⟩ :: visits child rest above
  | .directory name inside rest, above =>
    ⟨above, name, none⟩ :: (visits child inside (child above name) ++ visits child rest above)

theorem visits_append (child : ρ → α → ρ) (first second : Entries α κ) (above : ρ) :
    visits child (first.append second) above =
      visits child first above ++ visits child second above := by
  induction first generalizing above with
  | nil => rfl
  | leaf name kind rest ih =>
    rw [Entries.append, visits, visits, ih, List.cons_append]
  | directory name inside rest _ ih =>
    rw [Entries.append, visits, visits, ih, List.cons_append, List.append_assoc]

theorem Reordered.visits {x y : Entries α κ} (h : Reordered x y) (child : ρ → α → ρ) (above : ρ) :
    (visits child x above).Perm (visits child y above) := by
  induction h generalizing above with
  | nil => exact .nil
  | leaf _ ih => exact (ih above).cons _
  | directory _ _ ihinside ihrest => exact ((ihinside _).append (ihrest above)).cons _
  | swap first second rest =>
    rw [visits_append, visits_append, visits_append, visits_append, ← List.append_assoc,
      ← List.append_assoc]
    exact List.perm_append_comm.append_right _
  | trans _ _ ihfirst ihsecond => exact (ihfirst above).trans (ihsecond above)

/-- What each entry gives, one after the other, if none is refused. -/
def collect (check : β → Option (List σ)) : List β → Option (List σ)
  | [] => some []
  | entry :: entries =>
    match check entry with
    | none => none
    | some given => (collect check entries).map (given ++ ·)

theorem collect_append (check : β → Option (List σ)) (first second : List β) :
    collect check (first ++ second) =
      (collect check first).bind fun given => (collect check second).map (given ++ ·) := by
  induction first with
  | nil =>
    rw [List.nil_append, collect, Option.bind_some]
    cases collect check second <;> rfl
  | cons entry entries ih =>
    rw [List.cons_append, collect, collect]
    cases check entry with
    | none => rfl
    | some given =>
      dsimp only
      rw [ih]
      cases collect check entries with
      | none => rfl
      | some others =>
        cases collect check second with
        | none => rfl
        | some last => simp

/-- Both orders are refused, or what is collected differs in its order only. -/
theorem collect_perm {check : β → Option (List σ)} {first second : List β}
    (h : first.Perm second) :
    Option.Rel List.Perm (collect check first) (collect check second) := by
  induction h with
  | nil => exact .some .nil
  | cons entry _ ih =>
    rw [collect, collect]
    cases check entry with
    | none => exact .none
    | some given =>
      dsimp only
      generalize collect check _ = left at ih ⊢
      generalize collect check _ = right at ih ⊢
      cases ih with
      | none => exact .none
      | some hperm => exact .some (hperm.append_left given)
  | swap one other entries =>
    rw [collect, collect, collect, collect]
    cases check one with
    | none => cases check other <;> exact .none
    | some given =>
      cases check other with
      | none => exact .none
      | some given' =>
        cases collect check entries with
        | none => exact .none
        | some rest =>
          refine .some ?_
          dsimp only
          rw [← List.append_assoc, ← List.append_assoc]
          exact List.perm_append_comm.append_right rest
  | trans _ _ ihfirst ihsecond =>
    generalize collect check _ = left at ihfirst ⊢
    generalize collect check _ = middle at ihfirst ihsecond
    generalize collect check _ = right at ihsecond ⊢
    cases ihfirst with
    | none => exact ihsecond
    | some hfirst =>
      cases ihsecond with
      | some hsecond => exact .some (hfirst.trans hsecond)

structure Sorting (order : σ → σ → Prop) where
  sort : List σ → List σ
  perm : ∀ items, (sort items).Perm items
  sorted : ∀ items, (sort items).Pairwise order

def Sorting.insertion (order : σ → σ → Prop) [DecidableRel order] [Std.Total order]
    [IsTrans σ order] : Sorting order where
  sort := List.insertionSort order
  perm := List.perm_insertionSort order
  sorted := List.pairwise_insertionSort order

def repeats [BEq β] (key : σ → β) : List σ → Bool
  | first :: second :: rest => key first == key second || repeats key (second :: rest)
  | _ => false

variable [LE β] [Std.IsLinearOrder β] [BEq β] [LawfulBEq β] {key : σ → β} {order : σ → σ → Prop}

theorem repeats_iff (horder : ∀ a b, order a b → key a ≤ key b) {items : List σ}
    (hsorted : items.Pairwise order) : repeats key items = false ↔ (items.map key).Nodup := by
  induction items with
  | nil => exact iff_of_true rfl List.nodup_nil
  | cons first items ih =>
    rw [List.pairwise_cons] at hsorted
    rw [List.map_cons, List.nodup_cons, ← ih hsorted.2]
    cases items with
    | nil => simp [repeats]
    | cons second rest =>
      have hleast : ∀ other ∈ second :: rest, key second ≤ key other := by
        intro other hother
        rcases List.mem_cons.mp hother with rfl | hrest
        · exact Std.IsPreorder.le_refl _
        · exact horder _ _ ((List.pairwise_cons.mp hsorted.2).1 other hrest)
      have hfirst : key first ∈ (second :: rest).map key ↔ key first = key second := by
        constructor
        · intro hmem
          obtain ⟨other, hother, hkey⟩ := List.mem_map.mp hmem
          refine Std.IsPartialOrder.le_antisymm _ _ ?_ (hkey ▸ hleast other hother)
          exact horder _ _ (hsorted.1 second List.mem_cons_self)
        · intro hkey
          rw [hkey]
          exact List.mem_map_of_mem List.mem_cons_self
      rw [repeats, Bool.or_eq_false_iff, hfirst, beq_eq_false_iff_ne]

/-- Sorted one way or the other, two permutations are equal, or each has a key twice. -/
theorem sort_cases (horder : ∀ a b, order a b → key a ≤ key b) (left right : Sorting order)
    {first second : List σ} (h : first.Perm second) :
    (repeats key (left.sort first) = true ∧ repeats key (right.sort second) = true) ∨
      left.sort first = right.sort second := by
  have hperm : (left.sort first).Perm (right.sort second) :=
    ((left.perm first).trans h).trans (right.perm second).symm
  have hleft := repeats_iff horder (left.sorted first)
  have hright := repeats_iff horder (right.sorted second)
  have hkeys := (hperm.map key).nodup_iff
  by_cases hnodup : ((left.sort first).map key).Nodup
  · refine .inr (List.Perm.eq_of_pairwise ?_ (left.sorted first) (right.sorted second) hperm)
    intro a b ha hb hab hba
    refine List.inj_on_of_nodup_map hnodup ha (hperm.mem_iff.mpr hb) ?_
    exact Std.IsPartialOrder.le_antisymm _ _ (horder a b hab) (horder b a hba)
  · refine .inl ⟨?_, ?_⟩
    · rw [← Bool.not_eq_false, hleft]
      exact hnodup
    · rw [← Bool.not_eq_false, hright, ← hkeys]
      exact hnodup

end Ceasy.DirectoryScan
