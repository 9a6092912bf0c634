import Mathlib

set_option autoImplicit false

/-!
# Shelves

Values that are kept under keys, the keys being given out in ascending order and never again.
-/
namespace Shelves

variable {κ ν : Type*}

structure Shelf (κ ν : Type*) where
  entries : κ → Option ν
  /-- The last key that has been given out. -/
  last : κ

/-- The items are the entries, each under its key, in ascending order of the keys. -/
structure Lists [LT κ] (items : List (κ × ν)) (entries : κ → Option ν) : Prop where
  ascending : items.Pairwise fun a b => a.1 < b.1
  mem : ∀ key value, (key, value) ∈ items ↔ entries key = some value

section operations
variable [DecidableEq κ]

def Shelf.put (shelf : Shelf κ ν) (key : κ) (value : ν) : Shelf κ ν :=
  ⟨Function.update shelf.entries key (some value), key⟩

/-- What is kept under a key is changed, where there is something. -/
def Shelf.change (shelf : Shelf κ ν) (key : κ) (f : ν → ν) : Shelf κ ν :=
  { shelf with entries := Function.update shelf.entries key ((shelf.entries key).map f) }

def Shelf.drop (shelf : Shelf κ ν) (key : κ) : Shelf κ ν :=
  { shelf with entries := Function.update shelf.entries key none }

@[simp]
theorem Shelf.put_self (shelf : Shelf κ ν) (key : κ) (value : ν) :
    (shelf.put key value).entries key = some value := Function.update_self ..

@[simp]
theorem Shelf.change_self (shelf : Shelf κ ν) (key : κ) (f : ν → ν) :
    (shelf.change key f).entries key = (shelf.entries key).map f := Function.update_self ..

@[simp]
theorem Shelf.drop_self (shelf : Shelf κ ν) (key : κ) : (shelf.drop key).entries key = none :=
  Function.update_self ..

theorem Shelf.put_other {shelf : Shelf κ ν} {key other : κ} (h : other ≠ key) (value : ν) :
    (shelf.put key value).entries other = shelf.entries other := Function.update_of_ne h ..

theorem Shelf.change_other {shelf : Shelf κ ν} {key other : κ} (h : other ≠ key) (f : ν → ν) :
    (shelf.change key f).entries other = shelf.entries other := Function.update_of_ne h ..

theorem Shelf.drop_other {shelf : Shelf κ ν} {key other : κ} (h : other ≠ key) :
    (shelf.drop key).entries other = shelf.entries other := Function.update_of_ne h ..

/-- Where there is nothing, there is nothing to change or to drop. -/
theorem Shelf.change_missing {shelf : Shelf κ ν} {key : κ} (h : shelf.entries key = none) (f : ν → ν) :
    shelf.change key f = shelf := by
  rw [Shelf.change, h, Option.map_none, ← h, Function.update_eq_self]

theorem Shelf.drop_missing {shelf : Shelf κ ν} {key : κ} (h : shelf.entries key = none) :
    shelf.drop key = shelf := by
  rw [Shelf.drop, ← h, Function.update_eq_self]

variable [LT κ] {items : List (κ × ν)} {entries : κ → Option ν}

theorem Lists.snoc (h : Lists items entries) {key : κ} (hlarger : ∀ item ∈ items, item.1 < key)
    (hnew : entries key = none) (value : ν) :
    Lists (items ++ [(key, value)]) (Function.update entries key (some value)) := by
  refine ⟨?_, fun other found => ?_⟩
  · rw [List.pairwise_append]
    refine ⟨h.ascending, List.pairwise_singleton _ _, fun item hitem last hlast => ?_⟩
    rw [List.mem_singleton.mp hlast]
    exact hlarger item hitem
  · rw [List.mem_append, List.mem_singleton, h.mem, Prod.mk.injEq]
    by_cases hkey : other = key
    · subst hkey
      rw [Function.update_self, hnew, Option.some.injEq, eq_comm (a := value)]
      exact ⟨fun hfound => hfound.elim (fun hno => by cases hno) And.right, fun hsame => .inr ⟨rfl, hsame⟩⟩
    · rw [Function.update_of_ne hkey]
      exact or_iff_left fun hsame => hkey hsame.1

theorem Lists.change (h : Lists items entries) (key : κ) (f : ν → ν) :
    Lists (items.map fun item => if item.1 = key then (item.1, f item.2) else item)
      (Function.update entries key ((entries key).map f)) := by
  have hkeys : ∀ item : κ × ν, (if item.1 = key then (item.1, f item.2) else item).1 = item.1 := by
    intro item
    split_ifs <;> rfl
  refine ⟨?_, fun other found => ?_⟩
  · rw [List.pairwise_map]
    refine h.ascending.imp fun {first second} hless => ?_
    rw [hkeys, hkeys]
    exact hless
  · rw [List.mem_map]
    by_cases hkey : other = key
    · subst hkey
      rw [Function.update_self, Option.map_eq_some_iff]
      constructor
      · rintro ⟨⟨at_, value⟩, hitem, hsame⟩
        dsimp only at hsame
        split_ifs at hsame with hat
        · cases hsame
          exact ⟨value, (h.mem _ _).mp hitem, rfl⟩
        · cases hsame
          exact absurd rfl hat
      · rintro ⟨value, hvalue, rfl⟩
        exact ⟨(other, value), (h.mem _ _).mpr hvalue, if_pos rfl⟩
    · rw [Function.update_of_ne hkey, ← h.mem]
      constructor
      · rintro ⟨item, hitem, hsame⟩
        split_ifs at hsame with hat
        · exact absurd ((Prod.mk.inj hsame).1.symm.trans hat) hkey
        · exact hsame ▸ hitem
      · intro hitem
        exact ⟨(other, found), hitem, if_neg hkey⟩

theorem Lists.drop (h : Lists items entries) (key : κ) :
    Lists (items.filter fun item => item.1 ≠ key) (Function.update entries key none) := by
  refine ⟨h.ascending.filter _, fun other found => ?_⟩
  rw [List.mem_filter, h.mem, decide_eq_true_eq]
  by_cases hkey : other = key
  · subst hkey
    rw [Function.update_self]
    exact iff_of_false (fun hno => hno.2 rfl) (by simp)
  · rw [Function.update_of_ne hkey]
    exact and_iff_left hkey

/-- The entry under a key is the one that is found in the items. -/
theorem lists_find (h : items.Pairwise fun a b => a.1 < b.1) [Std.Irrefl fun a b : κ => a < b] :
    Lists items fun key => (items.find? fun item => item.1 = key).map Prod.snd := by
  refine ⟨h, fun key value => ?_⟩
  rw [Option.map_eq_some_iff]
  constructor
  · intro hmem
    cases hfind : items.find? fun item => item.1 = key with
    | none => exact absurd (decide_eq_true rfl) (List.find?_eq_none.mp hfind _ hmem)
    | some item =>
      have hkey := List.find?_some hfind
      rw [decide_eq_true_eq] at hkey
      have hdistinct : (items.map Prod.fst).Nodup := by
        rw [List.Nodup, List.pairwise_map]
        refine h.imp fun {a b} hless hsame => ?_
        rw [hsame] at hless
        exact absurd hless (Std.Irrefl.irrefl b.1)
      have hsame := List.inj_on_of_nodup_map hdistinct (List.mem_of_find?_eq_some hfind) hmem hkey
      exact ⟨item, rfl, congrArg Prod.snd hsame⟩
  · rintro ⟨item, hfind, rfl⟩
    have hkey := List.find?_some hfind
    rw [decide_eq_true_eq] at hkey
    exact hkey ▸ List.mem_of_find?_eq_some hfind

omit [DecidableEq κ] in
/-- The items have one entry for each key. -/
theorem Lists.unique {others : κ → Option ν} (h : Lists items entries) (hothers : Lists items others) :
    entries = others := by
  funext key
  refine Option.ext fun value => ?_
  rw [← h.mem, hothers.mem]

end operations

end Shelves
