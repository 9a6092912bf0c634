import Mathlib

set_option autoImplicit false

/-!
# Linear probing with tombstones

A table is a cyclic list of slots. An entry is found again because no empty slot
lies between the slot its key hashes to and the slot it is in, and because no two
entries have one key. Filling a slot or leaving a tombstone keeps both facts; the
table then behaves as a finite map from keys to entries.
-/
namespace LinearProbing

variable {κ ε : Type*}

inductive Slot (ε : Type*) where
  | empty
  | occupied (entry : ε)
  | tombstone
deriving DecidableEq, Repr

namespace Slot

def held? : Slot ε → Option ε
  | .occupied entry => some entry
  | _ => none

def isEmpty : Slot ε → Bool
  | .empty => true
  | _ => false

def isTombstone : Slot ε → Bool
  | .tombstone => true
  | _ => false

@[simp] theorem held?_eq_some {s : Slot ε} {e : ε} : s.held? = some e ↔ s = .occupied e := by
  cases s <;> simp [held?]

end Slot

def entries (t : List (Slot ε)) : List ε := t.filterMap Slot.held?

theorem mem_entries {t : List (Slot ε)} {e : ε} :
    e ∈ entries t ↔ ∃ p : ℕ, t[p]? = some (Slot.occupied e) := by
  simp [entries, List.mem_filterMap, ← List.mem_iff_getElem?]

theorem entries_replicate (n : ℕ) : entries (List.replicate n (.empty : Slot ε)) = [] := by
  simp [entries, Slot.held?]

theorem entries_count (t : List (Slot ε)) :
    (entries t).length + t.countP Slot.isTombstone + t.countP Slot.isEmpty = t.length := by
  induction t with
  | nil => rfl
  | cons s t ih =>
    unfold entries at *
    cases s with
    | empty =>
      rw [List.filterMap_cons_none rfl, List.countP_cons_of_neg (by simp [Slot.isTombstone]),
        List.countP_cons_of_pos rfl, List.length_cons]
      omega
    | occupied e =>
      rw [List.filterMap_cons_some (f := Slot.held?) rfl, List.countP_cons_of_neg (by simp [Slot.isTombstone]),
        List.countP_cons_of_neg (by simp [Slot.isEmpty]), List.length_cons, List.length_cons]
      omega
    | tombstone =>
      rw [List.filterMap_cons_none rfl, List.countP_cons_of_pos rfl,
        List.countP_cons_of_neg (by simp [Slot.isEmpty]), List.length_cons]
      omega

theorem exists_empty {t : List (Slot ε)}
    (h : (entries t).length + t.countP Slot.isTombstone < t.length) :
    ∃ p : ℕ, t[p]? = some Slot.empty := by
  have hcount := entries_count t
  have hpos : 0 < t.countP Slot.isEmpty := by omega
  obtain ⟨s, hs, hempty⟩ := List.countP_pos_iff.mp hpos
  cases s with
  | empty => exact List.mem_iff_getElem?.mp hs
  | occupied e => cases hempty
  | tombstone => cases hempty

theorem entries_set {t : List (Slot ε)} {p : ℕ} {old : Slot ε} (h : t[p]? = some old) :
    ∃ rest, (entries t).Perm (old.held?.toList ++ rest) ∧
      ∀ s, (entries (t.set p s)).Perm (s.held?.toList ++ rest) := by
  have hsplit : t = t.take p ++ old :: t.drop (p + 1) := by
    obtain ⟨hp, hget⟩ := List.getElem?_eq_some_iff.mp h
    rw [← hget, List.cons_getElem_drop_succ, List.take_append_drop]
  have hperm : ∀ s, (entries (t.take p ++ s :: t.drop (p + 1))).Perm
      (s.held?.toList ++ (entries (t.take p) ++ entries (t.drop (p + 1)))) := by
    intro s
    have hcons : s :: t.drop (p + 1) = [s] ++ t.drop (p + 1) := rfl
    have hone : entries [s] = s.held?.toList := by cases s <;> rfl
    rw [hcons]
    unfold entries at *
    rw [List.filterMap_append, List.filterMap_append, hone, ← List.append_assoc,
      ← List.append_assoc]
    exact List.perm_append_comm.append_right _
  refine ⟨_, by simpa [← hsplit] using hperm old, fun s => ?_⟩
  have hp : p < t.length := (List.getElem?_eq_some_iff.mp h).1
  rw [List.set_eq_take_append_cons_drop, if_pos hp]
  exact hperm s

theorem countP_set {t : List (Slot ε)} {p : ℕ} {old : Slot ε} (h : t[p]? = some old)
    (q : Slot ε → Bool) (s : Slot ε) :
    (t.set p s).countP q + (if q old then 1 else 0) = t.countP q + (if q s then 1 else 0) := by
  induction t generalizing p with
  | nil => simp at h
  | cons first t ih =>
    cases p with
    | zero =>
      rw [List.getElem?_cons_zero, Option.some.injEq] at h
      rw [h, List.set_cons_zero, List.countP_cons, List.countP_cons]
      omega
    | succ p =>
      rw [List.getElem?_cons_succ] at h
      have := ih h
      rw [List.set_cons_succ, List.countP_cons, List.countP_cons]
      omega

/-- The slot met after `i` steps around a table of `n` slots. -/
def position (n start i : ℕ) : ℕ := (start + i) % n

theorem position_lt {n : ℕ} (hn : 0 < n) (start i : ℕ) : position n start i < n :=
  Nat.mod_lt _ hn

theorem position_succ (n start i : ℕ) :
    position n start (i + 1) = (position n start i + 1) % n := by
  rw [position, position, Nat.mod_add_mod, Nat.add_assoc]

theorem position_surjective {n p : ℕ} (start : ℕ) (hp : p < n) :
    ∃ i < n, position n start i = p := by
  have hs : start % n < n := Nat.mod_lt _ (by omega)
  refine ⟨(p + (n - start % n)) % n, Nat.mod_lt _ (by omega), ?_⟩
  rw [position, Nat.add_mod_mod, ← Nat.mod_add_mod,
    show start % n + (p + (n - start % n)) = p + n by omega, Nat.add_mod_right, Nat.mod_eq_of_lt hp]

/-- The first `i` slots probed are not empty. -/
def Passes (t : List (Slot ε)) (start i : ℕ) : Prop :=
  ∀ j < i, t[position t.length start j]? ≠ some Slot.empty

/-- Probing from `start` comes to slot `p` before it meets an empty slot. -/
def Reached (t : List (Slot ε)) (start p : ℕ) : Prop :=
  ∃ i < t.length, position t.length start i = p ∧ Passes t start i

theorem reached_set {t : List (Slot ε)} {start p q : ℕ} {s : Slot ε} (h : Reached t start p)
    (hs : s ≠ .empty) : Reached (t.set q s) start p := by
  obtain ⟨i, hi, hp, hpass⟩ := h
  refine ⟨i, by rwa [List.length_set], by rwa [List.length_set], fun j hj => ?_⟩
  have hold := hpass j hj
  rw [List.length_set, List.getElem?_set]
  split_ifs with hq hlt
  · rw [ne_eq, Option.some.injEq]
    exact hs
  · simp
  · exact hold

/-- No key has two entries, and each entry is reached from its hash. -/
structure WellFormed (hash : κ → ℕ) (keyOf : ε → κ) (t : List (Slot ε)) : Prop where
  nodup : ((entries t).map keyOf).Nodup
  reached : ∀ p e, t[p]? = some (Slot.occupied e) → Reached t (hash (keyOf e)) p

section Table
variable {hash : κ → ℕ} {keyOf : ε → κ} {t : List (Slot ε)}

theorem wellFormed_replicate (n : ℕ) :
    WellFormed hash keyOf (List.replicate n (.empty : Slot ε)) where
  nodup := by rw [entries_replicate]; exact List.nodup_nil
  reached p e h := by simp [List.getElem?_replicate] at h

/-- A search that stops at an empty slot, or after a full turn, has missed no entry. -/
theorem WellFormed.absent (h : WellFormed hash keyOf t) {key : κ} {i : ℕ}
    (hpass : Passes t (hash key) i)
    (hmiss : ∀ j < i, ∀ e, t[position t.length (hash key) j]? = some (Slot.occupied e) → keyOf e ≠ key)
    (hstop : t.length ≤ i ∨ t[position t.length (hash key) i]? = some Slot.empty) :
    key ∉ (entries t).map keyOf := by
  intro hmem
  obtain ⟨e, he, rfl⟩ := List.mem_map.mp hmem
  obtain ⟨p, hp⟩ := mem_entries.mp he
  obtain ⟨k, hk, hpos, hfree⟩ := h.reached p e hp
  rw [← hpos] at hp
  rcases Nat.lt_trichotomy k i with hlt | heq | hgt
  · exact hmiss k hlt e hp rfl
  · rcases hstop with hfull | hempty
    · omega
    · rw [← heq, hp] at hempty
      cases hempty
  · rcases hstop with hfull | hempty
    · omega
    · exact hfree i hgt hempty

theorem WellFormed.set (h : WellFormed hash keyOf t) {p : ℕ} {s : Slot ε} (hs : s ≠ .empty)
    (hreach : ∀ e, s = .occupied e → Reached t (hash (keyOf e)) p)
    (hnodup : ((entries (t.set p s)).map keyOf).Nodup) : WellFormed hash keyOf (t.set p s) where
  nodup := hnodup
  reached q e hq := by
    rw [List.getElem?_set] at hq
    split_ifs at hq with hpq hlt
    · rw [Option.some.injEq] at hq
      rw [← hpq]
      exact reached_set (hreach e hq) hs
    · exact reached_set (h.reached q e hq) hs

theorem WellFormed.insert (h : WellFormed hash keyOf t) {p : ℕ} {old : Slot ε} {e : ε}
    (hp : t[p]? = some old) (hold : old.held? = none) (habsent : keyOf e ∉ (entries t).map keyOf)
    (hreach : Reached t (hash (keyOf e)) p) : WellFormed hash keyOf (t.set p (.occupied e)) := by
  obtain ⟨rest, hrest, hset⟩ := entries_set hp
  rw [hold] at hrest
  refine h.set (by simp) (fun e' he' => ?_) ?_
  · cases he'
    exact hreach
  · rw [((hset _).map keyOf).nodup_iff]
    have hkeys := hrest.map keyOf
    refine List.nodup_cons.mpr ⟨fun hmem => habsent (hkeys.mem_iff.mpr hmem), ?_⟩
    exact hkeys.nodup_iff.mp h.nodup

theorem WellFormed.replace (h : WellFormed hash keyOf t) {p : ℕ} {old e : ε}
    (hp : t[p]? = some (Slot.occupied old)) (hkey : keyOf e = keyOf old) :
    WellFormed hash keyOf (t.set p (.occupied e)) := by
  obtain ⟨rest, hrest, hset⟩ := entries_set hp
  refine h.set (by simp) (fun e' he' => ?_) ?_
  · cases he'
    rw [hkey]
    exact h.reached p old hp
  · rw [((hset _).map keyOf).nodup_iff]
    have hkeys := (hrest.map keyOf).nodup_iff.mp h.nodup
    simpa [Slot.held?, hkey] using hkeys

theorem WellFormed.remove (h : WellFormed hash keyOf t) {p : ℕ} {old : ε}
    (hp : t[p]? = some (Slot.occupied old)) : WellFormed hash keyOf (t.set p .tombstone) := by
  obtain ⟨rest, hrest, hset⟩ := entries_set hp
  refine h.set (by simp) (fun e' he' => by cases he') ?_
  rw [((hset _).map keyOf).nodup_iff]
  exact (List.nodup_cons.mp ((hrest.map keyOf).nodup_iff.mp h.nodup)).2

end Table

section Contents
variable [DecidableEq κ] {hash : κ → ℕ} {keyOf : ε → κ} {t : List (Slot ε)}

def lookup (keyOf : ε → κ) (l : List ε) (key : κ) : Option ε := l.find? fun e => keyOf e = key

def contents (keyOf : ε → κ) (t : List (Slot ε)) : κ → Option ε := lookup keyOf (entries t)

theorem lookup_eq_some {l : List ε} (h : (l.map keyOf).Nodup) {key : κ} {e : ε} :
    lookup keyOf l key = some e ↔ e ∈ l ∧ keyOf e = key := by
  constructor
  · intro hfind
    exact ⟨List.mem_of_find?_eq_some hfind, by simpa using List.find?_some hfind⟩
  · rintro ⟨hmem, rfl⟩
    induction l with
    | nil => cases hmem
    | cons first l ih =>
      rw [List.map_cons, List.nodup_cons] at h
      rcases List.mem_cons.mp hmem with rfl | hmem
      · simp [lookup]
      · have hne : keyOf first ≠ keyOf e := fun heq =>
          h.1 (heq ▸ List.mem_map_of_mem hmem)
        rw [lookup, List.find?_cons_of_neg (by simpa using hne)]
        exact ih h.2 hmem

theorem lookup_eq_none {l : List ε} {key : κ} :
    lookup keyOf l key = none ↔ key ∉ l.map keyOf := by
  simp [lookup]

theorem lookup_perm {l m : List ε} (h : (l.map keyOf).Nodup) (hperm : l.Perm m) :
    lookup keyOf l = lookup keyOf m := by
  have hm := (hperm.map keyOf).nodup_iff.mp h
  funext key
  apply Option.ext
  intro e
  rw [lookup_eq_some h, lookup_eq_some hm, hperm.mem_iff]

theorem lookup_cons (e : ε) (l : List ε) :
    lookup keyOf (e :: l) = Function.update (lookup keyOf l) (keyOf e) (some e) := by
  funext key
  by_cases hkey : key = keyOf e
  · simp [hkey, lookup]
  · rw [Function.update_of_ne hkey, lookup, List.find?_cons_of_neg (by simpa [eq_comm] using hkey)]
    rfl

theorem contents_eq_some (h : WellFormed hash keyOf t) {key : κ} {e : ε} :
    contents keyOf t key = some e ↔ ∃ p : ℕ, t[p]? = some (Slot.occupied e) ∧ keyOf e = key := by
  rw [contents, lookup_eq_some h.nodup, mem_entries, exists_and_right]

theorem contents_insert (h : WellFormed hash keyOf t) {p : ℕ} {old : Slot ε} {e : ε}
    (hp : t[p]? = some old) (hold : old.held? = none)
    (hnext : WellFormed hash keyOf (t.set p (.occupied e))) :
    contents keyOf (t.set p (.occupied e)) =
      Function.update (contents keyOf t) (keyOf e) (some e) := by
  obtain ⟨rest, hrest, hset⟩ := entries_set hp
  rw [hold] at hrest
  calc
    contents keyOf (t.set p (.occupied e)) = lookup keyOf (e :: rest) :=
      lookup_perm hnext.nodup (hset _)
    _ = Function.update (lookup keyOf rest) (keyOf e) (some e) := lookup_cons e rest
    _ = Function.update (contents keyOf t) (keyOf e) (some e) := by
      rw [contents, lookup_perm h.nodup hrest]
      rfl

theorem contents_replace (h : WellFormed hash keyOf t) {p : ℕ} {old e : ε}
    (hp : t[p]? = some (Slot.occupied old)) (hkey : keyOf e = keyOf old) :
    contents keyOf (t.set p (.occupied e)) =
      Function.update (contents keyOf t) (keyOf e) (some e) := by
  obtain ⟨rest, hrest, hset⟩ := entries_set hp
  calc
    contents keyOf (t.set p (.occupied e)) = lookup keyOf (e :: rest) :=
      lookup_perm (h.replace hp hkey).nodup (hset _)
    _ = Function.update (lookup keyOf (old :: rest)) (keyOf e) (some e) := by
      rw [lookup_cons, lookup_cons, hkey, Function.update_idem]
    _ = Function.update (contents keyOf t) (keyOf e) (some e) := by
      rw [contents, lookup_perm h.nodup hrest]
      rfl

theorem contents_remove (h : WellFormed hash keyOf t) {p : ℕ} {old : ε}
    (hp : t[p]? = some (Slot.occupied old)) :
    contents keyOf (t.set p .tombstone) = Function.update (contents keyOf t) (keyOf old) none := by
  obtain ⟨rest, hrest, hset⟩ := entries_set hp
  have hkeys := (hrest.map keyOf).nodup_iff.mp h.nodup
  have hnone : lookup keyOf rest (keyOf old) = none :=
    lookup_eq_none.mpr (List.nodup_cons.mp hkeys).1
  calc
    contents keyOf (t.set p .tombstone) = lookup keyOf rest :=
      lookup_perm (h.remove hp).nodup (hset _)
    _ = Function.update (lookup keyOf (old :: rest)) (keyOf old) none := by
      rw [lookup_cons, Function.update_idem, ← hnone, Function.update_eq_self]
    _ = Function.update (contents keyOf t) (keyOf old) none := by
      rw [contents, lookup_perm h.nodup hrest]
      rfl

theorem contents_replicate (n : ℕ) :
    contents keyOf (List.replicate n (.empty : Slot ε)) = fun _ => none := by
  rw [contents, entries_replicate]
  rfl

end Contents
end LinearProbing
