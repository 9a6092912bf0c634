import Mathlib.Logic.Relation
import Mathlib.Data.List.Basic

set_option autoImplicit false

/-!
# Depth-first search for a cycle

The vertices are numbers and `next` lists the successors of each. A search marks a
vertex when it enters it and again when it leaves it; to meet a vertex that has
been entered and not left is to have closed a cycle. The search is exact, and it
nests no deeper than there are vertices.
-/
namespace Ceasy.DepthFirst
open Relation

inductive Mark where
  | fresh
  | entered
  | left
deriving DecidableEq, Repr

/-- The successors one after the other; `false` is a cycle, and nothing is too little fuel. -/
def visitAll (visit : ℕ → List Mark → Option (Bool × List Mark)) :
    List ℕ → List Mark → Option (Bool × List Mark)
  | [], marks => some (true, marks)
  | v :: vs, marks =>
    if marks[v]? = some .entered then some (false, marks)
    else if marks[v]? = some .fresh then
      match visit v marks with
      | none => none
      | some (false, marks) => some (false, marks)
      | some (true, marks) => visitAll visit vs marks
    else visitAll visit vs marks

def visit (next : ℕ → List ℕ) : ℕ → ℕ → List Mark → Option (Bool × List Mark)
  | 0, _, _ => none
  | fuel + 1, v, marks =>
    match visitAll (visit next fuel) (next v) (marks.set v .entered) with
    | none => none
    | some (false, marks) => some (false, marks)
    | some (true, marks) => some (true, marks.set v .left)

def search (visit : ℕ → List Mark → Option (Bool × List Mark)) : List ℕ → List Mark → Option Bool
  | [], _ => some true
  | v :: vs, marks =>
    if marks[v]? = some .fresh then
      match visit v marks with
      | none => none
      | some (false, _) => some false
      | some (true, marks) => search visit vs marks
    else search visit vs marks

section Exactness
variable {next : ℕ → List ℕ} {n : ℕ}

def Edge (next : ℕ → List ℕ) (v w : ℕ) : Prop := w ∈ next v

def Cyclic (next : ℕ → List ℕ) : Prop := ∃ v, TransGen (Edge next) v v

/-- The edges run between the vertices below `n`. -/
def Within (next : ℕ → List ℕ) (n : ℕ) : Prop := ∀ v w, Edge next v w → v < n ∧ w < n

/-- What has been left leads only to what has been left, and lies on no cycle. -/
structure Settled (next : ℕ → List ℕ) (marks : List Mark) : Prop where
  closed : ∀ v w : ℕ, marks[v]? = some .left → Edge next v w → marks[w]? = some .left
  acyclic : ∀ v : ℕ, marks[v]? = some .left → ¬ TransGen (Edge next) v v

structure Advanced (marks after : List Mark) : Prop where
  length : after.length = marks.length
  fresh : after.count .fresh ≤ marks.count .fresh
  entered : ∀ v : ℕ, after[v]? = some .entered ↔ marks[v]? = some .entered
  left : ∀ v : ℕ, marks[v]? = some .left → after[v]? = some .left

theorem Advanced.refl (marks : List Mark) : Advanced marks marks :=
  ⟨rfl, Nat.le_refl _, fun _ => Iff.rfl, fun _ h => h⟩

theorem Advanced.trans {first second third : List Mark} (h : Advanced first second)
    (h' : Advanced second third) : Advanced first third where
  length := h'.length.trans h.length
  fresh := Nat.le_trans h'.fresh h.fresh
  entered v := (h'.entered v).trans (h.entered v)
  left v hv := h'.left v (h.left v hv)

/-- What is reached from a vertex that has been left has been left. -/
theorem Settled.reached {marks : List Mark} (h : Settled next marks) {v w : ℕ}
    (hv : marks[v]? = some .left) (hreach : ReflTransGen (Edge next) v w) :
    marks[w]? = some .left := by
  induction hreach with
  | refl => exact hv
  | tail _ hedge ih => exact h.closed _ _ ih hedge

theorem count_entered {marks : List Mark} {v : ℕ} (hv : marks[v]? = some .fresh) :
    (marks.set v .entered).count .fresh + 1 = marks.count .fresh := by
  obtain ⟨hlength, hmark⟩ := List.getElem?_eq_some_iff.mp hv
  have hmem : Mark.fresh ∈ marks := List.mem_of_getElem? hv
  have hpos := List.count_pos_iff.mpr hmem
  rw [List.count_set hlength, hmark]
  simp
  omega

/-- How a call ends: with a cycle that exists, or with what it should have left behind. -/
def Ends (next : ℕ → List ℕ) (result : Option (Bool × List Mark)) (done : List Mark → Prop) : Prop :=
  ∃ ok after, result = some (ok, after) ∧ (ok = false → Cyclic next) ∧ (ok = true → done after)

/-- What a visit does when it has fuel for every fresh vertex and the entered vertices
    lead to where it starts. -/
def Visits (next : ℕ → List ℕ) (n : ℕ) (visit : ℕ → List Mark → Option (Bool × List Mark))
    (fuel : ℕ) : Prop :=
  ∀ v marks, marks.length = n → marks[v]? = some .fresh → marks.count .fresh ≤ fuel →
    Settled next marks →
    (∀ u : ℕ, marks[u]? = some .entered → ReflTransGen (Edge next) u v) →
    Ends next (visit v marks) fun after =>
      Settled next after ∧ Advanced marks after ∧ after[v]? = some .left

theorem visitAll_ends (hwithin : Within next n)
    {visit : ℕ → List Mark → Option (Bool × List Mark)} {fuel : ℕ} (hvisit : Visits next n visit fuel)
    {v : ℕ} (vs : List ℕ) (hvs : ∀ w ∈ vs, Edge next v w) (marks : List Mark)
    (hlength : marks.length = n) (hfuel : marks.count .fresh ≤ fuel) (hsettled : Settled next marks)
    (hentered : ∀ u : ℕ, marks[u]? = some .entered → ReflTransGen (Edge next) u v) :
    Ends next (visitAll visit vs marks) fun after =>
      Settled next after ∧ Advanced marks after ∧ ∀ w ∈ vs, after[w]? = some .left := by
  induction vs generalizing marks with
  | nil => exact ⟨true, marks, rfl, nofun, fun _ => ⟨hsettled, .refl _, by simp⟩⟩
  | cons w ws ih =>
    have hedge := hvs w List.mem_cons_self
    have hrest : ∀ u ∈ ws, Edge next v u := fun u hu => hvs u (List.mem_cons_of_mem _ hu)
    rw [visitAll]
    by_cases hmet : marks[w]? = some .entered
    · rw [if_pos hmet]
      refine ⟨false, marks, rfl, fun _ => ⟨w, ?_⟩, nofun⟩
      exact TransGen.tail' (hentered w hmet) hedge
    rw [if_neg hmet]
    by_cases hfresh : marks[w]? = some .fresh
    · rw [if_pos hfresh]
      obtain ⟨ok, middle, hresult, hcycle, hdone⟩ := hvisit w marks hlength hfresh hfuel hsettled
        fun u hu => (hentered u hu).tail hedge
      rw [hresult]
      cases ok with
      | false => exact ⟨false, middle, rfl, hcycle, nofun⟩
      | true =>
        obtain ⟨hsettled', hadvanced, hleft⟩ := hdone rfl
        obtain ⟨ok, after, hresult', hcycle', hdone'⟩ := ih hrest middle
          (hadvanced.length.trans hlength) (Nat.le_trans hadvanced.fresh hfuel) hsettled'
          fun u hu => hentered u ((hadvanced.entered u).mp hu)
        refine ⟨ok, after, hresult', hcycle', fun hok => ?_⟩
        obtain ⟨hsettled'', hadvanced', hall⟩ := hdone' hok
        refine ⟨hsettled'', hadvanced.trans hadvanced', ?_⟩
        intro u hu
        rcases List.mem_cons.mp hu with rfl | hu
        · exact hadvanced'.left u hleft
        · exact hall u hu
    rw [if_neg hfresh]
    have hleft : marks[w]? = some .left := by
      have hw : w < marks.length := hlength ▸ (hwithin v w hedge).2
      rw [List.getElem?_eq_getElem hw] at hmet hfresh ⊢
      cases hmark : marks[w] with
      | fresh => exact absurd (congrArg some hmark) hfresh
      | entered => exact absurd (congrArg some hmark) hmet
      | left => rfl
    obtain ⟨ok, after, hresult, hcycle, hdone⟩ := ih hrest marks hlength hfuel hsettled hentered
    refine ⟨ok, after, hresult, hcycle, fun hok => ?_⟩
    obtain ⟨hsettled', hadvanced, hall⟩ := hdone hok
    refine ⟨hsettled', hadvanced, ?_⟩
    intro u hu
    rcases List.mem_cons.mp hu with rfl | hu
    · exact hadvanced.left u hleft
    · exact hall u hu

theorem Settled.leave {marks : List Mark} (h : Settled next marks) {v : ℕ} (hv : v < marks.length)
    (hmark : marks[v]? ≠ some .left) (hnext : ∀ w ∈ next v, marks[w]? = some .left) :
    Settled next (marks.set v .left) := by
  have hset : ∀ w : ℕ, (marks.set v .left)[w]? = some .left ↔ w = v ∨ marks[w]? = some .left := by
    intro w
    by_cases hw : v = w
    · subst hw
      simp [hv]
    · rw [List.getElem?_set_ne hw]
      exact (or_iff_right fun h => hw h.symm).symm
  constructor
  · intro u w hu hedge
    rw [hset] at hu ⊢
    right
    rcases hu with rfl | hu
    · exact hnext w hedge
    · exact h.closed u w hu hedge
  · intro u hu hcycle
    rcases (hset u).mp hu with rfl | hu
    · obtain ⟨w, hedge, hreach⟩ := TransGen.head'_iff.mp hcycle
      exact hmark (h.reached (hnext w hedge) hreach)
    · exact h.acyclic u hu hcycle

theorem visit_ends (hwithin : Within next n) (fuel : ℕ) : Visits next n (visit next fuel) fuel := by
  induction fuel with
  | zero =>
    intro v marks hlength hfresh hfuel
    have hpos := List.count_pos_iff.mpr (List.mem_of_getElem? hfresh)
    omega
  | succ fuel ih =>
    intro v marks hlength hfresh hfuel hsettled hentered
    have hv : v < marks.length := (List.getElem?_eq_some_iff.mp hfresh).1
    have hcount := count_entered hfresh
    have hset : ∀ u : ℕ, (marks.set v .entered)[u]? = if v = u then some .entered else marks[u]? := by
      intro u
      rw [List.getElem?_set]
      simp only [hv, if_true]
    have hsettled' : Settled next (marks.set v .entered) := by
      constructor
      · intro u w hu hedge
        rw [hset] at hu ⊢
        split_ifs at hu with huv
        · cases hu
        have hleft := hsettled.closed u w hu hedge
        rw [if_neg]
        · exact hleft
        · rintro rfl
          rw [hfresh] at hleft
          cases hleft
      · intro u hu
        rw [hset] at hu
        split_ifs at hu
        · cases hu
        · exact hsettled.acyclic u hu
    have hentered' : ∀ u : ℕ, (marks.set v .entered)[u]? = some .entered →
        ReflTransGen (Edge next) u v := by
      intro u hu
      rw [hset] at hu
      split_ifs at hu with huv
      · rw [huv]
      · exact hentered u hu
    obtain ⟨ok, after, hresult, hcycle, hdone⟩ := visitAll_ends hwithin ih (next v)
      (fun w hw => hw) (marks.set v .entered) (by rw [List.length_set, hlength]) (by omega)
      hsettled' hentered'
    rw [visit, hresult]
    cases ok with
    | false => exact ⟨false, after, rfl, hcycle, nofun⟩
    | true =>
      obtain ⟨hsettled'', hadvanced, hall⟩ := hdone rfl
      have hlength' : after.length = marks.length := by rw [hadvanced.length, List.length_set]
      have hvafter : after[v]? = some .entered := by
        rw [hadvanced.entered, hset, if_pos rfl]
      refine ⟨true, after.set v .left, rfl, nofun, fun _ => ⟨?_, ?_, ?_⟩⟩
      · refine hsettled''.leave (hlength' ▸ hv) (fun h => ?_) hall
        rw [hvafter] at h
        cases h
      · have hmarked : ∀ u : ℕ, v ≠ u → (after.set v .left)[u]? = after[u]? :=
          fun u hu => List.getElem?_set_ne hu
        refine ⟨by rw [List.length_set, hlength'], ?_, ?_, ?_⟩
        · have hfewer := hadvanced.fresh
          have hkept : (after.set v .left).count .fresh ≤ after.count .fresh := by
            rw [List.count_set (hlength' ▸ hv)]
            simp
          omega
        · intro u
          by_cases hu : v = u
          · subst hu
            rw [List.getElem?_set_self (hlength' ▸ hv), hfresh]
            simp
          · rw [hmarked u hu, hadvanced.entered, hset, if_neg hu]
        · intro u hleft
          by_cases hu : v = u
          · subst hu
            exact List.getElem?_set_self (hlength' ▸ hv)
          · rw [hmarked u hu]
            exact hadvanced.left u (by rw [hset, if_neg hu]; exact hleft)
      · exact List.getElem?_set_self (hlength' ▸ hv)

theorem search_ends (hwithin : Within next n) {fuel : ℕ} (vs : List ℕ) (marks : List Mark)
    (hlength : marks.length = n) (hfuel : marks.count .fresh ≤ fuel) (hsettled : Settled next marks)
    (hentered : ∀ u : ℕ, marks[u]? ≠ some .entered) :
    ∃ ok, search (visit next fuel) vs marks = some ok ∧ (ok = false → Cyclic next) ∧
      (ok = true → ∃ after, Settled next after ∧ Advanced marks after ∧
        ∀ v ∈ vs, v < n → after[v]? = some .left) := by
  induction vs generalizing marks with
  | nil => exact ⟨true, rfl, nofun, fun _ => ⟨marks, hsettled, .refl _, by simp⟩⟩
  | cons v vs ih =>
    rw [search]
    by_cases hfresh : marks[v]? = some .fresh
    · rw [if_pos hfresh]
      obtain ⟨ok, middle, hresult, hcycle, hdone⟩ := visit_ends hwithin fuel v marks hlength hfresh
        hfuel hsettled fun u hu => absurd hu (hentered u)
      rw [hresult]
      cases ok with
      | false => exact ⟨false, rfl, hcycle, nofun⟩
      | true =>
        obtain ⟨hsettled', hadvanced, hleft⟩ := hdone rfl
        obtain ⟨ok, hresult', hcycle', hdone'⟩ := ih middle (hadvanced.length.trans hlength)
          (Nat.le_trans hadvanced.fresh hfuel) hsettled'
          fun u hu => hentered u ((hadvanced.entered u).mp hu)
        refine ⟨ok, hresult', hcycle', fun hok => ?_⟩
        obtain ⟨after, hsettled'', hadvanced', hall⟩ := hdone' hok
        refine ⟨after, hsettled'', hadvanced.trans hadvanced', ?_⟩
        intro u hu hun
        rcases List.mem_cons.mp hu with rfl | hu
        · exact hadvanced'.left u hleft
        · exact hall u hu hun
    rw [if_neg hfresh]
    obtain ⟨ok, hresult, hcycle, hdone⟩ := ih marks hlength hfuel hsettled hentered
    refine ⟨ok, hresult, hcycle, fun hok => ?_⟩
    obtain ⟨after, hsettled', hadvanced, hall⟩ := hdone hok
    refine ⟨after, hsettled', hadvanced, ?_⟩
    intro u hu hun
    rcases List.mem_cons.mp hu with rfl | hu
    · have hmarked := hentered u
      rw [List.getElem?_eq_getElem (hlength ▸ hun)] at hmarked hfresh
      apply hadvanced.left u
      rw [List.getElem?_eq_getElem (hlength ▸ hun)]
      cases hmark : marks[u] with
      | fresh => exact absurd (congrArg some hmark) hfresh
      | entered => exact absurd (congrArg some hmark) hmarked
      | left => rfl
    · exact hall u hu hun

/-- With fuel for every vertex the search ends, and it finds a cycle exactly if there is one. -/
theorem search_exact (hwithin : Within next n) :
    ∃ ok, search (visit next n) (List.range n) (List.replicate n .fresh) = some ok ∧
      (ok = true ↔ ¬ Cyclic next) := by
  have hnone : ∀ v : ℕ, ∀ mark, (List.replicate n Mark.fresh)[v]? = some mark → mark = .fresh := by
    intro v mark hmark
    exact (List.mem_replicate.mp (List.mem_of_getElem? hmark)).2
  obtain ⟨ok, hresult, hcycle, hdone⟩ := @search_ends _ _ hwithin n (List.range n)
    (List.replicate n .fresh) List.length_replicate
    (Nat.le_trans List.count_le_length (Nat.le_of_eq List.length_replicate))
    ⟨fun v w hv => (nomatch hnone v _ hv), fun v hv => (nomatch hnone v _ hv)⟩
    (fun v hv => (nomatch hnone v _ hv))
  refine ⟨ok, hresult, ?_⟩
  cases ok with
  | false => exact iff_of_false (by simp) (not_not_intro (hcycle rfl))
  | true =>
    obtain ⟨after, hsettled, -, hall⟩ := hdone rfl
    refine iff_of_true rfl ?_
    rintro ⟨v, hv⟩
    obtain ⟨w, hedge, -⟩ := TransGen.head'_iff.mp hv
    have hn := (hwithin v w hedge).1
    exact hsettled.acyclic v (hall v (List.mem_range.mpr hn) hn) hv

end Exactness

end Ceasy.DepthFirst
