import Mathlib

set_option autoImplicit false

/-!
# Dialogues

A dialogue is a program that makes calls to a world it does not control: it is
done with a result, or it makes a call and goes on with the answer. Several
dialogues with one world take turns, one call at a time, in any order.

What a single dialogue does against every possible answer is stated by
`Dialogue.Keeps` over the events it has seen so far; `Run.keeps` carries it to
every interleaving.
-/
namespace Ceasy

universe u v w

inductive Dialogue (C : Type u) (A : C → Type v) (R : Type w) where
  | done (result : R)
  | call (c : C) (next : A c → Dialogue C A R)

structure Event (C : Type u) (A : C → Type v) where
  call : C
  answer : A call

namespace Dialogue

variable {C : Type u} {A : C → Type v} {R S T : Type w}

def bind : Dialogue C A R → (R → Dialogue C A S) → Dialogue C A S
  | .done result, f => f result
  | .call c next, f => .call c fun answer => (next answer).bind f

@[simp]
theorem done_bind (result : R) (f : R → Dialogue C A S) : (done result).bind f = f result := rfl

@[simp]
theorem call_bind (c : C) (next : A c → Dialogue C A R) (f : R → Dialogue C A S) :
    (call c next).bind f = .call c fun answer => (next answer).bind f := rfl

theorem bind_assoc (d : Dialogue C A R) (f : R → Dialogue C A S) (g : S → Dialogue C A T) :
    (d.bind f).bind g = d.bind fun result => (f result).bind g := by
  induction d with
  | done result => rfl
  | call c next ih =>
    rw [call_bind, call_bind, call_bind]
    congr 1
    funext answer
    exact ih answer

inductive Leads : Dialogue C A R → List (Event C A) → Dialogue C A R → Prop where
  | nil (d : Dialogue C A R) : Leads d [] d
  | cons {c : C} {next : A c → Dialogue C A R} {answer : A c} {events : List (Event C A)}
    {d : Dialogue C A R} (h : Leads (next answer) events d) :
    Leads (.call c next) (⟨c, answer⟩ :: events) d

theorem Leads.snoc {d : Dialogue C A R} {c : C} {next : A c → Dialogue C A R}
    {events : List (Event C A)} (h : Leads d events (.call c next)) (answer : A c) :
    Leads d (events ++ [⟨c, answer⟩]) (next answer) := by
  generalize hleft : Dialogue.call c next = left at h
  induction h with
  | nil d =>
    rw [← hleft]
    exact .cons (.nil _)
  | cons _ ih => exact .cons (ih hleft)

@[simp]
theorem leads_nil_iff {d left : Dialogue C A R} : Leads d [] left ↔ left = d := by
  constructor
  · intro h
    generalize hevents : [] = events at h
    cases h with
    | nil => rfl
    | cons => cases hevents
  · intro h
    rw [h]
    exact .nil d

theorem Leads.snoc_inv {d left : Dialogue C A R} {events : List (Event C A)} {event : Event C A}
    (h : Leads d (events ++ [event]) left) :
    ∃ next, Leads d events (.call event.call next) ∧ left = next event.answer := by
  induction events generalizing d with
  | nil =>
    cases h with
    | cons h => exact ⟨_, .nil _, leads_nil_iff.mp h⟩
  | cons first events ih =>
    cases h with
    | cons h =>
      obtain ⟨next, hleads, hleft⟩ := ih h
      exact ⟨next, .cons hleads, hleft⟩

theorem Leads.bind {d : Dialogue C A R} {f : R → Dialogue C A S} {events more : List (Event C A)}
    {result : R} {left : Dialogue C A S} (h : Leads d events (.done result))
    (hmore : Leads (f result) more left) : Leads (d.bind f) (events ++ more) left := by
  generalize hdone : Dialogue.done result = last at h
  induction h with
  | nil d =>
    rw [← hdone]
    exact hmore
  | cons _ ih => exact .cons (ih hdone)

/-- What is left of the first of two dialogues is followed by the second. -/
theorem Leads.followed {d left : Dialogue C A R} {events : List (Event C A)} (h : Leads d events left)
    (f : R → Dialogue C A S) : Leads (d.bind f) events (left.bind f) := by
  induction h with
  | nil d => exact .nil _
  | cons _ ih => exact .cons ih

/-- Whatever the answers, each call is allowed by the events before it, and the result
    by all of them. -/
def Keeps (safe : List (Event C A) → C → Prop) (post : List (Event C A) → R → Prop) :
    List (Event C A) → Dialogue C A R → Prop
  | history, .done result => post history result
  | history, .call c next =>
    safe history c ∧ ∀ answer, Keeps safe post (history ++ [⟨c, answer⟩]) (next answer)

variable {safe : List (Event C A) → C → Prop} {post : List (Event C A) → R → Prop}
  {history : List (Event C A)}

@[simp]
theorem keeps_done (result : R) : Keeps safe post history (done result) ↔ post history result :=
  Iff.rfl

@[simp]
theorem keeps_call (c : C) (next : A c → Dialogue C A R) :
    Keeps safe post history (call c next) ↔
      safe history c ∧ ∀ answer, Keeps safe post (history ++ [⟨c, answer⟩]) (next answer) := Iff.rfl

theorem Keeps.bind {d : Dialogue C A R} {f : R → Dialogue C A S}
    {last : List (Event C A) → S → Prop} (h : Keeps safe post history d)
    (hf : ∀ history result, post history result → Keeps safe last history (f result)) :
    Keeps safe last history (d.bind f) := by
  induction d generalizing history with
  | done result => exact hf history result h
  | call c next ih => exact ⟨h.1, fun answer => ih answer (h.2 answer)⟩

theorem Keeps.mono {d : Dialogue C A R} {post' : List (Event C A) → R → Prop}
    (h : Keeps safe post history d) (hpost : ∀ history result, post history result → post' history result) :
    Keeps safe post' history d := by
  induction d generalizing history with
  | done result => exact hpost history result h
  | call c next ih => exact ⟨h.1, fun answer => ih answer (h.2 answer)⟩

/-- The events since `history` and the result are related. -/
def After (history : List (Event C A)) (result : List (Event C A) → R → Prop) :
    List (Event C A) → R → Prop :=
  fun later r => ∃ events, later = history ++ events ∧ result events r

theorem keeps_after_done {result : List (Event C A) → R → Prop} {r : R} (h : result [] r) :
    Keeps safe (After history result) history (done r) :=
  ⟨[], (List.append_nil _).symm, h⟩

theorem keeps_after_call {result : List (Event C A) → R → Prop} {c : C}
    {next : A c → Dialogue C A R} (hsafe : safe history c)
    (hnext : ∀ answer, Keeps safe
      (After (history ++ [⟨c, answer⟩]) fun events r => result (⟨c, answer⟩ :: events) r)
      (history ++ [⟨c, answer⟩]) (next answer)) :
    Keeps safe (After history result) history (call c next) := by
  refine ⟨hsafe, fun answer => (hnext answer).mono ?_⟩
  intro later r hlater
  obtain ⟨events, rfl, hresult⟩ := hlater
  exact ⟨_, List.append_assoc _ _ _, hresult⟩

theorem Keeps.after_bind {d : Dialogue C A R} {f : R → Dialogue C A S}
    {first : List (Event C A) → R → Prop} {result : List (Event C A) → S → Prop}
    (h : Keeps safe (After history first) history d)
    (hf : ∀ events r, first events r → Keeps safe
      (After (history ++ events) fun more s => result (events ++ more) s) (history ++ events) (f r)) :
    Keeps safe (After history result) history (d.bind f) := by
  apply h.bind
  intro later r hlater
  obtain ⟨events, rfl, hfirst⟩ := hlater
  apply (hf events r hfirst).mono
  intro last s hlast
  obtain ⟨more, rfl, hresult⟩ := hlast
  exact ⟨_, List.append_assoc _ _ _, hresult⟩

theorem Keeps.after_mono {d : Dialogue C A R} {first result : List (Event C A) → R → Prop}
    (h : Keeps safe (After history first) history d)
    (himp : ∀ events r, first events r → result events r) :
    Keeps safe (After history result) history d := by
  apply h.mono
  intro later r hlater
  obtain ⟨events, rfl, hfirst⟩ := hlater
  exact ⟨events, rfl, himp events r hfirst⟩

/-- Each call of a dialogue that keeps to `safe` is allowed by what came before it. -/
theorem Keeps.allows {d left : Dialogue C A R} {events : List (Event C A)}
    (h : Keeps safe post history d) (hleads : Leads d events left) {event : Event C A}
    (hmem : event ∈ events) : ∃ earlier, safe earlier event.call := by
  induction hleads generalizing history with
  | nil => cases hmem
  | cons _ ih =>
    rcases List.mem_cons.mp hmem with rfl | hlater
    · exact ⟨history, h.1⟩
    · exact ih (h.2 _) hlater

theorem Keeps.leads {d left : Dialogue C A R} {events : List (Event C A)}
    (h : Keeps safe post history d) (hleads : Leads d events left) :
    Keeps safe post (history ++ events) left := by
  induction hleads generalizing history with
  | nil d =>
    rw [List.append_nil]
    exact h
  | @cons c next answer events left _ ih =>
    have hrest := ih (h.2 answer)
    rw [List.append_assoc] at hrest
    exact hrest

def run {W : Type*} (serve : (c : C) → W → A c × W) : Dialogue C A R → W → R × W
  | .done result, world => (result, world)
  | .call c next, world => run serve (next (serve c world).1) (serve c world).2

variable {W : Type*} {serve : (c : C) → W → A c × W}

@[simp]
theorem run_call (c : C) (next : A c → Dialogue C A R) (world : W) :
    run serve (call c next) world = run serve (next (serve c world).1) (serve c world).2 := rfl

@[simp]
theorem run_bind (d : Dialogue C A R) (f : R → Dialogue C A S) (world : W) :
    run serve (d.bind f) world = run serve (f (run serve d world).1) (run serve d world).2 := by
  induction d generalizing world with
  | done result => rfl
  | call c next ih => exact ih _ _

theorem run_holds {Holds : W → Prop} (h : ∀ c world, Holds world → Holds (serve c world).2)
    (d : Dialogue C A R) {world : W} (hworld : Holds world) : Holds (d.run serve world).2 := by
  induction d generalizing world with
  | done result => exact hworld
  | call c next ih => exact ih _ (h c world hworld)

/-- What holds after every answer holds when a world serves the calls. -/
theorem Keeps.run {safe : List (Event C A) → C → Prop} {post : List (Event C A) → R → Prop}
    {history : List (Event C A)} {d : Dialogue C A R} (h : Keeps safe post history d)
    (serve : (c : C) → W → A c × W) (world : W) :
    ∃ events, post (history ++ events) (d.run serve world).1 := by
  induction d generalizing history world with
  | done result => exact ⟨[], by rw [List.append_nil]; exact h⟩
  | call c next ih =>
    obtain ⟨events, hpost⟩ := ih _ (h.2 (serve c world).1) (serve c world).2
    refine ⟨⟨c, (serve c world).1⟩ :: events, ?_⟩
    rw [List.append_cons]
    exact hpost

inductive Serves (answers : W → (c : C) → A c → W → Prop) : W → List (Event C A) → W → Prop where
  | nil (world : W) : Serves answers world [] world
  | cons {world next last : W} {event : Event C A} {events : List (Event C A)}
    (h : answers world event.call event.answer next) (hrest : Serves answers next events last) :
    Serves answers world (event :: events) last

variable {answers : W → (c : C) → A c → W → Prop} {world last : W}

theorem serves_nil : Serves answers world [] last ↔ last = world := by
  constructor
  · intro h
    cases h
    rfl
  · intro h
    rw [h]
    exact .nil world

theorem serves_cons {event : Event C A} {events : List (Event C A)} :
    Serves answers world (event :: events) last ↔
      ∃ next, answers world event.call event.answer next ∧ Serves answers next events last := by
  constructor
  · intro h
    cases h with
    | cons h hrest => exact ⟨_, h, hrest⟩
  · intro h
    obtain ⟨next, hanswer, hrest⟩ := h
    exact .cons hanswer hrest

theorem serves_append {first second : List (Event C A)} :
    Serves answers world (first ++ second) last ↔
      ∃ middle, Serves answers world first middle ∧ Serves answers middle second last := by
  induction first generalizing world with
  | nil => simp [serves_nil]
  | cons event first ih =>
    rw [List.cons_append, serves_cons]
    constructor
    · intro h
      obtain ⟨next, hanswer, hrest⟩ := h
      obtain ⟨middle, hfirst, hsecond⟩ := ih.mp hrest
      exact ⟨middle, .cons hanswer hfirst, hsecond⟩
    · intro h
      obtain ⟨middle, hfirst, hsecond⟩ := h
      obtain ⟨next, hanswer, hrest⟩ := serves_cons.mp hfirst
      exact ⟨next, hanswer, ih.mpr ⟨middle, hrest, hsecond⟩⟩

end Dialogue

open Dialogue

structure Pool (ι : Type*) (C : Type u) (A : C → Type v) (R : Type w) (W : Type*) where
  parties : ι → Dialogue C A R
  world : W

section Pool

variable {ι W : Type*} {C : Type u} {A : C → Type v} {R : Type w} [DecidableEq ι]

def Pool.advance (pool : Pool ι C A R W) (i : ι) (left : Dialogue C A R) (world : W) : Pool ι C A R W :=
  ⟨Function.update pool.parties i left, world⟩

@[simp]
theorem Pool.advance_self (pool : Pool ι C A R W) (i : ι) (left : Dialogue C A R) (world : W) :
    (pool.advance i left world).parties i = left := Function.update_self ..

theorem Pool.advance_of_ne (pool : Pool ι C A R W) {i j : ι} (h : i ≠ j) (left : Dialogue C A R)
    (world : W) : (pool.advance j left world).parties i = pool.parties i := Function.update_of_ne h ..

/-- The parties take turns, in any order; `answers` says how the world may answer a call
    of a party. -/
inductive Run (answers : W → ι → (c : C) → A c → W → Prop) :
    Pool ι C A R W → List (ι × Event C A) → Pool ι C A R W → Prop where
  | refl (pool : Pool ι C A R W) : Run answers pool [] pool
  | step {start pool : Pool ι C A R W} {trace : List (ι × Event C A)} {i : ι} {c : C}
    {next : A c → Dialogue C A R} {answer : A c} {world : W} (h : Run answers start trace pool)
    (hcall : pool.parties i = .call c next) (hanswer : answers pool.world i c answer world) :
    Run answers start (trace ++ [(i, ⟨c, answer⟩)]) (pool.advance i (next answer) world)

def own (i : ι) (trace : List (ι × Event C A)) : List (Event C A) :=
  (trace.filter fun entry => entry.1 = i).map Prod.snd

inductive Accepted (answers : W → ι → (c : C) → A c → W → Prop) (start : W) :
    List (ι × Event C A) → W → Prop where
  | nil : Accepted answers start [] start
  | snoc {trace : List (ι × Event C A)} {world next : W} {i : ι} {event : Event C A}
    (h : Accepted answers start trace world) (hanswer : answers world i event.call event.answer next) :
    Accepted answers start (trace ++ [(i, event)]) next

omit [DecidableEq ι] in
theorem Accepted.cons {answers : W → ι → (c : C) → A c → W → Prop} {start next world : W} {i : ι}
    {event : Event C A} {trace : List (ι × Event C A)}
    (h : Accepted answers next trace world) (hanswer : answers start i event.call event.answer next) :
    Accepted answers start ((i, event) :: trace) world := by
  induction h with
  | nil => exact .snoc .nil hanswer
  | snoc _ hlast ih => exact .snoc ih hlast

omit [DecidableEq ι] in
theorem Accepted.cons_inv {answers : W → ι → (c : C) → A c → W → Prop} {start world : W}
    {entry : ι × Event C A} {trace : List (ι × Event C A)}
    (h : Accepted answers start (entry :: trace) world) :
    ∃ next, answers start entry.1 entry.2.call entry.2.answer next ∧ Accepted answers next trace world := by
  generalize hwhole : entry :: trace = whole at h
  induction h generalizing trace with
  | nil => cases hwhole
  | @snoc before world next i event hbefore hanswer ih =>
    cases before with
    | nil =>
      obtain ⟨rfl, rfl⟩ := List.cons.inj hwhole
      generalize hempty : [] = nothing at hbefore
      cases hbefore with
      | nil => exact ⟨next, hanswer, .nil⟩
      | snoc => simp at hempty
    | cons first before =>
      obtain ⟨rfl, rfl⟩ := List.cons.inj hwhole
      obtain ⟨middle, hfirst, hrest⟩ := ih rfl
      exact ⟨middle, hfirst, .snoc hrest hanswer⟩

omit [DecidableEq ι] in
/-- A run up to an event, the event, and the run after it. -/
theorem Accepted.split {answers : W → ι → (c : C) → A c → W → Prop} {start world : W}
    {before after : List (ι × Event C A)} {entry : ι × Event C A}
    (h : Accepted answers start (before ++ entry :: after) world) :
    ∃ middle next, Accepted answers start before middle ∧
      answers middle entry.1 entry.2.call entry.2.answer next ∧ Accepted answers next after world := by
  induction before generalizing start with
  | nil =>
    obtain ⟨next, hanswer, hafter⟩ := h.cons_inv
    exact ⟨start, next, .nil, hanswer, hafter⟩
  | cons first before ih =>
    obtain ⟨second, hfirst, hrest⟩ := h.cons_inv
    obtain ⟨middle, next, hbefore, hanswer, hafter⟩ := ih hrest
    exact ⟨middle, next, hbefore.cons hfirst, hanswer, hafter⟩

variable {answers : W → ι → (c : C) → A c → W → Prop} {start pool : Pool ι C A R W}
  {trace : List (ι × Event C A)}

@[simp]
theorem own_append (i : ι) (first second : List (ι × Event C A)) :
    own i (first ++ second) = own i first ++ own i second := by
  simp [own]

theorem own_cons_self (i : ι) (event : Event C A) (trace : List (ι × Event C A)) :
    own i ((i, event) :: trace) = event :: own i trace := by
  simp [own]

theorem own_cons_of_ne {i j : ι} (h : j ≠ i) (event : Event C A) (trace : List (ι × Event C A)) :
    own i ((j, event) :: trace) = own i trace := by
  simp [own, h]

theorem mem_own {i : ι} {event : Event C A} {trace : List (ι × Event C A)} :
    event ∈ own i trace ↔ (i, event) ∈ trace := by
  unfold own
  rw [List.mem_map]
  constructor
  · intro h
    obtain ⟨⟨j, other⟩, hfiltered, rfl⟩ := h
    obtain ⟨hmem, hj⟩ := List.mem_filter.mp hfiltered
    obtain rfl : j = i := of_decide_eq_true hj
    exact hmem
  · intro h
    exact ⟨(i, event), List.mem_filter.mpr ⟨h, decide_eq_true rfl⟩, rfl⟩

theorem own_eq_cons {i : ι} {event : Event C A} {events : List (Event C A)}
    {trace : List (ι × Event C A)} (h : own i trace = event :: events) :
    ∃ before after, trace = before ++ (i, event) :: after ∧ own i before = [] ∧ own i after = events := by
  induction trace with
  | nil => cases h
  | cons entry trace ih =>
    obtain ⟨j, other⟩ := entry
    by_cases hij : j = i
    · subst hij
      rw [own_cons_self, List.cons.injEq] at h
      obtain ⟨rfl, hrest⟩ := h
      exact ⟨[], trace, rfl, rfl, hrest⟩
    · rw [own_cons_of_ne hij] at h
      obtain ⟨before, after, rfl, hbefore, hafter⟩ := ih h
      refine ⟨(j, other) :: before, after, rfl, ?_, hafter⟩
      rw [own_cons_of_ne hij]
      exact hbefore

theorem own_snoc_self (i : ι) (event : Event C A) :
    own i (trace ++ [(i, event)]) = own i trace ++ [event] := by
  simp [own]

theorem own_snoc_of_ne {i j : ι} (h : j ≠ i) (event : Event C A) :
    own i (trace ++ [(j, event)]) = own i trace := by
  simp [own, h]

theorem Run.leads (h : Run answers start trace pool) (i : ι) :
    Leads (start.parties i) (own i trace) (pool.parties i) := by
  induction h with
  | refl => exact .nil _
  | @step pool trace j c next answer world _ hcall _ ih =>
    by_cases hij : j = i
    · subst hij
      rw [own_snoc_self, Pool.advance_self]
      rw [hcall] at ih
      exact ih.snoc answer
    · rw [own_snoc_of_ne hij, Pool.advance_of_ne _ (Ne.symm hij)]
      exact ih

theorem Run.accepted (h : Run answers start trace pool) :
    Accepted answers start.world trace pool.world := by
  induction h with
  | refl => exact .nil
  | step _ _ hanswer ih => exact .snoc ih hanswer

theorem Run.lead (h : Run answers start trace pool) {i : ι} {events : List (Event C A)}
    {left : Dialogue C A R} {world : W} (hleads : Leads (pool.parties i) events left)
    (hserves : Serves (fun world => answers world i) pool.world events world) :
    Run answers start (trace ++ events.map (i, ·)) (pool.advance i left world) := by
  generalize hparty : pool.parties i = party at hleads
  induction hleads generalizing trace pool with
  | nil d =>
    cases serves_nil.mp hserves
    rw [List.map_nil, List.append_nil, ← hparty, Pool.advance, Function.update_eq_self]
    exact h
  | @cons c next answer events left _ ih =>
    obtain ⟨second, hanswer, hrest⟩ := serves_cons.mp hserves
    have hlater := ih (h.step hparty hanswer) hrest (Pool.advance_self ..)
    rw [List.append_assoc, Pool.advance, Pool.advance, Function.update_idem] at hlater
    exact hlater

/-- A run is made of what each party does and what the world accepts. -/
theorem run_of_leads {world : W} {left : ι → Dialogue C A R}
    (hleads : ∀ i, Leads (start.parties i) (own i trace) (left i))
    (haccepted : Accepted answers start.world trace world) : Run answers start trace ⟨left, world⟩ := by
  induction haccepted generalizing left with
  | nil =>
    have hleft : start.parties = left := by
      funext i
      exact (leads_nil_iff.mp (hleads i)).symm
    rw [← hleft]
    exact .refl start
  | @snoc trace world next i event _ hanswer ih =>
    have hi := hleads i
    rw [own_snoc_self] at hi
    obtain ⟨after, hbefore, hleft⟩ := hi.snoc_inv
    have hrun := @ih (Function.update left i (.call event.call after)) fun j => by
      by_cases hij : j = i
      · subst hij
        rw [Function.update_self]
        exact hbefore
      · rw [Function.update_of_ne hij]
        have hj := hleads j
        rw [own_snoc_of_ne (Ne.symm hij)] at hj
        exact hj
    have hstep := hrun.step (i := i) (Function.update_self ..) hanswer
    rw [Pool.advance, Function.update_idem, ← hleft, Function.update_eq_self] at hstep
    exact hstep

theorem Run.keeps {safe : List (Event C A) → C → Prop} {post : List (Event C A) → R → Prop} {i : ι}
    (h : Run answers start trace pool) (hkeeps : Keeps safe post [] (start.parties i)) :
    Keeps safe post (own i trace) (pool.parties i) :=
  hkeeps.leads (h.leads i)

end Pool
end Ceasy
