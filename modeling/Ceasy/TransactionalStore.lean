import Mathlib.Data.List.Infix
import Mathlib.Order.Basic

set_option autoImplicit false

/-!
# Transactional stores

A connection sees the committed contents of its store, or, while a transaction is
open, the contents it works on. Any statement may be refused for reasons the
client does not control, and a refusal may take the open transaction with it.
Contents carry the marks a proof puts on them; a rollback drops a mark together
with the contents that carry it.
-/
namespace Ceasy.TransactionalStore

structure Contents (σ : Type*) where
  rows : σ
  marks : List ℕ
deriving DecidableEq

def Contents.mark {σ : Type*} (contents : Contents σ) (n : ℕ) : Contents σ :=
  { contents with marks := contents.marks ++ [n] }

/-- A statement by what it does; an update without a value is refused by the store itself. -/
inductive Statement (σ : Type*) where
  | begin
  | commit
  | rollback
  | update (effect : σ → Option σ)

inductive StatementKind where
  | begin
  | commit
  | rollback
  | update
deriving DecidableEq, Repr

def StatementKind.ends : StatementKind → Bool
  | .begin | .update => false
  | .commit | .rollback => true

def Statement.kind {σ : Type*} : Statement σ → StatementKind
  | .begin => .begin
  | .commit => .commit
  | .rollback => .rollback
  | .update _ => .update

inductive Outcome where
  | served
  | refused
  /-- Refused, and the open transaction is rolled back. -/
  | abandoned
deriving DecidableEq, Repr

/-- What becomes of a statement of each kind, by the time it is tried. -/
abbrev Outcomes := ℕ → StatementKind → Outcome

structure Connection (σ : Type*) where
  committed : Contents σ
  working : Option (Contents σ)
  /-- Transactions begun so far. -/
  begun : ℕ
  clock : ℕ

namespace Connection
variable {σ : Type*}

def visible (c : Connection σ) : Contents σ := c.working.getD c.committed

def tick (c : Connection σ) : Connection σ := { c with clock := c.clock + 1 }

/-- Outside a transaction a change is committed at once. -/
def put (c : Connection σ) (contents : Contents σ) : Connection σ :=
  match c.working with
  | none => { c with committed := contents }
  | some _ => { c with working := some contents }

def mark (c : Connection σ) (n : ℕ) : Connection σ := c.put (c.visible.mark n)

def abandon (c : Connection σ) : Connection σ := { c with working := none }

def execute (outcomes : Outcomes) (c : Connection σ) : Statement σ → Connection σ × Bool
  | .begin =>
    match outcomes c.clock .begin, c.working with
    | .served, none =>
      ({ c.tick with working := some c.committed, begun := c.begun + 1 }, true)
    | _, _ => (c.tick, false)
  | .commit =>
    match outcomes c.clock .commit, c.working with
    | .served, some contents => ({ c.tick with committed := contents, working := none }, true)
    | .abandoned, some _ => (c.tick.abandon, false)
    | _, _ => (c.tick, false)
  | .rollback =>
    match outcomes c.clock .rollback, c.working with
    | .served, some _ => (c.tick.abandon, true)
    | _, _ => (c.tick, false)
  | .update effect =>
    match outcomes c.clock .update with
    | .served =>
      match effect c.visible.rows with
      | some rows => (c.tick.put { c.visible with rows := rows }, true)
      | none => (c.tick, false)
    | .refused => (c.tick, false)
    | .abandoned => (c.tick.abandon, false)

/-- A script stops at the first statement that is refused. -/
def script (outcomes : Outcomes) : Connection σ → List (Statement σ) → Connection σ × Bool
  | c, [] => (c, true)
  | c, statement :: rest =>
    match c.execute outcomes statement with
    | (c, true) => script outcomes c rest
    | (c, false) => (c, false)

@[simp] theorem tick_committed (c : Connection σ) : c.tick.committed = c.committed := rfl

@[simp] theorem tick_working (c : Connection σ) : c.tick.working = c.working := rfl

@[simp] theorem tick_begun (c : Connection σ) : c.tick.begun = c.begun := rfl

@[simp] theorem tick_visible (c : Connection σ) : c.tick.visible = c.visible := rfl

@[simp] theorem abandon_committed (c : Connection σ) : c.abandon.committed = c.committed := rfl

@[simp] theorem abandon_working (c : Connection σ) : c.abandon.working = none := rfl

@[simp] theorem abandon_begun (c : Connection σ) : c.abandon.begun = c.begun := rfl

@[simp] theorem abandon_visible (c : Connection σ) : c.abandon.visible = c.committed := rfl

@[simp] theorem put_visible (c : Connection σ) (contents : Contents σ) :
    (c.put contents).visible = contents := by
  unfold put visible
  cases h : c.working with
  | none => simp
  | some old => rfl

@[simp] theorem put_begun (c : Connection σ) (contents : Contents σ) :
    (c.put contents).begun = c.begun := by
  unfold put
  cases c.working <;> rfl

@[simp] theorem put_clock (c : Connection σ) (contents : Contents σ) :
    (c.put contents).clock = c.clock := by
  unfold put
  cases c.working <;> rfl

theorem put_of_closed {c : Connection σ} (h : c.working = none) (contents : Contents σ) :
    c.put contents = { c with committed := contents } := by
  unfold put
  rw [h]

theorem put_of_open {c : Connection σ} {old : Contents σ} (h : c.working = some old)
    (contents : Contents σ) : c.put contents = { c with working := some contents } := by
  unfold put
  rw [h]

theorem visible_of_closed {c : Connection σ} (h : c.working = none) : c.visible = c.committed := by
  unfold visible
  rw [h]
  rfl

theorem visible_of_open {c : Connection σ} {contents : Contents σ} (h : c.working = some contents) :
    c.visible = contents := by
  unfold visible
  rw [h]
  rfl

inductive Executed (outcomes : Outcomes) (c : Connection σ) :
    Statement σ → Connection σ → Bool → Prop where
  | begin (h : c.working = none) :
    Executed outcomes c .begin
      { c.tick with working := some c.committed, begun := c.begun + 1 } true
  | commit {contents : Contents σ} (h : c.working = some contents) :
    Executed outcomes c .commit { c.tick with committed := contents, working := none } true
  | rollback {contents : Contents σ} (h : c.working = some contents) :
    Executed outcomes c .rollback c.tick.abandon true
  | update {effect : σ → Option σ} {rows : σ} (h : effect c.visible.rows = some rows) :
    Executed outcomes c (.update effect) (c.tick.put { c.visible with rows := rows }) true
  | refused (statement : Statement σ) : Executed outcomes c statement c.tick false
  | abandoned (statement : Statement σ)
    (h : statement.kind = .commit ∨ statement.kind = .update) :
    Executed outcomes c statement c.tick.abandon false

variable {outcomes : Outcomes} {c next : Connection σ} {statement : Statement σ} {ok : Bool}

theorem execute_executed (outcomes : Outcomes) (c : Connection σ) (statement : Statement σ) :
    Executed outcomes c statement (c.execute outcomes statement).1
      (c.execute outcomes statement).2 := by
  cases statement with
  | begin =>
    rw [execute]
    split
    · next hworking => exact .begin hworking
    · exact .refused _
  | commit =>
    rw [execute]
    split
    · next hworking => exact .commit hworking
    · exact .abandoned _ (.inl rfl)
    · exact .refused _
  | rollback =>
    rw [execute]
    split
    · next hworking => exact .rollback hworking
    · exact .refused _
  | update effect =>
    rw [execute]
    split
    · split
      · next heffect => exact .update heffect
      · exact .refused _
    · exact .refused _
    · exact .abandoned _ (.inr rfl)

theorem executed_of_eq (h : c.execute outcomes statement = (next, ok)) :
    Executed outcomes c statement next ok := by
  have hexecuted := execute_executed outcomes c statement
  rw [h] at hexecuted
  exact hexecuted

theorem Executed.begin_visible (h : Executed outcomes c .begin next ok) :
    next.visible = c.visible := by
  cases h with
  | begin hclosed => exact (visible_of_closed hclosed).symm
  | refused => rfl
  | abandoned _ hkind => rcases hkind with hkind | hkind <;> cases hkind

theorem Executed.begin_committed (h : Executed outcomes c .begin next ok) :
    next.committed = c.committed := by
  cases h with
  | begin => rfl
  | refused => rfl
  | abandoned => rfl

theorem Executed.begin_open (h : Executed outcomes c .begin next true) :
    c.working = none ∧ next.working = some c.committed := by
  cases h with
  | begin hclosed => exact ⟨hclosed, rfl⟩

theorem Executed.commit_visible (h : Executed outcomes c .commit next true) :
    next.visible = c.visible := by
  cases h with
  | commit hopen => exact (visible_of_open hopen).symm

theorem Executed.commit_closed (h : Executed outcomes c .commit next true) :
    next.working = none := by
  cases h with
  | commit hopen => rfl

theorem Executed.commit_committed (h : Executed outcomes c .commit next false) :
    next.committed = c.committed := by
  cases h with
  | refused => rfl
  | abandoned => rfl

theorem Executed.rollback_committed (h : Executed outcomes c .rollback next ok) :
    next.committed = c.committed := by
  cases h with
  | rollback => rfl
  | refused => rfl
  | abandoned => rfl

theorem execute_rollback_served {contents : Contents σ} (h : c.working = some contents)
    (hserved : outcomes c.clock .rollback = .served) :
    c.execute outcomes .rollback = (c.tick.abandon, true) := by
  unfold execute
  simp only [hserved, h]

/-- A rollback that is refused for want of a transaction leaves the committed contents in view
    as well. -/
theorem execute_rollback_visible (hserved : outcomes c.clock .rollback = .served) :
    (c.execute outcomes .rollback).1.visible = c.committed := by
  cases h : c.working with
  | none =>
    simp only [execute, hserved, h]
    exact visible_of_closed h
  | some contents =>
    rw [execute_rollback_served h hserved]
    rfl

theorem script_singleton (outcomes : Outcomes) (c : Connection σ) (statement : Statement σ) :
    c.script outcomes [statement] = c.execute outcomes statement := by
  unfold script
  split
  · next h => rw [h]; rfl
  · next h => rw [h]

/-- What is committed was marked before what the open transaction has added. -/
def Nested (c : Connection σ) : Prop := c.committed.marks <+: c.visible.marks

theorem nested_of_closed (h : c.working = none) : c.Nested := by
  unfold Nested
  rw [visible_of_closed h]

theorem Executed.nested (h : Executed outcomes c statement next ok) (hc : c.Nested) :
    next.Nested ∧ next.visible.marks <+: c.visible.marks := by
  cases h with
  | begin => exact ⟨List.prefix_refl _, hc⟩
  | commit h =>
    rw [visible_of_open h]
    exact ⟨List.prefix_refl _, List.prefix_refl _⟩
  | rollback => exact ⟨List.prefix_refl _, hc⟩
  | update =>
    unfold Nested
    rw [put_visible]
    refine ⟨?_, List.prefix_refl _⟩
    cases h : c.working with
    | none =>
      rw [@put_of_closed _ c.tick h]
    | some contents =>
      rw [@put_of_open _ c.tick _ h]
      exact hc
  | refused => exact ⟨hc, List.prefix_refl _⟩
  | abandoned => exact ⟨List.prefix_refl _, hc⟩

theorem mark_nested (hc : c.Nested) (n : ℕ) : (c.mark n).Nested := by
  unfold Nested mark
  rw [put_visible]
  cases h : c.working with
  | none => rw [put_of_closed h]
  | some contents =>
    rw [put_of_open h]
    exact hc.trans (List.prefix_append _ _)

@[simp] theorem mark_visible (c : Connection σ) (n : ℕ) : (c.mark n).visible = c.visible.mark n :=
  put_visible _ _

/-- The transaction open in the first connection is open in the second. -/
def SameTransaction (c next : Connection σ) : Prop :=
  c.working.isSome ∧ next.working.isSome ∧ next.begun = c.begun ∧ next.committed = c.committed

/-- No statement takes a transaction back up: the number of those begun tells them apart. -/
def Onward (c next : Connection σ) : Prop :=
  c.begun ≤ next.begun ∧
    (next.begun = c.begun → next.working.isSome → SameTransaction c next)

theorem onward_refl (c : Connection σ) : Onward c c :=
  ⟨le_refl _, fun _ h => ⟨h, h, rfl, rfl⟩⟩

theorem Onward.trans {last : Connection σ} (h : Onward c next) (hlast : Onward next last) :
    Onward c last := by
  refine ⟨h.1.trans hlast.1, ?_⟩
  intro hbegun hopen
  have hnext : last.begun = next.begun := by
    have := h.1
    have := hlast.1
    omega
  have hsame := hlast.2 hnext hopen
  have hfirst := h.2 (by omega) hsame.1
  exact ⟨hfirst.1, hopen, hbegun, hsame.2.2.2.trans hfirst.2.2.2⟩

theorem Executed.onward (h : Executed outcomes c statement next ok) : Onward c next := by
  cases h with
  | begin =>
    refine ⟨Nat.le_succ _, ?_⟩
    intro hbegun
    exact absurd hbegun (Nat.succ_ne_self _)
  | commit =>
    refine ⟨le_refl _, ?_⟩
    intro _ hopen
    cases hopen
  | rollback =>
    refine ⟨le_refl _, ?_⟩
    intro _ hopen
    cases hopen
  | update =>
    unfold Onward SameTransaction
    cases h : c.working with
    | none =>
      rw [@put_of_closed _ c.tick h]
      refine ⟨le_refl _, ?_⟩
      intro _ hopen
      simp [h] at hopen
    | some contents =>
      rw [@put_of_open _ c.tick _ h]
      exact ⟨le_refl _, fun _ _ => ⟨rfl, rfl, rfl, rfl⟩⟩
  | refused => exact onward_refl c
  | abandoned =>
    refine ⟨le_refl _, ?_⟩
    intro _ hopen
    cases hopen

theorem mark_onward (c : Connection σ) (n : ℕ) : Onward c (c.mark n) := by
  unfold mark
  cases h : c.working with
  | none =>
    rw [put_of_closed h]
    refine ⟨le_refl _, ?_⟩
    intro _ hopen
    simp [h] at hopen
  | some contents =>
    rw [put_of_open h]
    exact ⟨le_refl _, fun _ _ => ⟨by simp [h], rfl, rfl, rfl⟩⟩

theorem put_open (hopen : c.working.isSome) (contents : Contents σ) :
    (c.put contents).committed = c.committed ∧ (c.put contents).working.isSome := by
  rw [Option.isSome_iff_exists] at hopen
  obtain ⟨old, hopen⟩ := hopen
  rw [put_of_open hopen]
  exact ⟨rfl, rfl⟩

/-- In an open transaction a statement that does not end it commits nothing, and unless it is
    refused the transaction stays open. -/
theorem Executed.stays_open (h : Executed outcomes c statement next ok)
    (hkind : statement.kind.ends = false) (hopen : c.working.isSome) :
    next.committed = c.committed ∧ (ok = true → next.working.isSome) := by
  cases h with
  | begin hclosed =>
    rw [hclosed] at hopen
    cases hopen
  | commit => cases hkind
  | rollback => cases hkind
  | update =>
    have hput := @put_open _ c.tick hopen
    exact ⟨(hput _).1, fun _ => (hput _).2⟩
  | refused => exact ⟨rfl, fun _ => hopen⟩
  | abandoned => exact ⟨rfl, fun hok => by cases hok⟩

theorem script_stays_open (outcomes : Outcomes) {statements : List (Statement σ)}
    {c : Connection σ} (hkind : ∀ statement ∈ statements, statement.kind.ends = false)
    (hopen : c.working.isSome) : (c.script outcomes statements).1.committed = c.committed ∧
      ((c.script outcomes statements).2 = true →
        (c.script outcomes statements).1.working.isSome) := by
  induction statements generalizing c with
  | nil => exact ⟨rfl, fun _ => hopen⟩
  | cons statement rest ih =>
    unfold script
    have hfirst := hkind statement (List.mem_cons_self ..)
    split
    · next next heq =>
      have hstep := (executed_of_eq heq).stays_open hfirst hopen
      have hrest := ih (fun later hlater => hkind later (List.mem_cons_of_mem _ hlater))
        (hstep.2 rfl)
      exact ⟨hrest.1.trans hstep.1, hrest.2⟩
    · next next heq =>
      have hstep := (executed_of_eq heq).stays_open hfirst hopen
      exact ⟨hstep.1, fun hok => by cases hok⟩

theorem execute_refused_visible (hrefused : (c.execute outcomes statement).2 = false)
    (hkept : outcomes c.clock statement.kind ≠ .abandoned) :
    (c.execute outcomes statement).1.visible = c.visible := by
  cases statement with
  | begin => exact (execute_executed outcomes c .begin).begin_visible
  | commit =>
    revert hrefused
    rw [execute]
    split
    · exact fun hserved => by cases hserved
    · next houtcome _ => exact absurd houtcome hkept
    · exact fun _ => rfl
  | rollback =>
    revert hrefused
    rw [execute]
    split
    · exact fun hserved => by cases hserved
    · exact fun _ => rfl
  | update effect =>
    revert hrefused
    rw [execute]
    split
    · split
      · exact fun hserved => by cases hserved
      · exact fun _ => rfl
    · exact fun _ => rfl
    · next houtcome => exact absurd houtcome hkept

/-! What a client asks of a connection apart from putting marks: statements, requests
that take time only, and to be closed.
-/

inductive Talk (outcomes : Outcomes) (c : Connection σ) : Connection σ → Prop where
  | refl : Talk outcomes c c
  | tick {next : Connection σ} (h : Talk outcomes c next) : Talk outcomes c next.tick
  | execute {next : Connection σ} (h : Talk outcomes c next) (statement : Statement σ) :
    Talk outcomes c (next.execute outcomes statement).1
  | abandon {next : Connection σ} (h : Talk outcomes c next) : Talk outcomes c next.abandon

theorem Talk.trans {last : Connection σ} (h : Talk outcomes c next)
    (hlast : Talk outcomes next last) : Talk outcomes c last := by
  induction hlast with
  | refl => exact h
  | tick _ ih => exact ih.tick
  | execute _ statement ih => exact ih.execute statement
  | abandon _ ih => exact ih.abandon

theorem script_talk (outcomes : Outcomes) (statements : List (Statement σ)) (c : Connection σ) :
    Talk outcomes c (c.script outcomes statements).1 := by
  induction statements generalizing c with
  | nil => exact .refl
  | cons statement rest ih =>
    unfold script
    have hstep : Talk outcomes c (c.execute outcomes statement).1 := Talk.refl.execute statement
    split
    · next next heq =>
      rw [heq] at hstep
      exact hstep.trans (ih next)
    · next next heq =>
      rw [heq] at hstep
      exact hstep

theorem Talk.nested (h : Talk outcomes c next) (hc : c.Nested) :
    next.Nested ∧ next.visible.marks <+: c.visible.marks := by
  induction h with
  | refl => exact ⟨hc, List.prefix_refl _⟩
  | tick _ ih => exact ih
  | execute _ statement ih =>
    have hstep := (execute_executed outcomes _ statement).nested ih.1
    exact ⟨hstep.1, hstep.2.trans ih.2⟩
  | abandon _ ih => exact ⟨List.prefix_refl _, ih.1.trans ih.2⟩

theorem Talk.onward (h : Talk outcomes c next) : Onward c next := by
  induction h with
  | refl => exact onward_refl c
  | tick _ ih => exact ih
  | execute _ statement ih => exact ih.trans (execute_executed outcomes _ statement).onward
  | abandon _ ih =>
    refine ⟨ih.1, ?_⟩
    intro _ hopen
    cases hopen

def effect : List (Statement σ) → σ → Option σ
  | [], rows => some rows
  | .update change :: rest, rows => (change rows).bind (effect rest)
  | _ :: _, _ => none

theorem Executed.update_rows {change : σ → Option σ}
    (h : Executed outcomes c (.update change) next true) :
    ∃ rows, change c.visible.rows = some rows ∧
      next = c.tick.put { c.visible with rows := rows } := by
  cases h with
  | update h => exact ⟨_, h, rfl⟩

theorem script_updates_effect (outcomes : Outcomes) {statements : List (Statement σ)}
    {c next : Connection σ} (hkind : ∀ statement ∈ statements, statement.kind = .update)
    (h : c.script outcomes statements = (next, true)) :
    effect statements c.visible.rows = some next.visible.rows ∧
      next.visible.marks = c.visible.marks := by
  induction statements generalizing c with
  | nil =>
    cases h
    exact ⟨rfl, rfl⟩
  | cons statement rest ih =>
    have hrest : ∀ later ∈ rest, later.kind = .update :=
      fun later hlater => hkind later (List.mem_cons_of_mem _ hlater)
    cases statement with
    | update change =>
      unfold script at h
      split at h
      · next middle heq =>
        obtain ⟨rows, hrows, hmiddle⟩ := (executed_of_eq heq).update_rows
        have hvisible : middle.visible = { c.visible with rows := rows } := by
          rw [hmiddle, put_visible]
        have hlater := ih hrest h
        rw [hvisible] at hlater
        unfold effect
        rw [hrows]
        exact hlater
      · cases h
    | begin => cases hkind _ (List.mem_cons_self ..)
    | commit => cases hkind _ (List.mem_cons_self ..)
    | rollback => cases hkind _ (List.mem_cons_self ..)

end Connection

end Ceasy.TransactionalStore
