import Ceasy.TransactionalStore

set_option autoImplicit false

/-!
# Stores that serve at once

The store behind a connection, without marks and without refusals: what it has
committed, and what the open transaction works on. A statement that a connection
serves does to the store what the statement says.
-/
namespace Ceasy.TransactionalStore

structure Store (σ : Type*) where
  committed : σ
  working : Option σ
deriving DecidableEq

namespace Store
variable {σ : Type*}

def visible (store : Store σ) : σ := store.working.getD store.committed

def put (store : Store σ) (rows : σ) : Store σ :=
  match store.working with
  | none => { store with committed := rows }
  | some _ => { store with working := some rows }

/-- None where the statement cannot be served. -/
def execute (store : Store σ) : Statement σ → Option (Store σ)
  | .begin => if store.working.isNone then some { store with working := some store.committed } else none
  | .commit => store.working.map fun rows => ⟨rows, none⟩
  | .rollback => if store.working.isSome then some { store with working := none } else none
  | .update effect => (effect store.visible).map store.put

def script : Store σ → List (Statement σ) → Option (Store σ)
  | store, [] => some store
  | store, statement :: rest => (store.execute statement).bind fun next => next.script rest

@[simp]
theorem script_nil (store : Store σ) : store.script [] = some store := rfl

@[simp]
theorem script_cons (store : Store σ) (statement : Statement σ) (rest : List (Statement σ)) :
    store.script (statement :: rest) = (store.execute statement).bind fun next => next.script rest := rfl

theorem script_append (store : Store σ) (first second : List (Statement σ)) :
    store.script (first ++ second) = (store.script first).bind fun next => next.script second := by
  induction first generalizing store with
  | nil => rfl
  | cons statement rest ih =>
    rw [List.cons_append, script_cons, script_cons]
    cases store.execute statement with
    | none => rfl
    | some next => exact ih next

@[simp]
theorem put_visible (store : Store σ) (rows : σ) : (store.put rows).visible = rows := by
  unfold put visible
  cases h : store.working with
  | none => simp
  | some old => rfl

@[simp]
theorem put_put (store : Store σ) (first second : σ) : (store.put first).put second = store.put second := by
  obtain ⟨committed, working⟩ := store
  cases working <;> rfl

theorem put_self (store : Store σ) : store.put store.visible = store := by
  obtain ⟨committed, working⟩ := store
  cases working <;> rfl

/-- Updates change what is visible, whether or not a transaction is open. -/
theorem script_updates {statements : List (Statement σ)}
    (hkind : ∀ statement ∈ statements, statement.kind = .update) (store : Store σ) :
    store.script statements = (Connection.effect statements store.visible).map store.put := by
  induction statements generalizing store with
  | nil =>
    rw [script_nil, Connection.effect, Option.map_some, put_self]
  | cons statement rest ih =>
    have hrest : ∀ later ∈ rest, later.kind = .update :=
      fun later hlater => hkind later (List.mem_cons_of_mem _ hlater)
    cases statement with
    | update change =>
      rw [script_cons, execute, Connection.effect]
      cases change store.visible with
      | none => rfl
      | some rows =>
        rw [Option.map_some, Option.bind_some, Option.bind_some, ih hrest, put_visible]
        cases Connection.effect rest rows with
        | none => rfl
        | some last => rw [Option.map_some, Option.map_some, put_put]
    | begin => cases hkind _ List.mem_cons_self
    | commit => cases hkind _ List.mem_cons_self
    | rollback => cases hkind _ List.mem_cons_self

/-- A transaction of its own around updates comes to the updates alone. -/
theorem transaction_updates {statements : List (Statement σ)}
    (hkind : ∀ statement ∈ statements, statement.kind = .update) {store begun changed last : Store σ}
    (hbegin : store.execute .begin = some begun) (hchange : begun.script statements = some changed)
    (hcommit : changed.execute .commit = some last) : store.script statements = some last := by
  obtain ⟨committed, working⟩ := store
  cases working with
  | some rows => cases hbegin
  | none =>
    cases hbegin
    rw [script_updates hkind] at hchange ⊢
    change (Connection.effect statements committed).map _ = _ at hchange
    change (Connection.effect statements committed).map _ = _
    cases heffect : Connection.effect statements committed with
    | none =>
      rw [heffect] at hchange
      cases hchange
    | some rows =>
      rw [heffect] at hchange
      cases hchange
      cases hcommit
      rfl

end Store

namespace Connection
variable {σ : Type*} {outcomes : Outcomes} {c next : Connection σ}

def store (c : Connection σ) : Store σ := ⟨c.committed.rows, c.working.map Contents.rows⟩

@[simp]
theorem store_tick (c : Connection σ) : c.tick.store = c.store := rfl

theorem store_visible (c : Connection σ) : c.store.visible = c.visible.rows := by
  unfold store Store.visible visible
  cases c.working <;> rfl

theorem store_put (c : Connection σ) (contents : Contents σ) :
    (c.put contents).store = c.store.put contents.rows := by
  unfold put Store.put store
  cases c.working <;> simp

@[simp]
theorem store_mark (c : Connection σ) (n : ℕ) : (c.mark n).store = c.store := by
  rw [mark, store_put]
  change c.store.put c.visible.rows = c.store
  rw [← store_visible, Store.put_self]

@[simp]
theorem store_abandon (c : Connection σ) : c.abandon.store = ⟨c.store.committed, none⟩ := rfl

theorem store_execute {statement : Statement σ} (h : c.execute outcomes statement = (next, true)) :
    c.store.execute statement = some next.store := by
  cases executed_of_eq h with
  | begin hclosed => simp [store, Store.execute, hclosed]
  | commit hopen => simp [store, Store.execute, hopen]
  | rollback hopen => simp [store, Store.execute, hopen]
  | update heffect =>
    rw [Store.execute, store_visible, heffect, store_put]
    rfl

theorem store_script {statements : List (Statement σ)}
    (h : c.script outcomes statements = (next, true)) : c.store.script statements = some next.store := by
  induction statements generalizing c with
  | nil =>
    cases h
    rfl
  | cons statement rest ih =>
    unfold script at h
    split at h
    · next middle heq => rw [Store.script_cons, store_execute heq, Option.bind_some, ih h]
    · cases h

end Connection

end Ceasy.TransactionalStore
