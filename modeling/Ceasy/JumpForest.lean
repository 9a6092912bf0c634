import Mathlib

set_option autoImplicit false

/-!
# Forests flattened to code with forward jumps

A forest of leaves and labelled branches is written in preorder, each branch
carrying the index just past its subtree. A one-pass emitter that reads the
tokens of the forest, keeps a stack of open branches and patches each jump when
its branch is closed produces exactly this code.
-/
namespace JumpForest

variable {lf br key C : Type*}

inductive Forest (lf br : Type*) where
  | nil
  | leaf (a : lf) (rest : Forest lf br)
  | branch (b : br) (body rest : Forest lf br)

inductive Token (lf br key : Type*) where
  | leaf (a : lf)
  | opening (b : br)
  | closing (k : key)

structure Target (lf br C : Type*) where
  leaf : lf → C
  branch : br → ℕ → C
  jump? : C → Option ℕ
  setJump : ℕ → C → C
  jump_leaf : ∀ a, jump? (leaf a) = none
  jump_branch : ∀ b j, jump? (branch b j) = some j
  setJump_branch : ∀ b i j, setJump j (branch b i) = branch b j

namespace Forest

def append : Forest lf br → Forest lf br → Forest lf br
  | .nil, g => g
  | .leaf a rest, g => .leaf a (append rest g)
  | .branch b body rest, g => .branch b body (append rest g)

def size : Forest lf br → ℕ
  | .nil => 0
  | .leaf _ rest => 1 + size rest
  | .branch _ body rest => 1 + size body + size rest

/-- The tags of the forest in reading order, each branch closed by its key. -/
def tokens (keyOf : br → key) : Forest lf br → List (Token lf br key)
  | .nil => []
  | .leaf a rest => .leaf a :: tokens keyOf rest
  | .branch b body rest =>
    .opening b :: (tokens keyOf body ++ .closing (keyOf b) :: tokens keyOf rest)

/-- The code of the forest when its first instruction has index `base`. -/
def flatten (T : Target lf br C) (base : ℕ) : Forest lf br → List C
  | .nil => []
  | .leaf a rest => T.leaf a :: flatten T (base + 1) rest
  | .branch b body rest =>
    T.branch b (base + 1 + size body) ::
      (flatten T (base + 1) body ++ flatten T (base + 1 + size body) rest)

theorem append_assoc (f g h : Forest lf br) : (f.append g).append h = f.append (g.append h) := by
  induction f with
  | nil => rfl
  | leaf a rest ih => rw [append, append, ih, append]
  | branch b body rest _ ih => rw [append, append, ih, append]

theorem append_nil (f : Forest lf br) : f.append .nil = f := by
  induction f with
  | nil => rfl
  | leaf a rest ih => rw [append, ih]
  | branch b body rest _ ih => rw [append, ih]

@[simp] theorem flatten_length (T : Target lf br C) (base : ℕ) (f : Forest lf br) :
    (flatten T base f).length = f.size := by
  induction f generalizing base with
  | nil => rfl
  | leaf a rest ih => rw [flatten, List.length_cons, ih, size, Nat.add_comm]
  | branch b body rest ihb ihr =>
    rw [flatten, List.length_cons, List.length_append, ihb, ihr, size]
    omega

theorem tokens_append (keyOf : br → key) (f g : Forest lf br) :
    tokens keyOf (f.append g) = tokens keyOf f ++ tokens keyOf g := by
  induction f with
  | nil => rfl
  | leaf a rest ih => rw [append, tokens, tokens, ih, List.cons_append]
  | branch b body rest _ ih => simp only [append, tokens, ih, List.cons_append, List.append_assoc]

theorem flatten_append (T : Target lf br C) (base : ℕ) (f g : Forest lf br) :
    flatten T base (f.append g) = flatten T base f ++ flatten T (base + f.size) g := by
  induction f generalizing base with
  | nil => rfl
  | leaf a rest ih => rw [append, flatten, flatten, ih, size, List.cons_append, Nat.add_assoc]
  | branch b body rest _ ih =>
    simp only [append, flatten, ih, size, List.cons_append, List.append_assoc, Nat.add_assoc]

theorem jump_bounds (T : Target lf br C) {base i j : ℕ} {f : Forest lf br} {c : C}
    (hc : (flatten T base f)[i]? = some c) (hj : T.jump? c = some j) :
    base + i + 1 ≤ j ∧ j ≤ base + f.size := by
  induction f generalizing base i with
  | nil => simp [flatten] at hc
  | leaf a rest ih =>
    cases i with
    | zero =>
      rw [flatten, List.getElem?_cons_zero, Option.some.injEq] at hc
      rw [← hc, T.jump_leaf] at hj
      cases hj
    | succ i =>
      rw [flatten, List.getElem?_cons_succ] at hc
      have := ih hc
      rw [size]
      omega
  | branch b body rest ihb ihr =>
    cases i with
    | zero =>
      rw [flatten, List.getElem?_cons_zero, Option.some.injEq] at hc
      rw [← hc, T.jump_branch, Option.some.injEq] at hj
      rw [size]
      omega
    | succ i =>
      rw [flatten, List.getElem?_cons_succ] at hc
      rw [size]
      by_cases hi : i < body.size
      · rw [List.getElem?_append_left (by simpa using hi)] at hc
        have := ihb hc
        omega
      · rw [List.getElem?_append_right (by simpa using hi), flatten_length] at hc
        have := ihr hc
        omega

/-- Two jumps are nested or apart: the second does not start inside the first
    and end behind it. -/
theorem jump_laminar (T : Target lf br C) {base i k j l : ℕ} {f : Forest lf br} {c d : C}
    (hc : (flatten T base f)[i]? = some c) (hj : T.jump? c = some j)
    (hd : (flatten T base f)[k]? = some d) (hl : T.jump? d = some l) (hik : i < k) :
    j ≤ base + k ∨ l ≤ j := by
  induction f generalizing base i k with
  | nil => simp [flatten] at hc
  | leaf a rest ih =>
    cases k with
    | zero => omega
    | succ k =>
      cases i with
      | zero =>
        rw [flatten, List.getElem?_cons_zero, Option.some.injEq] at hc
        rw [← hc, T.jump_leaf] at hj
        cases hj
      | succ i =>
        rw [flatten, List.getElem?_cons_succ] at hc hd
        have := ih hc hd (by omega)
        omega
  | branch b body rest ihb ihr =>
    cases k with
    | zero => omega
    | succ k =>
      rw [flatten, List.getElem?_cons_succ] at hd
      cases i with
      | zero =>
        rw [flatten, List.getElem?_cons_zero, Option.some.injEq] at hc
        rw [← hc, T.jump_branch, Option.some.injEq] at hj
        by_cases hk : k < body.size
        · rw [List.getElem?_append_left (by simpa using hk)] at hd
          have := jump_bounds T hd hl
          omega
        · omega
      | succ i =>
        rw [flatten, List.getElem?_cons_succ] at hc
        by_cases hi : i < body.size
        · rw [List.getElem?_append_left (by simpa using hi)] at hc
          by_cases hk : k < body.size
          · rw [List.getElem?_append_left (by simpa using hk)] at hd
            have := ihb hc hd (by omega)
            omega
          · have := jump_bounds T hc hj
            omega
        · rw [List.getElem?_append_right (by simpa using hi), flatten_length] at hc
          rw [List.getElem?_append_right (by simpa using by omega), flatten_length] at hd
          have := ihr hc hd (by omega)
          omega

end Forest

/-- The code emitted so far and the open branches, innermost first. -/
structure Emitter (key C : Type*) where
  code : List C
  stack : List (key × ℕ)

theorem modify_middle {α : Type*} (before after : List α) (a : α) (f : α → α) :
    (before ++ a :: after).modify before.length f = before ++ f a :: after := by
  induction before with
  | nil => rfl
  | cons b before ih =>
    rw [List.cons_append, List.length_cons, List.modify_succ_cons, ih, List.cons_append]

section Zipper
variable (T : Target lf br C) (keyOf : br → key)

/-- A forest with a hole: the branches open around it, innermost first, each with
    the complete siblings before it. -/
abbrev Frames (lf br : Type*) := List (Forest lf br × br)

def zipCode : Frames lf br → Forest lf br → List C
  | [], g => g.flatten T 0
  | (before, b) :: frames, g =>
    let outer := zipCode frames before
    outer ++ (T.branch b 0 :: g.flatten T (outer.length + 1))

def zipStack : Frames lf br → List (key × ℕ)
  | [] => []
  | (before, b) :: frames => (keyOf b, (zipCode T frames before).length) :: zipStack frames

def zipTokens : Frames lf br → Forest lf br → List (Token lf br key)
  | [], g => g.tokens keyOf
  | (before, b) :: frames, g => zipTokens frames before ++ .opening b :: g.tokens keyOf

def zipEmitter (frames : Frames lf br) (g : Forest lf br) : Emitter key C :=
  ⟨zipCode T frames g, zipStack T keyOf frames⟩

theorem zipCode_append (frames : Frames lf br) (g h : Forest lf br) :
    zipCode T frames (g.append h) =
      zipCode T frames g ++ h.flatten T (zipCode T frames g).length := by
  cases frames with
  | nil => rw [zipCode, zipCode, Forest.flatten_append, Forest.flatten_length, Nat.zero_add]
  | cons frame frames =>
    obtain ⟨before, b⟩ := frame
    have hlen : (zipCode T ((before, b) :: frames) g).length =
        (zipCode T frames before).length + 1 + g.size := by
      simp only [zipCode, List.length_append, List.length_cons, Forest.flatten_length]
      omega
    rw [hlen]
    simp only [zipCode, Forest.flatten_append, List.append_assoc, List.cons_append]

theorem zipTokens_append (frames : Frames lf br) (g h : Forest lf br) :
    zipTokens keyOf frames (g.append h) = zipTokens keyOf frames g ++ h.tokens keyOf := by
  cases frames with
  | nil => rw [zipTokens, zipTokens, Forest.tokens_append]
  | cons frame frames =>
    simp only [zipTokens, Forest.tokens_append, List.append_assoc, List.cons_append]

theorem zipStack_eq_nil {frames : Frames lf br} (h : zipStack T keyOf frames = []) :
    frames = [] := by
  cases frames with
  | nil => rfl
  | cons frame frames => cases h

end Zipper

section Emission
variable [DecidableEq key] (T : Target lf br C) (keyOf : br → key)

/-- One token; a closing token must name the innermost open branch. -/
def emit (s : Emitter key C) : Token lf br key → Option (Emitter key C)
  | .leaf a => some ⟨s.code ++ [T.leaf a], s.stack⟩
  | .opening b => some ⟨s.code ++ [T.branch b 0], (keyOf b, s.code.length) :: s.stack⟩
  | .closing k =>
    match s.stack with
    | [] => none
    | (k', index) :: stack =>
      if k = k' then some ⟨s.code.modify index (T.setJump s.code.length), stack⟩ else none

def emitAll (s : Emitter key C) : List (Token lf br key) → Option (Emitter key C)
  | [] => some s
  | t :: ts => (emit T keyOf s t).bind fun s => emitAll s ts

theorem emitAll_append (s : Emitter key C) (ts us : List (Token lf br key)) :
    emitAll T keyOf s (ts ++ us) = (emitAll T keyOf s ts).bind fun s => emitAll T keyOf s us := by
  induction ts generalizing s with
  | nil => rfl
  | cons t ts ih =>
    rw [List.cons_append, emitAll, emitAll]
    cases emit T keyOf s t with
    | none => rfl
    | some s' => exact ih s'

theorem emit_leaf (frames : Frames lf br) (g : Forest lf br) (a : lf) :
    emit T keyOf (zipEmitter T keyOf frames g) (.leaf a) =
      some (zipEmitter T keyOf frames (g.append (.leaf a .nil))) := by
  rw [emit, zipEmitter, zipEmitter, zipCode_append]
  rfl

theorem emit_opening (frames : Frames lf br) (g : Forest lf br) (b : br) :
    emit T keyOf (zipEmitter T keyOf frames g) (.opening b) =
      some (zipEmitter T keyOf ((g, b) :: frames) .nil) := rfl

theorem emit_closing (frames : Frames lf br) (before g : Forest lf br) (b : br) :
    emit T keyOf (zipEmitter T keyOf ((before, b) :: frames) g) (.closing (keyOf b)) =
      some (zipEmitter T keyOf frames (before.append (.branch b g .nil))) := by
  have hlen : (zipCode T ((before, b) :: frames) g).length =
      (zipCode T frames before).length + 1 + g.size := by
    simp only [zipCode, List.length_append, List.length_cons, Forest.flatten_length]
    omega
  simp only [emit, zipEmitter, zipStack, if_true, hlen]
  rw [zipCode, modify_middle, T.setJump_branch, zipCode_append, Forest.flatten, Forest.flatten,
    List.append_nil]

theorem emitAll_tokens (frames : Frames lf br) (g f : Forest lf br) :
    emitAll T keyOf (zipEmitter T keyOf frames g) (f.tokens keyOf) =
      some (zipEmitter T keyOf frames (g.append f)) := by
  induction f generalizing frames g with
  | nil => rw [Forest.tokens, emitAll, Forest.append_nil]
  | leaf a rest ih =>
    rw [Forest.tokens, emitAll, emit_leaf, Option.bind_some, ih, Forest.append_assoc]
    rfl
  | branch b body rest ihb ihr =>
    rw [Forest.tokens, emitAll, emit_opening, Option.bind_some, emitAll_append, ihb,
      Option.bind_some, emitAll, Forest.append, emit_closing, Option.bind_some, ihr,
      Forest.append_assoc]
    rfl

/-- Whatever the emitter accepts, its state is a forest with a hole for the
    tokens it has read. -/
theorem emitAll_zipper {frames : Frames lf br} {g : Forest lf br} {ts : List (Token lf br key)}
    {s : Emitter key C} (h : emitAll T keyOf (zipEmitter T keyOf frames g) ts = some s) :
    ∃ frames' g', s = zipEmitter T keyOf frames' g' ∧
      zipTokens keyOf frames' g' = zipTokens keyOf frames g ++ ts := by
  induction ts generalizing frames g with
  | nil =>
    rw [emitAll, Option.some.injEq] at h
    exact ⟨frames, g, h.symm, (List.append_nil _).symm⟩
  | cons t ts ih =>
    cases t with
    | leaf a =>
      rw [emitAll, emit_leaf, Option.bind_some] at h
      obtain ⟨frames', g', hs, ht⟩ := ih h
      refine ⟨frames', g', hs, ?_⟩
      rw [ht, zipTokens_append, Forest.tokens, Forest.tokens, List.append_assoc,
        List.singleton_append]
    | opening b =>
      rw [emitAll, emit_opening, Option.bind_some] at h
      obtain ⟨frames', g', hs, ht⟩ := ih h
      refine ⟨frames', g', hs, ?_⟩
      rw [ht, zipTokens, Forest.tokens, List.append_assoc, List.singleton_append]
    | closing k =>
      cases frames with
      | nil => simp [emitAll, emit, zipEmitter, zipStack] at h
      | cons frame frames =>
        obtain ⟨before, b⟩ := frame
        by_cases hk : k = keyOf b
        · rw [hk, emitAll, emit_closing, Option.bind_some] at h
          obtain ⟨frames', g', hs, ht⟩ := ih h
          refine ⟨frames', g', hs, ?_⟩
          rw [ht, zipTokens_append, zipTokens, Forest.tokens, Forest.tokens, hk]
          simp only [List.append_assoc, List.cons_append, List.nil_append]
        · simp [emitAll, emit, zipEmitter, zipStack, hk] at h

/-- The emitter accepts exactly the token lists of forests, and emits their code. -/
theorem emitAll_iff (ts : List (Token lf br key)) (code : List C) :
    emitAll T keyOf ⟨[], []⟩ ts = some ⟨code, []⟩ ↔
      ∃ f : Forest lf br, ts = f.tokens keyOf ∧ code = f.flatten T 0 := by
  constructor
  · intro h
    obtain ⟨frames, g, hs, ht⟩ := @emitAll_zipper _ _ _ _ _ T keyOf [] .nil _ _ h
    rw [zipEmitter, Emitter.mk.injEq] at hs
    obtain ⟨hcode, hstack⟩ := hs
    have hframes := zipStack_eq_nil T keyOf hstack.symm
    subst hframes
    exact ⟨g, by simpa [zipTokens, Forest.tokens] using ht.symm, hcode⟩
  · rintro ⟨f, rfl, rfl⟩
    exact emitAll_tokens T keyOf [] .nil f

end Emission
end JumpForest
