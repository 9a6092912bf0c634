import Ceasy.ArenaMarks

set_option autoImplicit false

/-!
# Marks that are no longer valid

A mark stays valid until its arena is reset, destroyed or initialised again, or restored to an
earlier mark. What `arena_restore` compares are an address, a generation and two counts: it
detects many marks that are not valid, and not all of them.
-/
namespace Ceasy.Arenas
open StringView Chain

/-- A mark that was taken, the lifetime of the arena, and the resets of that lifetime before it. -/
structure Taken where
  marked : Marked
  valid : Bool := true
  lifetime : ℕ
  resets : ℕ
deriving DecidableEq, Repr

/-- An arena over its lifetimes, with every mark ever taken, the newest first. It is `clean` as
long as no mark was accepted that was not valid. -/
structure Lifetimes where
  arena : Arena
  live : List Allocation := []
  taken : List Taken := []
  lifetime : ℕ := 0
  resets : ℕ := 0
  clean : Bool := true
deriving DecidableEq, Repr

inductive MarkOperation where
  | init (blockSize : ℕ)
  | destroy
  | alloc (size : ℕ)
  | allocZero (size : ℕ)
  | allocArray (count elementSize : ℕ)
  | mark
  | restore (number : ℕ)
  | reset
deriving DecidableEq, Repr

def arenaDestroy (arena : Arena) : Arena :=
  { self := arena.self, defaultBlockSize := 0, generation := 0 }

def Taken.invalidate (taken : Taken) : Taken := { taken with valid := false }

def Lifetimes.began (state : Lifetimes) (arena : Arena) : Lifetimes where
  arena := arena
  taken := state.taken.map Taken.invalidate
  lifetime := state.lifetime + 1
  clean := state.clean

def Lifetimes.allocated (state : Lifetimes) (size : ℕ) (result : Option ℕ × Arena) : Lifetimes :=
  { state with
    arena := result.2
    live := (result.1.map fun address => ⟨address, size⟩).toList ++ state.live }

def Lifetimes.marked (state : Lifetimes) : Lifetimes :=
  { state with
    taken :=
      { marked := ⟨arenaMark state.arena, state.live⟩
        valid := state.arena.defaultBlockSize ≠ 0
        lifetime := state.lifetime
        resets := state.resets } :: state.taken }

/-- The marks that were taken after the one that is restored are valid no longer. -/
def Lifetimes.restored (state : Lifetimes) (number : ℕ) (entry : Taken) (arena : Arena) : Lifetimes :=
  { state with
    arena := arena
    live := entry.marked.live
    taken := (state.taken.take number).map Taken.invalidate ++ state.taken.drop number
    clean := state.clean && entry.valid }

def Lifetimes.reset (state : Lifetimes) (arena : Arena) : Lifetimes :=
  { state with
    arena := arena
    live := []
    taken := state.taken.map Taken.invalidate
    resets := state.resets + 1 }

def markPerform (malloc : ℕ → Option ℕ) (state : Lifetimes) : MarkOperation → Sized Lifetimes
  | .init blockSize =>
    match arenaInit state.arena.self blockSize with
    | none => return state
    | some arena => return state.began arena
  | .destroy => return state.began (arenaDestroy state.arena)
  | .alloc size => do
    let result ← arenaAlloc malloc state.arena size
    return state.allocated size result
  | .allocZero size => do
    let result ← arenaAllocZero malloc state.arena size
    return state.allocated size result
  | .allocArray count elementSize => do
    let result ← arenaAllocArray malloc state.arena count elementSize
    return state.allocated (count * elementSize) result
  | .mark => return state.marked
  | .restore number =>
    match state.taken[number]? with
    | none => return state
    | some entry => do
      let (ok, arena) ← arenaRestore state.arena entry.marked.mark
      if ok then
        return state.restored number entry arena
      return { state with arena := arena }
  | .reset => do
    let arena ← arenaReset state.arena
    return state.reset arena

/-- The argument of `arena_init` has its type. -/
def MarkOperation.InRange : MarkOperation → Prop
  | .init blockSize => blockSize ≤ SIZE_MAX
  | _ => True

/-- What an arena comes to that starts out zeroed, with any answers of `malloc` and any marks
restored. -/
inductive MarkRun (place : ℕ) : Lifetimes → Prop where
  | start : MarkRun place { arena := { self := place, defaultBlockSize := 0, generation := 0 } }
  | step {state next : Lifetimes} {malloc : ℕ → Option ℕ} (operation : MarkOperation)
    (h : MarkRun place state) (hmalloc : MallocAnswers malloc state.arena) (hrange : operation.InRange)
    (hperform : markPerform malloc state operation = .ok next) : MarkRun place next

def generationAfter (resets : ℕ) : ℕ := resets % (2 ^ 64 - 1) + 1

theorem arenaNextGeneration_after (resets : ℕ) :
    arenaNextGeneration (generationAfter resets) = generationAfter (resets + 1) := by
  unfold arenaNextGeneration generationAfter
  dsimp only
  split_ifs with hzero
  · omega
  · omega

/-- Generations come back after `2 ^ 64 - 1` resets, and no sooner. -/
theorem generationAfter_inj {first second : ℕ} (hle : first ≤ second)
    (h : generationAfter first = generationAfter second) : 2 ^ 64 - 1 ∣ second - first :=
  (Nat.modEq_iff_dvd' hle).mp (Nat.add_right_cancel h)

/-- A mark of a lifetime has the generation of the resets before it. -/
structure Dated (state : Lifetimes) (entry : Taken) : Prop where
  lifetime : entry.lifetime ≤ state.lifetime
  resets : entry.lifetime = state.lifetime → entry.resets ≤ state.resets
  owner : ∀ self, entry.marked.mark.arena = some self →
    entry.marked.mark.generation = generationAfter entry.resets

/-- The invariant, whatever has been restored. -/
structure Known (place : ℕ) (state : Lifetimes) : Prop where
  place : state.arena.self = place
  counted : Counted state.arena
  destroyed : state.arena.defaultBlockSize = 0 → state.arena.generation = 0
  generation : state.arena.defaultBlockSize ≠ 0 → state.arena.generation = generationAfter state.resets
  dated : ∀ entry ∈ state.taken, Dated state entry

/-- What an arena and its valid marks are for the operations that keep them valid. -/
def Lifetimes.history (state : Lifetimes) : History where
  arena := state.arena
  live := state.live
  marks := (state.taken.filter Taken.valid).map Taken.marked

/-- The invariant as long as only valid marks were accepted. -/
def Undamaged (state : Lifetimes) : Prop :=
  (state.arena.defaultBlockSize = 0 → ∀ entry ∈ state.taken, entry.valid = false) ∧
    (state.arena.defaultBlockSize ≠ 0 → Sound state.history)

section Runs

variable {place number : ℕ} {state next : Lifetimes} {entry : Taken} {arena : Arena} {malloc : ℕ → Option ℕ}
  {operation : MarkOperation} {taken : List Taken}

theorem mem_invalidate (h : entry ∈ taken.map Taken.invalidate) :
    ∃ before ∈ taken, entry.valid = false ∧ entry.marked = before.marked ∧
      entry.lifetime = before.lifetime ∧ entry.resets = before.resets := by
  obtain ⟨before, hmem, rfl⟩ := List.mem_map.mp h
  exact ⟨before, hmem, rfl, rfl, rfl, rfl⟩

theorem filter_invalidate (taken : List Taken) : (taken.map Taken.invalidate).filter Taken.valid = [] := by
  rw [List.filter_eq_nil_iff]
  intro entry hmem
  obtain ⟨-, -, hinvalid, -⟩ := mem_invalidate hmem
  rw [hinvalid]
  exact Bool.false_ne_true

theorem Dated.of_same {before : Taken} (h : Dated state before) (hmarked : entry.marked = before.marked)
    (hlifetime : entry.lifetime = before.lifetime) (hresets : entry.resets = before.resets)
    (hnext : next.lifetime = state.lifetime) (hlater : state.resets ≤ next.resets) : Dated next entry := by
  refine ⟨?_, ?_, ?_⟩
  · rw [hlifetime, hnext]
    exact h.lifetime
  · intro hsame
    rw [hlifetime, hnext] at hsame
    rw [hresets]
    exact (h.resets hsame).trans hlater
  · rw [hmarked, hresets]
    exact h.owner

theorem Known.began (h : Known place state) (hself : arena.self = place) (hcounted : Counted arena)
    (hdestroyed : arena.defaultBlockSize = 0 → arena.generation = 0)
    (hgeneration : arena.defaultBlockSize ≠ 0 → arena.generation = 1) : Known place (state.began arena) := by
  refine ⟨hself, hcounted, hdestroyed, hgeneration, ?_⟩
  intro entry hmem
  obtain ⟨before, hbefore, -, hmarked, hlifetime, hresets⟩ := mem_invalidate hmem
  have hdated := h.dated before hbefore
  have hearlier := hdated.lifetime
  refine ⟨?_, ?_, ?_⟩
  · rw [hlifetime]
    exact hearlier.trans (Nat.le_succ _)
  · intro hsame
    have hlater : (state.began arena).lifetime = state.lifetime + 1 := rfl
    omega
  · rw [hmarked, hresets]
    exact hdated.owner

theorem Known.same (h : Known place state) (hcounted : Counted arena) (hsame : SameLife state.arena arena)
    (hnext : next.arena = arena) (hresets : next.resets = state.resets)
    (hdated : ∀ entry ∈ next.taken, Dated next entry) : Known place next := by
  subst hnext
  refine ⟨hsame.self.trans h.place, hcounted, ?_, ?_, hdated⟩
  · rw [hsame.defaultBlockSize, hsame.generation]
    exact h.destroyed
  · rw [hsame.defaultBlockSize, hsame.generation, hresets]
    exact h.generation

theorem Known.allocated (h : Known place state) {size : ℕ} {result : Option ℕ × Arena}
    (hcounted : Counted result.2) (hsame : SameLife state.arena result.2) :
    Known place (state.allocated size result) :=
  h.same hcounted hsame rfl rfl fun entry hmem =>
    (h.dated entry hmem).of_same rfl rfl rfl rfl (Nat.le_refl _)

theorem Known.marked (h : Known place state) : Known place state.marked := by
  refine h.same h.counted (.refl _) rfl rfl fun entry hmem => ?_
  rcases List.mem_cons.mp hmem with rfl | hold
  · refine ⟨Nat.le_refl _, fun _ => Nat.le_refl _, fun owner howner => ?_⟩
    dsimp only at howner ⊢
    by_cases hdestroyed : state.arena.defaultBlockSize = 0
    · rw [arenaMark, if_pos hdestroyed] at howner
      cases howner
    · rw [arenaMark, if_neg hdestroyed]
      exact h.generation hdestroyed
  · exact (h.dated entry hold).of_same rfl rfl rfl rfl (Nat.le_refl _)

theorem Known.restored (h : Known place state) (hcounted : Counted arena)
    (hsame : SameLife state.arena arena) : Known place (state.restored number entry arena) := by
  refine h.same hcounted hsame rfl rfl fun other hmem => ?_
  rcases List.mem_append.mp hmem with hnewer | holder
  · obtain ⟨before, hbefore, -, hmarked, hlifetime, hresets⟩ := mem_invalidate hnewer
    exact (h.dated before (List.mem_of_mem_take hbefore)).of_same hmarked hlifetime hresets rfl (Nat.le_refl _)
  · exact (h.dated other (List.mem_of_mem_drop holder)).of_same rfl rfl rfl rfl (Nat.le_refl _)

theorem Known.reset (h : Known place state) (hreset : arenaReset state.arena = .ok arena) :
    Known place (state.reset arena) := by
  obtain ⟨hcounted, hself, hsize, hgeneration⟩ := arenaReset_counted h.counted hreset
  refine ⟨hself.trans h.place, hcounted, ?_, ?_, ?_⟩
  · intro hdestroyed
    have hbefore := hsize.symm.trans hdestroyed
    rw [if_pos hbefore, h.destroyed hbefore] at hgeneration
    exact hgeneration
  · intro hinitialized
    have hbefore : state.arena.defaultBlockSize ≠ 0 := fun hzero => hinitialized (hsize.trans hzero)
    rw [if_neg hbefore, h.generation hbefore, arenaNextGeneration_after] at hgeneration
    exact hgeneration
  · intro entry hmem
    obtain ⟨before, hbefore, -, hmarked, hlifetime, hresets⟩ := mem_invalidate hmem
    exact (h.dated before hbefore).of_same hmarked hlifetime hresets rfl (Nat.le_succ _)

theorem Undamaged.began (blockSize : ℕ) (hsize : blockSize ≤ SIZE_MAX)
    (hinit : arenaInit state.arena.self blockSize = some arena) : Undamaged (state.began arena) := by
  have hsound := sound_init hinit hsize
  refine ⟨fun _ entry hmem => ?_, fun _ => ?_⟩
  · obtain ⟨-, -, hinvalid, -⟩ := mem_invalidate hmem
    exact hinvalid
  · have hmarks : (state.began arena).history = { arena := arena } := by
      unfold Lifetimes.history Lifetimes.began
      rw [filter_invalidate]
      rfl
    rw [hmarks]
    exact hsound

theorem Undamaged.destroyed (state : Lifetimes) : Undamaged (state.began (arenaDestroy state.arena)) := by
  refine ⟨fun _ entry hmem => ?_, fun hnot => (hnot rfl).elim⟩
  obtain ⟨-, -, hinvalid, -⟩ := mem_invalidate hmem
  exact hinvalid

theorem arenaAlloc_destroyed (h : arena.defaultBlockSize = 0) (size : ℕ) :
    arenaAlloc malloc arena size = .ok (none, arena) := by
  unfold arenaAlloc
  rw [if_pos (by simp [h])]
  rfl

theorem history_allocated (state : Lifetimes) (size : ℕ) (result : Option ℕ × Arena) :
    (state.allocated size result).history = state.history.allocated size result := by
  obtain ⟨answer, arena⟩ := result
  cases answer with
  | none => rfl
  | some address => rfl

theorem Undamaged.allocated (h : Undamaged state) (hmalloc : MallocAnswers malloc state.arena) {size : ℕ}
    {result : Option ℕ × Arena} (halloc : arenaAlloc malloc state.arena size = .ok result) :
    Undamaged (state.allocated size result) := by
  by_cases hdestroyed : state.arena.defaultBlockSize = 0
  · rw [arenaAlloc_destroyed hdestroyed] at halloc
    cases halloc
    exact h
  obtain ⟨other, hother, hsound, -⟩ := (h.2 hdestroyed).allocated hmalloc size
  obtain rfl := Except.ok.inj (halloc.symm.trans hother)
  rw [← history_allocated] at hsound
  obtain ⟨active, spare, hshape, -⟩ := id hsound
  exact ⟨fun hzero => (hshape.blockSize hzero).elim, fun _ => hsound⟩

theorem Undamaged.allocatedArray (h : Undamaged state) (hmalloc : MallocAnswers malloc state.arena)
    {count elementSize : ℕ} {result : Option ℕ × Arena}
    (halloc : arenaAllocArray malloc state.arena count elementSize = .ok result) :
    Undamaged (state.allocated (count * elementSize) result) := by
  rw [arenaAllocArray_eq] at halloc
  by_cases hlarge : SIZE_MAX < count * elementSize
  · rw [if_pos hlarge] at halloc
    cases halloc
    exact h
  · rw [if_neg hlarge] at halloc
    exact h.allocated hmalloc halloc

theorem Undamaged.marked (h : Undamaged state) : Undamaged state.marked := by
  refine ⟨fun hdestroyed entry hmem => ?_, fun hinitialized => ?_⟩
  · rcases List.mem_cons.mp hmem with rfl | hold
    · exact decide_eq_false (not_not.mpr hdestroyed)
    · exact h.1 hdestroyed entry hold
  · obtain ⟨next, hnext, hsound, -⟩ := (h.2 hinitialized).perform (mallocAnswers_none state.arena) .mark
    cases hnext
    have hvalid : decide (state.arena.defaultBlockSize ≠ 0) = true := decide_eq_true hinitialized
    have hhistory : state.marked.history =
        { state.history with
          marks := ⟨arenaMark state.history.arena, state.history.live⟩ :: state.history.marks } := by
      simp only [Lifetimes.history, Lifetimes.marked, List.filter_cons, hvalid, if_true, List.map_cons]
    rw [hhistory]
    exact hsound

theorem history_marks (hentry : state.taken[number]? = some entry) (hvalid : entry.valid = true) :
    state.history.marks = ((state.taken.take number).filter Taken.valid).map Taken.marked ++
      entry.marked :: ((state.taken.drop (number + 1)).filter Taken.valid).map Taken.marked := by
  obtain ⟨hlt, hget⟩ := List.getElem?_eq_some_iff.mp hentry
  have hsplit : state.taken = state.taken.take number ++ entry :: state.taken.drop (number + 1) := by
    rw [← hget, ← List.drop_eq_getElem_cons hlt, List.take_append_drop]
  unfold Lifetimes.history
  dsimp only
  nth_rewrite 1 [hsplit]
  rw [List.filter_append, List.filter_cons_of_pos hvalid, List.map_append, List.map_cons]

theorem Sound.accepts {history : History} {marked : Marked} {newer older : List Marked} (h : Sound history)
    (hmarks : history.marks = newer ++ marked :: older) :
    ∃ arena, arenaRestore history.arena marked.mark = .ok (true, arena) := by
  obtain ⟨active, spare, hshape, -, -, hvalid⟩ := h
  rw [hmarks] at hvalid
  obtain ⟨snapshot, hextends, hmark, hok, -⟩ := hvalid.split
  obtain ⟨arena, hrestore, -⟩ := arenaRestore_spec hshape hextends hmark hok
  exact ⟨arena, hrestore⟩

theorem Undamaged.restored (h : Undamaged state) (hentry : state.taken[number]? = some entry)
    (hvalid : entry.valid = true) :
    ∃ arena, arenaRestore state.arena entry.marked.mark = .ok (true, arena) ∧
      Undamaged (state.restored number entry arena) := by
  have hinitialized : state.arena.defaultBlockSize ≠ 0 := by
    intro hdestroyed
    rw [h.1 hdestroyed entry (List.mem_of_getElem? hentry)] at hvalid
    cases hvalid
  have hmarks := history_marks hentry hvalid
  obtain ⟨arena, hrestore⟩ := (h.2 hinitialized).accepts hmarks
  obtain ⟨other, hrestored, hsound⟩ := (h.2 hinitialized).restored hmarks
  have hsame : arena = other := by
    rw [History.restored, show arenaRestore state.history.arena entry.marked.mark = _ from hrestore,
      sized_bind] at hrestored
    exact congrArg History.arena (Except.ok.inj hrestored)
  subst hsame
  obtain ⟨active, spare, hshape, -⟩ := id hsound
  refine ⟨arena, hrestore, fun hzero => (hshape.blockSize hzero).elim, fun _ => ?_⟩
  obtain ⟨hlt, hget⟩ := List.getElem?_eq_some_iff.mp hentry
  have hhistory : (state.restored number entry arena).history =
      { arena := arena, live := entry.marked.live, marks := entry.marked ::
          ((state.taken.drop (number + 1)).filter Taken.valid).map Taken.marked } := by
    unfold Lifetimes.history Lifetimes.restored
    dsimp only
    rw [List.filter_append, filter_invalidate, List.nil_append, List.drop_eq_getElem_cons hlt, hget,
      List.filter_cons_of_pos hvalid, List.map_cons]
  rw [hhistory]
  exact hsound

theorem Undamaged.reset (h : Undamaged state) (hreset : arenaReset state.arena = .ok arena) :
    Undamaged (state.reset arena) := by
  refine ⟨fun _ entry hmem => ?_, fun hinitialized => ?_⟩
  · obtain ⟨-, -, hinvalid, -⟩ := mem_invalidate hmem
    exact hinvalid
  have hbefore : state.arena.defaultBlockSize ≠ 0 := by
    intro hdestroyed
    rw [arenaReset, if_pos hdestroyed] at hreset
    obtain rfl := sized_pure_inv hreset
    exact hinitialized hdestroyed
  obtain ⟨next, hnext, hsound, -⟩ := (h.2 hbefore).perform (mallocAnswers_none state.arena) .reset
  have hhistory : (state.reset arena).history = next := by
    rw [arenaPerform, show arenaReset state.history.arena = _ from hreset, sized_bind] at hnext
    obtain rfl := sized_pure_inv hnext
    unfold Lifetimes.history Lifetimes.reset
    rw [filter_invalidate]
    rfl
  rw [hhistory]
  exact hsound

/-- One step keeps what is known, and does no damage unless it accepts a mark that is not valid. -/
theorem markPerform_keeps (h : Known place state) (hclean : state.clean = true → Undamaged state)
    (hmalloc : MallocAnswers malloc state.arena) (hrange : operation.InRange)
    (hperform : markPerform malloc state operation = .ok next) :
    Known place next ∧ (next.clean = true → Undamaged next) := by
  cases operation with
  | init blockSize =>
    rw [markPerform] at hperform
    cases hinit : arenaInit state.arena.self blockSize with
    | none =>
      rw [hinit] at hperform
      obtain rfl := sized_pure_inv hperform
      exact ⟨h, hclean⟩
    | some arena =>
      rw [hinit] at hperform
      obtain rfl := sized_pure_inv hperform
      refine ⟨?_, fun _ => .began blockSize hrange hinit⟩
      unfold arenaInit at hinit
      split_ifs at hinit with hzero
      cases hinit
      exact h.began h.place ⟨by simp, fun _ => rfl, rfl, rfl, Nat.zero_le _, Nat.zero_le _⟩
        (fun hdestroyed => (hzero hdestroyed).elim) fun _ => rfl
  | destroy =>
    obtain rfl := sized_pure_inv hperform
    refine ⟨?_, fun _ => .destroyed state⟩
    exact h.began h.place ⟨by simp [arenaDestroy], fun _ => rfl, rfl, rfl, Nat.zero_le _, Nat.zero_le _⟩
      (fun _ => rfl) fun hinitialized => (hinitialized rfl).elim
  | alloc size =>
    obtain ⟨result, halloc, hperform⟩ := sized_bind_inv hperform
    obtain rfl := sized_pure_inv hperform
    obtain ⟨hcounted, hsame⟩ := arenaAlloc_counted h.counted halloc
    exact ⟨h.allocated hcounted hsame, fun hkept => (hclean hkept).allocated hmalloc halloc⟩
  | allocZero size =>
    obtain ⟨result, halloc, hperform⟩ := sized_bind_inv hperform
    obtain rfl := sized_pure_inv hperform
    obtain ⟨hcounted, hsame⟩ := arenaAlloc_counted h.counted halloc
    exact ⟨h.allocated hcounted hsame, fun hkept => (hclean hkept).allocated hmalloc halloc⟩
  | allocArray count elementSize =>
    obtain ⟨result, halloc, hperform⟩ := sized_bind_inv hperform
    obtain rfl := sized_pure_inv hperform
    obtain ⟨hcounted, hsame⟩ := arenaAllocArray_counted h.counted halloc
    exact ⟨h.allocated hcounted hsame, fun hkept => (hclean hkept).allocatedArray hmalloc halloc⟩
  | mark =>
    obtain rfl := sized_pure_inv hperform
    exact ⟨h.marked, fun hkept => (hclean hkept).marked⟩
  | restore number =>
    rw [markPerform] at hperform
    cases hentry : state.taken[number]? with
    | none =>
      rw [hentry] at hperform
      obtain rfl := sized_pure_inv hperform
      exact ⟨h, hclean⟩
    | some entry =>
      obtain ⟨ok, arena, hrestore, -, hrefused, hcounted, hsame⟩ :=
        arenaRestore_coincides h.counted entry.marked.mark
      rw [hentry] at hperform
      dsimp only at hperform
      rw [hrestore, sized_bind] at hperform
      cases ok with
      | false =>
        obtain rfl := hrefused rfl
        obtain rfl := sized_pure_inv hperform
        exact ⟨h, hclean⟩
      | true =>
        obtain rfl := sized_pure_inv hperform
        refine ⟨h.restored hcounted hsame, fun hkept => ?_⟩
        obtain ⟨hbefore, hvalid⟩ := Bool.and_eq_true_iff.mp hkept
        obtain ⟨other, hother, hundamaged⟩ := (hclean hbefore).restored hentry hvalid
        obtain rfl := (Prod.ext_iff.mp (Except.ok.inj (hrestore.symm.trans hother))).2
        exact hundamaged
  | reset =>
    obtain ⟨arena, hreset, hperform⟩ := sized_bind_inv hperform
    obtain rfl := sized_pure_inv hperform
    exact ⟨h.reset hreset, fun hkept => (hclean hkept).reset hreset⟩

theorem MarkRun.keeps (h : MarkRun place state) :
    Known place state ∧ (state.clean = true → Undamaged state) := by
  induction h with
  | start =>
    exact ⟨⟨rfl, ⟨by simp, fun _ => rfl, rfl, rfl, Nat.zero_le _, Nat.zero_le _⟩, fun _ => rfl,
      fun hinitialized => (hinitialized rfl).elim, by simp⟩, fun _ => ⟨by simp, fun hinitialized =>
        (hinitialized rfl).elim⟩⟩
  | step operation _ hmalloc hrange hperform ih => exact markPerform_keeps ih.1 ih.2 hmalloc hrange hperform

/-- In every run, whatever the answers of `malloc`: `arena_restore` accepts exactly the marks that
coincide with the present arena, and refuses the others without a change. Of the marks that were
taken none is accepted by an arena that is destroyed, and none from before a reset of the same
lifetime until the generations come round. A valid mark is accepted as long as all that were
accepted were valid. -/
theorem arenaRestore_accepts (h : MarkRun place state) :
    (∀ mark, ∃ ok arena, arenaRestore state.arena mark = .ok (ok, arena) ∧
        (ok = true ↔ Coincides state.arena mark) ∧ (ok = false → arena = state.arena)) ∧
      (∀ entry ∈ state.taken, Coincides state.arena entry.marked.mark →
        state.arena.defaultBlockSize ≠ 0 ∧
          (entry.lifetime = state.lifetime → 2 ^ 64 - 1 ∣ state.resets - entry.resets)) ∧
      (state.clean = true → ∀ entry ∈ state.taken, entry.valid = true →
        Coincides state.arena entry.marked.mark) := by
  obtain ⟨hknown, hclean⟩ := h.keeps
  refine ⟨?_, ?_, ?_⟩
  · intro mark
    obtain ⟨ok, arena, hrestore, hcoincides, hrefused, -⟩ := arenaRestore_coincides hknown.counted mark
    exact ⟨ok, arena, hrestore, hcoincides, hrefused⟩
  · intro entry hmem hcoincides
    have hdated := hknown.dated entry hmem
    have hgeneration := (hdated.owner _ hcoincides.owner).symm.trans hcoincides.generation
    have hinitialized : state.arena.defaultBlockSize ≠ 0 := by
      intro hdestroyed
      rw [hknown.destroyed hdestroyed] at hgeneration
      exact Nat.succ_ne_zero _ hgeneration
    refine ⟨hinitialized, fun hlifetime => ?_⟩
    rw [hknown.generation hinitialized] at hgeneration
    exact generationAfter_inj (hdated.resets hlifetime) hgeneration
  · intro hkept entry hmem hvalid
    obtain ⟨number, hentry⟩ := List.mem_iff_getElem?.mp hmem
    obtain ⟨arena, hrestore, -⟩ := (hclean hkept).restored hentry hvalid
    obtain ⟨ok, other, hother, hcoincides, -⟩ := arenaRestore_coincides hknown.counted entry.marked.mark
    obtain ⟨rfl, -⟩ := Prod.ext_iff.mp (Except.ok.inj (hrestore.symm.trans hother))
    exact hcoincides.mp rfl

end Runs

def markedOnce : Lifetimes where
  arena := { self := 0, defaultBlockSize := 64, generation := 1 }
  taken := [{ marked := ⟨{ arena := some 0, generation := 1 }, []⟩, lifetime := 1, resets := 0 }]
  lifetime := 1

theorem markedOnce_run : MarkRun 0 markedOnce :=
  .step .mark (.step (.init 64) .start (mallocAnswers_none _) (by decide : 64 ≤ SIZE_MAX) rfl)
    (mallocAnswers_none _) trivial rfl

/-- `malloc` finds the same place again and again. -/
def mallocReuses : ℕ → Option ℕ := fun _ => some 4096

theorem mallocReuses_answers {arena : Arena} (h : arena.blocks = []) : MallocAnswers mallocReuses arena := by
  intro size address hsome
  cases hsome
  rw [h]
  exact ⟨by decide, by simp⟩

/-- A mark behind an allocation, from before a reset, and another behind the next allocation. -/
def markedTwice : Lifetimes where
  arena :=
    { self := 0
      blocks := [⟨4096, 64, 16, 1, false⟩]
      current := some 4096
      defaultBlockSize := 64
      blockCount := 1
      capacity := 64
      used := 16
      allocationCount := 1
      generation := 2 }
  live := [⟨4176, 16⟩]
  taken :=
    [{ marked := ⟨⟨some 0, some 4096, 16, 1, 16, 1, 2⟩, [⟨4176, 16⟩]⟩, lifetime := 1, resets := 1 },
      { marked := ⟨⟨some 0, some 4096, 8, 1, 8, 1, 1⟩, [⟨4176, 8⟩]⟩
        valid := false
        lifetime := 1
        resets := 0 }]
  lifetime := 1
  resets := 1

theorem markedTwice_run : MarkRun 0 markedTwice := by
  have hinit : MarkRun 0 _ := .step (.init 64) .start (mallocAnswers_none _) (by decide : 64 ≤ SIZE_MAX) rfl
  have halloc : MarkRun 0 _ := .step (.alloc 8) hinit (mallocReuses_answers rfl) trivial rfl
  have hmark : MarkRun 0 _ := .step .mark halloc (mallocAnswers_none _) trivial rfl
  have hreset : MarkRun 0 _ := .step .reset hmark (mallocAnswers_none _) trivial rfl
  have hagain : MarkRun 0 _ := .step (.alloc 16) hreset (mallocAnswers_none _) trivial rfl
  exact .step .mark hagain (mallocAnswers_none _) trivial rfl

/-- The second mark is accepted, the first is refused and changes nothing. -/
theorem arenaRestore_accepts_reset : ∃ valid stale, markedTwice.taken = [valid, stale] ∧
    Coincides markedTwice.arena valid.marked.mark ∧
    arenaRestore markedTwice.arena stale.marked.mark = .ok (false, markedTwice.arena) := by
  obtain ⟨hexact, hlater, hvalid⟩ := arenaRestore_accepts markedTwice_run
  refine ⟨_, _, rfl, hvalid rfl _ List.mem_cons_self rfl, ?_⟩
  obtain ⟨ok, arena, hrestore, hcoincides, hrefused⟩ := hexact ⟨some 0, some 4096, 8, 1, 8, 1, 1⟩
  cases ok with
  | false =>
    obtain rfl := hrefused rfl
    exact hrestore
  | true =>
    have hrounds := (hlater _ (List.mem_cons_of_mem _ List.mem_cons_self) (hcoincides.mp rfl)).2 rfl
    exact absurd hrounds (by decide)

theorem resets_run (resets : ℕ) :
    ∃ state, MarkRun 0 state ∧
      state.arena = { self := 0, defaultBlockSize := 64, generation := generationAfter resets } ∧
      state.lifetime = 1 ∧ state.resets = resets ∧ ∃ entry ∈ state.taken,
        entry.lifetime = 1 ∧ entry.resets = 0 ∧ entry.marked.mark = { arena := some 0, generation := 1 } := by
  induction resets with
  | zero =>
    exact ⟨_, markedOnce_run, rfl, rfl, rfl, _, List.mem_cons_self, rfl, rfl, rfl⟩
  | succ resets ih =>
    obtain ⟨state, hrun, harena, hlifetime, hresets, entry, hmem, hentry, hzero, hmark⟩ := ih
    have hreset : arenaReset state.arena =
        .ok { self := 0, defaultBlockSize := 64, generation := generationAfter (resets + 1) } := by
      rw [harena, ← arenaNextGeneration_after]
      rfl
    have hperform : markPerform (fun _ => none) state .reset = .ok (state.reset
        { self := 0, defaultBlockSize := 64, generation := generationAfter (resets + 1) }) := by
      rw [markPerform, hreset]
      rfl
    refine ⟨_, .step .reset hrun (mallocAnswers_none _) trivial hperform, rfl, hlifetime, ?_, entry.invalidate,
      List.mem_map.mpr ⟨entry, hmem, rfl⟩, hentry, hzero, hmark⟩
    exact congrArg (· + 1) hresets

/-- Marks that are accepted although they are not valid: one that was taken after the mark that was
restored, when the block that `malloc` returns next is where its block was; one of an earlier
lifetime; and one from before `2 ^ 64 - 1` resets. -/
theorem arenaRestore_accepts_stale :
    (∃ state, MarkRun 0 state ∧ ∃ entry ∈ state.taken, entry.valid = false ∧
        entry.lifetime = state.lifetime ∧ entry.resets = state.resets ∧
        ∃ arena, arenaRestore state.arena entry.marked.mark = .ok (true, arena)) ∧
      (∃ state, MarkRun 0 state ∧ ∃ entry ∈ state.taken, entry.lifetime < state.lifetime ∧
        ∃ arena, arenaRestore state.arena entry.marked.mark = .ok (true, arena)) ∧
      ∃ state, MarkRun 0 state ∧ ∃ entry ∈ state.taken, entry.lifetime = state.lifetime ∧
        entry.resets < state.resets ∧
        ∃ arena, arenaRestore state.arena entry.marked.mark = .ok (true, arena) := by
  refine ⟨?_, ?_, ?_⟩
  · have halloc : MarkRun 0 _ := .step (.alloc 8) markedOnce_run (mallocReuses_answers rfl) trivial rfl
    have hsecond : MarkRun 0 _ := .step .mark halloc (mallocAnswers_none _) trivial rfl
    have hrestored : MarkRun 0 _ := .step (.restore 1) hsecond (mallocAnswers_none _) trivial rfl
    have hagain : MarkRun 0 _ := .step (.alloc 16) hrestored (mallocReuses_answers rfl) trivial rfl
    exact ⟨_, hagain, _, List.mem_cons_self, rfl, rfl, rfl, _, rfl⟩
  · have hdestroyed : MarkRun 0 _ := .step .destroy markedOnce_run (mallocAnswers_none _) trivial rfl
    have hagain : MarkRun 0 _ := .step (.init 64) hdestroyed (mallocAnswers_none _) (by decide : 64 ≤ SIZE_MAX) rfl
    exact ⟨_, hagain, _, List.mem_cons_self, by decide, _, rfl⟩
  · obtain ⟨state, hrun, harena, hlifetime, hresets, entry, hmem, hentry, hzero, hmark⟩ :=
      resets_run (2 ^ 64 - 1)
    refine ⟨state, hrun, entry, hmem, hentry.trans hlifetime.symm, ?_, ?_⟩
    · rw [hzero, hresets]
      decide
    · rw [harena, hmark]
      exact ⟨_, rfl⟩

end Ceasy.Arenas
