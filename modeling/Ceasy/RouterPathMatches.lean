import Ceasy.StringView

set_option autoImplicit false

/-!
# Matching a request path against a route pattern

`routerPathMatches` advances two cursors in step, one segment of the pattern and
one of the path at a time. The out parameters are read together as one result.
-/
namespace Ceasy.RouterPathMatches
open StringView

def CEASY_MAX_ROUTE_PARAMS : ℕ := 16

structure RouteParam where
  name : Bytes
  value : Bytes
deriving DecidableEq, Repr

structure RouteMatch where
  staticSegmentCount : ℕ
  params : List RouteParam
deriving DecidableEq, Repr

def routerValidPath (path : CString) : Bool := path.bytes.head? == some (ch '/')

def routerNextSegment (path : Bytes) (cursor : ℕ) : Option (Bytes × ℕ) :=
  let start := if path[cursor]? = some (ch '/') then cursor + 1 else cursor
  if path.length ≤ start then none
  else
    let relativeEnd :=
      (stringvFindChar (stringvFrom path start) (ch '/')).getD (path.length - start)
    some (stringvSlice path start relativeEnd, start + relativeEnd)

theorem routerNextSegment_advances {path segment : Bytes} {cursor next : ℕ}
    (h : routerNextSegment path cursor = some (segment, next)) :
    cursor < next ∧ cursor < path.length := by
  unfold routerNextSegment at h
  dsimp only at h
  split_ifs at h with hslash hend hend
  · simp only [Option.some.injEq, Prod.mk.injEq] at h
    omega
  · simp only [Option.some.injEq, Prod.mk.injEq] at h
    obtain ⟨-, hn⟩ := h
    have hc : cursor < path.length := by omega
    refine ⟨?_, hc⟩
    rw [List.getElem?_eq_getElem hc, Option.some.injEq] at hslash
    have hpos : 0 < (stringvFindChar (stringvFrom path cursor) (ch '/')).getD
        (path.length - cursor) := by
      cases hf : stringvFindChar (stringvFrom path cursor) (ch '/') with
      | none => simp only [Option.getD_none]; omega
      | some i =>
        obtain ⟨before, after, hv, hb, rfl⟩ := stringvFindChar_some.mp hf
        rw [Option.getD_some]
        cases before with
        | nil =>
          rw [stringvFrom, List.drop_eq_getElem_cons hc, List.nil_append, List.cons.injEq] at hv
          exact absurd hv.1 hslash
        | cons b before => simp
    omega

/-- What the two cursors and the two counters hold when the loop is left. -/
structure Walk where
  patternCursor : ℕ
  pathCursor : ℕ
  staticCount : ℕ
  params : List RouteParam

/-- The `while` loop; `none` is a `return false` inside its body. When the path
    runs out first the pattern cursor has already moved past one more segment. -/
def routerMatchSegments (pattern path : Bytes) (walk : Walk) : Option Walk :=
  match _hp : routerNextSegment pattern walk.patternCursor with
  | none => some walk
  | some (patternSegment, patternCursor) =>
    match routerNextSegment path walk.pathCursor with
    | none => some { walk with patternCursor := patternCursor }
    | some (pathSegment, pathCursor) =>
      if patternSegment.head? = some (ch ':') then
        if pathSegment.length = 0 ∨ patternSegment.length = 1 ∨
            CEASY_MAX_ROUTE_PARAMS ≤ walk.params.length then none
        else routerMatchSegments pattern path
          { walk with
            patternCursor := patternCursor
            pathCursor := pathCursor
            params := walk.params ++ [⟨stringvFrom patternSegment 1, pathSegment⟩] }
      else if stringvEqual patternSegment pathSegment then
        routerMatchSegments pattern path
          { walk with
            patternCursor := patternCursor
            pathCursor := pathCursor
            staticCount := walk.staticCount + 1 }
      else none
termination_by pattern.length - walk.patternCursor
decreasing_by
  all_goals
    have := routerNextSegment_advances _hp
    omega

def routerPathMatches (patternCstr pathCstr : CString) : Option RouteMatch :=
  let pattern := stringvFromCstr patternCstr
  let path := stringvFromCstr pathCstr
  if !routerValidPath patternCstr || !routerValidPath pathCstr then none
  else if stringvEqual pattern (sv "/") || stringvEqual path (sv "/") then
    if stringvEqual pattern (sv "/") && stringvEqual path (sv "/") then some ⟨0, []⟩ else none
  else
    match routerMatchSegments pattern path ⟨0, 0, 0, []⟩ with
    | none => none
    | some walk =>
      if walk.patternCursor ≠ pattern.length ∨ walk.pathCursor ≠ path.length then none
      else some ⟨walk.staticCount, walk.params⟩

/-- A byte string read as `/`-led segments. -/
def slashed (segments : List Bytes) : Bytes := segments.flatMap (ch '/' :: ·)

/-- The segments a byte string starting with `/` splits into. -/
def slashSegments (path : Bytes) : List Bytes := path.tail.splitOn (ch '/')

def SlashFree (segments : List Bytes) : Prop := ∀ s ∈ segments, ch '/' ∉ s

theorem slashed_cons (s : Bytes) (segments : List Bytes) :
    slashed (s :: segments) = ch '/' :: (s ++ slashed segments) := rfl

theorem slashed_eq_nil (segments : List Bytes) : slashed segments = [] ↔ segments = [] := by
  cases segments with
  | nil => simp [slashed]
  | cons s segments => simp [slashed_cons]

theorem splitOn_slashed (s : Bytes) (segments : List Bytes) (h : SlashFree (s :: segments)) :
    (s ++ slashed segments).splitOn (ch '/') = s :: segments := by
  induction segments generalizing s with
  | nil =>
    rw [slashed, List.flatMap_nil, List.append_nil]
    exact List.splitOn_eq_singleton (h s List.mem_cons_self)
  | cons t segments ih =>
    rw [slashed_cons, List.splitOn_append_cons_self_of_not_mem (h s List.mem_cons_self),
      ih t (fun u hu => h u (List.mem_cons_of_mem _ hu))]

theorem slashed_exists (value : Bytes) :
    ∃ s segments, SlashFree (s :: segments) ∧ value = s ++ slashed segments := by
  induction value with
  | nil => exact ⟨[], [], by simp [SlashFree], rfl⟩
  | cons b value ih =>
    obtain ⟨s, segments, hfree, rfl⟩ := ih
    by_cases hb : b = ch '/'
    · refine ⟨[], s :: segments, ?_, by rw [hb]; rfl⟩
      rintro t (_ | ⟨_, ht⟩)
      · exact List.not_mem_nil
      · exact hfree t ht
    · refine ⟨b :: s, segments, ?_, rfl⟩
      rintro t (_ | ⟨_, ht⟩)
      · rintro (_ | ⟨_, hs⟩)
        · exact hb rfl
        · exact hfree s List.mem_cons_self hs
      · exact hfree t (List.mem_cons_of_mem _ ht)

theorem slashed_slashSegments {path : Bytes} (h : path.head? = some (ch '/')) :
    slashed (slashSegments path) = path ∧ SlashFree (slashSegments path) := by
  cases path with
  | nil => cases h
  | cons b value =>
    obtain ⟨s, segments, hfree, rfl⟩ := slashed_exists value
    rw [List.head?_cons, Option.some.injEq] at h
    rw [slashSegments, List.tail_cons, splitOn_slashed s segments hfree, slashed_cons, h]
    exact ⟨rfl, hfree⟩

def CursorAt (path : Bytes) (cursor : ℕ) (segments : List Bytes) : Prop :=
  cursor ≤ path.length ∧ path.drop cursor = slashed segments ∧ SlashFree segments

theorem cursorAt_end {path : Bytes} {cursor : ℕ} {segments : List Bytes}
    (h : CursorAt path cursor segments) : cursor = path.length ↔ segments = [] := by
  have hl := congrArg List.length h.2.1
  rw [List.length_drop] at hl
  have hc := h.1
  constructor
  · intro he
    rw [← slashed_eq_nil, ← List.length_eq_zero_iff]
    omega
  · intro he
    rw [← slashed_eq_nil] at he
    rw [he, List.length_nil] at hl
    omega

/-- The segment reader stops on nothing and on a lone empty segment. -/
theorem routerNextSegment_stops {path : Bytes} {cursor : ℕ} {segments : List Bytes}
    (h : CursorAt path cursor segments) (hs : segments = [] ∨ segments = [[]]) :
    routerNextSegment path cursor = none := by
  have hl := congrArg List.length h.2.1
  rw [List.length_drop] at hl
  unfold routerNextSegment
  rcases hs with rfl | rfl
  · have hc := (cursorAt_end h).mpr rfl
    have hn : path[cursor]? = none := List.getElem?_eq_none (by omega)
    simp only [hn, reduceCtorEq, if_false]
    rw [if_pos (by omega)]
  · have hslash : path[cursor]? = some (ch '/') := by
      rw [← List.head?_drop, h.2.1]
      rfl
    have hone : (slashed [[]]).length = 1 := rfl
    simp only [hslash, if_true]
    rw [if_pos (by omega)]

theorem routerNextSegment_reads {path s : Bytes} {cursor : ℕ} {segments : List Bytes}
    (h : CursorAt path cursor (s :: segments)) (hs : s :: segments ≠ [[]]) :
    ∃ next, routerNextSegment path cursor = some (s, next) ∧ CursorAt path next segments := by
  obtain ⟨hc, hd, hfree⟩ := h
  have hslash : path[cursor]? = some (ch '/') := by
    rw [← List.head?_drop, hd]
    rfl
  have hrest : path.drop (cursor + 1) = s ++ slashed segments := by
    rw [← List.drop_drop, hd, slashed_cons, List.drop_one, List.tail_cons]
  have hlen := congrArg List.length hrest
  rw [List.length_drop, List.length_append] at hlen
  have hpos : 0 < s.length + (slashed segments).length := by
    by_contra hz
    have h1 : s = [] := List.length_eq_zero_iff.mp (by omega)
    have h2 : segments = [] := (slashed_eq_nil _).mp (List.length_eq_zero_iff.mp (by omega))
    exact hs (by rw [h1, h2])
  have hfind : (stringvFindChar (stringvFrom path (cursor + 1)) (ch '/')).getD
      (path.length - (cursor + 1)) = s.length := by
    rw [stringvFrom, hrest]
    cases segments with
    | nil =>
      have hnil : slashed [] = [] := rfl
      rw [hnil, List.append_nil, stringvFindChar_none.mpr (hfree s List.mem_cons_self),
        Option.getD_none]
      rw [hnil, List.length_nil] at hlen
      omega
    | cons t segments =>
      rw [slashed_cons, stringvFindChar_split (hfree s List.mem_cons_self), Option.getD_some]
  refine ⟨cursor + 1 + s.length, ?_, by omega, ?_, fun t ht => hfree t (List.mem_cons_of_mem _ ht)⟩
  · unfold routerNextSegment
    simp only [hslash, if_true]
    rw [if_neg (by omega), hfind, stringvSlice, hrest, List.take_left]
  · rw [← List.drop_drop, hrest, List.drop_left]

/-- The loop and the cursor test after it, on the unread segments of each side. -/
def walkSegments (patterns paths : List Bytes) (staticCount : ℕ) (params : List RouteParam) :
    Option RouteMatch :=
  match patterns, paths with
  | [], [] => some ⟨staticCount, params⟩
  | [], _ :: _ => none
  | [[]], _ => none
  | [_], [] => some ⟨staticCount, params⟩
  | _ :: _ :: _, [] => none
  | _ :: _, [[]] => none
  | p :: patterns, x :: paths =>
    if p.head? = some (ch ':') then
      if x.length = 0 ∨ p.length = 1 ∨ CEASY_MAX_ROUTE_PARAMS ≤ params.length then none
      else walkSegments patterns paths staticCount (params ++ [⟨stringvFrom p 1, x⟩])
    else if stringvEqual p x then walkSegments patterns paths (staticCount + 1) params
    else none

theorem walkSegments_short {p : Bytes} {patterns : List Bytes} (h : p :: patterns ≠ [[]])
    (staticCount : ℕ) (params : List RouteParam) :
    walkSegments (p :: patterns) [] staticCount params =
      if patterns = [] then some ⟨staticCount, params⟩ else none := by
  cases patterns with
  | nil =>
    cases p with
    | nil => exact absurd rfl h
    | cons b p => simp [walkSegments]
  | cons q patterns => simp [walkSegments]

theorem walkSegments_trailing (p : Bytes) (patterns : List Bytes) (staticCount : ℕ)
    (params : List RouteParam) :
    walkSegments (p :: patterns) [[]] staticCount params = none := by
  cases patterns <;> cases p <;> simp [walkSegments]

theorem walkSegments_cons {p x : Bytes} {patterns paths : List Bytes}
    (hp : p :: patterns ≠ [[]]) (hx : x :: paths ≠ [[]]) (staticCount : ℕ)
    (params : List RouteParam) :
    walkSegments (p :: patterns) (x :: paths) staticCount params =
      if p.head? = some (ch ':') then
        if x.length = 0 ∨ p.length = 1 ∨ CEASY_MAX_ROUTE_PARAMS ≤ params.length then none
        else walkSegments patterns paths staticCount (params ++ [⟨stringvFrom p 1, x⟩])
      else if stringvEqual p x then walkSegments patterns paths (staticCount + 1) params
      else none := by
  rw [walkSegments.eq_def]
  cases patterns <;> cases p <;> cases paths <;> cases x <;> simp_all

/-- The cursor test after the loop. -/
def cursorTest (pattern path : Bytes) (walk : Walk) : Option RouteMatch :=
  if walk.patternCursor ≠ pattern.length ∨ walk.pathCursor ≠ path.length then none
  else some ⟨walk.staticCount, walk.params⟩

theorem cursorTest_eq {pattern path : Bytes} {patternCursor pathCursor : ℕ}
    {patterns paths : List Bytes} (hp : CursorAt pattern patternCursor patterns)
    (hx : CursorAt path pathCursor paths) (staticCount : ℕ) (params : List RouteParam) :
    cursorTest pattern path ⟨patternCursor, pathCursor, staticCount, params⟩ =
      if patterns = [] ∧ paths = [] then some ⟨staticCount, params⟩ else none := by
  unfold cursorTest
  simp only [ne_eq, cursorAt_end hp, cursorAt_end hx]
  by_cases h1 : patterns = [] <;> by_cases h2 : paths = [] <;> simp [h1, h2]

theorem routerMatchSegments_done {pattern path : Bytes} {walk : Walk}
    (h : routerNextSegment pattern walk.patternCursor = none) :
    routerMatchSegments pattern path walk = some walk := by
  rw [routerMatchSegments]
  split
  · rfl
  · simp_all

theorem routerMatchSegments_short {pattern path p : Bytes} {walk : Walk} {patternCursor : ℕ}
    (h : routerNextSegment pattern walk.patternCursor = some (p, patternCursor))
    (hx : routerNextSegment path walk.pathCursor = none) :
    routerMatchSegments pattern path walk = some { walk with patternCursor := patternCursor } := by
  rw [routerMatchSegments]
  split <;> simp_all

theorem routerMatchSegments_step {pattern path p x : Bytes} {walk : Walk}
    {patternCursor pathCursor : ℕ}
    (h : routerNextSegment pattern walk.patternCursor = some (p, patternCursor))
    (hx : routerNextSegment path walk.pathCursor = some (x, pathCursor)) :
    routerMatchSegments pattern path walk =
      if p.head? = some (ch ':') then
        if x.length = 0 ∨ p.length = 1 ∨ CEASY_MAX_ROUTE_PARAMS ≤ walk.params.length then none
        else routerMatchSegments pattern path
          ⟨patternCursor, pathCursor, walk.staticCount, walk.params ++ [⟨stringvFrom p 1, x⟩]⟩
      else if stringvEqual p x then routerMatchSegments pattern path
          ⟨patternCursor, pathCursor, walk.staticCount + 1, walk.params⟩
      else none := by
  rw [routerMatchSegments]
  split <;> simp_all

theorem routerMatchSegments_walk {pattern path : Bytes} (patterns paths : List Bytes)
    (walk : Walk) (hp : CursorAt pattern walk.patternCursor patterns)
    (hx : CursorAt path walk.pathCursor paths) :
    (routerMatchSegments pattern path walk).bind (cursorTest pattern path) =
      walkSegments patterns paths walk.staticCount walk.params := by
  induction patterns generalizing paths walk with
  | nil =>
    rw [routerMatchSegments_done (routerNextSegment_stops hp (.inl rfl)), Option.bind_some,
      cursorTest_eq hp hx]
    cases paths <;> simp [walkSegments]
  | cons p patterns ih =>
    by_cases hlone : p :: patterns = [[]]
    · rw [routerMatchSegments_done (routerNextSegment_stops hp (.inr hlone)), Option.bind_some,
        cursorTest_eq hp hx, hlone]
      simp [walkSegments]
    obtain ⟨patternCursor, hnext, hp'⟩ := routerNextSegment_reads hp hlone
    by_cases hend : paths = [] ∨ paths = [[]]
    · -- the path is used up while the pattern cursor has just read one more segment
      rw [routerMatchSegments_short hnext (routerNextSegment_stops hx hend), Option.bind_some,
        cursorTest_eq hp' hx]
      rcases hend with rfl | rfl
      · rw [walkSegments_short hlone]
        simp
      · rw [walkSegments_trailing]
        simp
    cases paths with
    | nil => exact absurd (.inl rfl) hend
    | cons x paths =>
      have hxlone : x :: paths ≠ [[]] := fun h => hend (.inr h)
      obtain ⟨pathCursor, hread, hx'⟩ := routerNextSegment_reads hx hxlone
      rw [routerMatchSegments_step hnext hread, walkSegments_cons hlone hxlone]
      split_ifs
      · rfl
      · exact ih paths ⟨patternCursor, pathCursor, _, _⟩ hp' hx'
      · exact ih paths ⟨patternCursor, pathCursor, _, _⟩ hp' hx'
      · rfl

theorem cursorAt_start {path : Bytes} (h : path.head? = some (ch '/')) :
    CursorAt path 0 (slashSegments path) := by
  obtain ⟨hs, hfree⟩ := slashed_slashSegments h
  exact ⟨Nat.zero_le _, hs.symm, hfree⟩

end Ceasy.RouterPathMatches
