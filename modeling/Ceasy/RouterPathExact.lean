import Ceasy.RouterPathMatches

set_option autoImplicit false

/-!
# When the route matcher is exact

The reading of a pattern that the routes rely on compares the two segment lists
position by position. The matcher agrees with it except on the inputs singled
out in `routerPathMatches_exact_iff`.
-/
namespace Ceasy.RouterPathExact
open StringView RouterPathMatches

/-- A string that passes `router_valid_path`. -/
structure RoutePath extends CString where
  leadingSlash : bytes.head? = some (ch '/')

/-- The segments after the leading slash; `/` itself has none. -/
def pathSegments (path : RoutePath) : List Bytes :=
  if path.bytes = sv "/" then [] else slashSegments path.bytes

def namedParam (p : Bytes) : Bool := p.head? == some (ch ':') && p.tail ≠ []

def SegmentMatches (p x : Bytes) : Prop := (namedParam p ∧ x ≠ []) ∨ p = x

def bindings (patterns paths : List Bytes) : List RouteParam :=
  (patterns.zip paths).filterMap fun q => if namedParam q.1 then some ⟨q.1.tail, q.2⟩ else none

def PathsMatch (patterns paths : List Bytes) : Prop :=
  List.Forall₂ SegmentMatches patterns paths ∧
    patterns.countP namedParam ≤ CEASY_MAX_ROUTE_PARAMS

def matchResult (patterns paths : List Bytes) : RouteMatch :=
  ⟨patterns.countP (!namedParam ·), bindings patterns paths⟩

/-- On this pattern and path the matcher returns what the segments say. -/
def Exact (pattern path : RoutePath) : Prop :=
  ∀ r, routerPathMatches pattern.toCString path.toCString = some r ↔
    PathsMatch (pathSegments pattern) (pathSegments path) ∧
      r = matchResult (pathSegments pattern) (pathSegments path)

def SegmentAccepts (p x : Bytes) : Prop :=
  if p.head? = some (ch ':') then x ≠ [] ∧ p.tail ≠ [] else p = x

/-- The last segment is not the empty one after a trailing slash. -/
def NoTrailingSlash (segments : List Bytes) : Prop := segments.getLast? ≠ some []

theorem namedParam_of_accepts {p x : Bytes} (h : SegmentAccepts p x) :
    namedParam p = (p.head? == some (ch ':')) := by
  unfold SegmentAccepts at h
  unfold namedParam
  split_ifs at h with hc
  · simp [hc, h.2]
  · simp [hc]

theorem segmentAccepts_iff (p x : Bytes) :
    SegmentAccepts p x ↔ SegmentMatches p x ∧ p ≠ [ch ':'] := by
  unfold SegmentAccepts SegmentMatches namedParam
  cases p with
  | nil => simp
  | cons c name =>
    by_cases hc : c = ch ':'
    · subst hc
      cases name with
      | nil => simp
      | cons d name =>
        simp only [List.head?_cons, if_true, List.tail_cons, ne_eq, reduceCtorEq, not_false_eq_true,
          and_true, BEq.rfl, Bool.true_and, decide_true, true_and, List.cons.injEq, and_false]
        constructor
        · exact Or.inl
        · rintro (h | rfl)
          · exact h
          · simp
    · simp [hc]

theorem noTrailingSlash_cons {p : Bytes} {patterns : List Bytes} (h : p :: patterns ≠ [[]]) :
    NoTrailingSlash (p :: patterns) ↔ NoTrailingSlash patterns := by
  unfold NoTrailingSlash
  cases patterns with
  | nil =>
    simp only [List.getLast?_singleton, List.getLast?_nil, ne_eq, Option.some.injEq, reduceCtorEq,
      not_false_eq_true, iff_true]
    rintro rfl
    exact h rfl
  | cons q patterns => rw [List.getLast?_cons_cons]

/-- The pattern segments that the loop pairs up: all of them, or all but one. -/
def Paired (patterns matched : List Bytes) : Prop :=
  patterns = matched ∨ ∃ last, patterns = matched ++ [last]

theorem paired_cons (p x : Bytes) (patterns paths : List Bytes) (Q : List Bytes → Prop) :
    (∃ matched, Paired (p :: patterns) matched ∧
        List.Forall₂ SegmentAccepts matched (x :: paths) ∧ Q matched) ↔
      SegmentAccepts p x ∧ ∃ matched, Paired patterns matched ∧
        List.Forall₂ SegmentAccepts matched paths ∧ Q (p :: matched) := by
  constructor
  · rintro ⟨matched, hpair, hall, hq⟩
    cases hall with
    | cons hseg hrest =>
      rcases hpair with heq | ⟨last, heq⟩
      · obtain ⟨rfl, rfl⟩ := List.cons.inj heq
        exact ⟨hseg, _, .inl rfl, hrest, hq⟩
      · obtain ⟨rfl, rfl⟩ := List.cons.inj heq
        exact ⟨hseg, _, .inr ⟨last, rfl⟩, hrest, hq⟩
  · rintro ⟨hseg, matched, hpair, hrest, hq⟩
    refine ⟨p :: matched, ?_, .cons hseg hrest, hq⟩
    rcases hpair with rfl | ⟨last, rfl⟩
    · exact .inl rfl
    · exact .inr ⟨last, rfl⟩

theorem bindings_cons (p x : Bytes) (patterns paths : List Bytes) :
    bindings (p :: patterns) (x :: paths) =
      if namedParam p then ⟨p.tail, x⟩ :: bindings patterns paths
      else bindings patterns paths := by
  unfold bindings
  rw [List.zip_cons_cons, List.filterMap_cons]
  split_ifs <;> rfl

/-- What the counters hold once `matched` has been read from them. -/
def Counted (matched paths : List Bytes) (staticCount : ℕ) (params : List RouteParam)
    (r : RouteMatch) : Prop :=
  params.length + matched.countP namedParam ≤ CEASY_MAX_ROUTE_PARAMS ∧
    r = ⟨staticCount + matched.countP (!namedParam ·), params ++ bindings matched paths⟩

theorem counted_nil (paths : List Bytes) (staticCount : ℕ) {params : List RouteParam}
    (r : RouteMatch) (hroom : params.length ≤ CEASY_MAX_ROUTE_PARAMS) :
    Counted [] paths staticCount params r ↔ some ⟨staticCount, params⟩ = some r := by
  simp only [Counted, List.countP_nil, Nat.add_zero, hroom, true_and, bindings, List.zip_nil_left,
    List.filterMap_nil, List.append_nil, Option.some.injEq]
  exact eq_comm

theorem counted_static {p x : Bytes} (hp : namedParam p = false) (matched paths : List Bytes)
    (staticCount : ℕ) (params : List RouteParam) (r : RouteMatch) :
    Counted (p :: matched) (x :: paths) staticCount params r ↔
      Counted matched paths (staticCount + 1) params r := by
  simp only [Counted, bindings_cons, hp, List.countP_cons, Bool.not_false, if_true,
    Bool.false_eq_true, if_false, Nat.add_zero, Nat.add_assoc, Nat.add_comm 1]

theorem counted_named {p x : Bytes} (hp : namedParam p = true) (matched paths : List Bytes)
    (staticCount : ℕ) (params : List RouteParam) (r : RouteMatch) :
    Counted (p :: matched) (x :: paths) staticCount params r ↔
      Counted matched paths staticCount (params ++ [⟨stringvFrom p 1, x⟩]) r := by
  simp only [Counted, bindings_cons, hp, List.countP_cons, Bool.not_true, if_true,
    Bool.false_eq_true, if_false, Nat.add_zero, List.length_append, List.length_singleton,
    List.append_assoc, List.singleton_append, stringvFrom, List.drop_one, Nat.add_assoc,
    Nat.add_comm 1]

/-- A whole run of the loop, for any counters it starts from. -/
theorem walkSegments_some (patterns paths : List Bytes) (staticCount : ℕ)
    (params : List RouteParam) (r : RouteMatch)
    (hroom : params.length ≤ CEASY_MAX_ROUTE_PARAMS) :
    walkSegments patterns paths staticCount params = some r ↔
      NoTrailingSlash patterns ∧ NoTrailingSlash paths ∧
        ∃ matched, Paired patterns matched ∧ List.Forall₂ SegmentAccepts matched paths ∧
          Counted matched paths staticCount params r := by
  induction patterns generalizing paths staticCount params with
  | nil =>
    cases paths with
    | nil =>
      rw [walkSegments, ← counted_nil [] staticCount r hroom]
      simp [NoTrailingSlash, Paired]
    | cons x paths => simp [walkSegments, Paired]
  | cons p patterns ih =>
    by_cases hlone : p :: patterns = [[]]
    · rw [hlone]
      simp [walkSegments, NoTrailingSlash]
    by_cases hxlone : paths = [[]]
    · rw [hxlone, walkSegments_trailing]
      simp [NoTrailingSlash]
    cases paths with
    | nil =>
      rw [walkSegments_short hlone, noTrailingSlash_cons hlone]
      cases patterns with
      | nil =>
        rw [if_pos rfl, ← counted_nil [] staticCount r hroom]
        simp [NoTrailingSlash, Paired]
      | cons q patterns => simp [Paired]
    | cons x paths =>
      rw [walkSegments_cons hlone hxlone, noTrailingSlash_cons hlone, noTrailingSlash_cons hxlone,
        paired_cons]
      by_cases hc : p.head? = some (ch ':')
      · rw [if_pos hc]
        split_ifs with hbad
        · -- an empty side, or no room for one more parameter
          constructor
          · intro h
            cases h
          · rintro ⟨-, -, hseg, matched, -, -, hcount, -⟩
            have hnamed := namedParam_of_accepts hseg
            rw [SegmentAccepts, if_pos hc] at hseg
            rw [List.countP_cons, hnamed, hc] at hcount
            simp only [BEq.rfl, if_true] at hcount
            rcases hbad with hx | hp | hfull
            · exact absurd (List.length_eq_zero_iff.mp hx) hseg.1
            · have ht := List.length_pos_iff.mpr hseg.2
              rw [List.length_tail] at ht
              omega
            · omega
        · rw [not_or, not_or] at hbad
          obtain ⟨hx, hp, hfull⟩ := hbad
          have hseg : SegmentAccepts p x := by
            rw [SegmentAccepts, if_pos hc]
            refine ⟨fun h => hx (by rw [h]; rfl), fun h => hp ?_⟩
            cases p with
            | nil => cases hc
            | cons c name => rw [List.tail_cons] at h; rw [h]; rfl
          have hnamed : namedParam p = true := by rw [namedParam_of_accepts hseg, hc]; rfl
          rw [ih paths staticCount _ (by simp only [List.length_append, List.length_singleton]; omega)]
          simp only [counted_named hnamed, hseg, true_and]
      · have hnamed : namedParam p = false := by simp [namedParam, hc]
        rw [if_neg hc]
        simp only [stringvEqual, beq_iff_eq, SegmentAccepts, hc, if_false]
        split_ifs with heq
        · rw [ih paths (staticCount + 1) params hroom]
          simp only [counted_static hnamed]
          simp only [heq, true_and]
        · simp [heq]

theorem slashSegments_ne_nil (path : Bytes) : slashSegments path ≠ [] := List.splitOn_ne_nil _ _

theorem pathSegments_eq_nil (path : RoutePath) : pathSegments path = [] ↔ path.bytes = sv "/" := by
  unfold pathSegments
  split_ifs with h <;> simp [h, slashSegments_ne_nil]

theorem routerPathMatches_root (pattern path : RoutePath)
    (h : pathSegments pattern = [] ∨ pathSegments path = []) :
    routerPathMatches pattern.toCString path.toCString =
      if pathSegments pattern = [] ∧ pathSegments path = [] then some ⟨0, []⟩ else none := by
  simp only [pathSegments_eq_nil] at h ⊢
  simp only [routerPathMatches, routerValidPath, stringvFromCstr, stringvEqual,
    pattern.leadingSlash, path.leadingSlash, BEq.rfl, Bool.not_true, Bool.or_false,
    Bool.false_eq_true, if_false, Bool.or_eq_true, Bool.and_eq_true, beq_iff_eq, if_pos h]

theorem routerPathMatches_walk (pattern path : RoutePath) (hp : pathSegments pattern ≠ [])
    (hx : pathSegments path ≠ []) :
    routerPathMatches pattern.toCString path.toCString =
      walkSegments (pathSegments pattern) (pathSegments path) 0 [] := by
  have hp' := mt (pathSegments_eq_nil pattern).mpr hp
  have hx' := mt (pathSegments_eq_nil path).mpr hx
  have hw := routerMatchSegments_walk _ _ ⟨0, 0, 0, []⟩ (cursorAt_start pattern.leadingSlash)
    (cursorAt_start path.leadingSlash)
  simp only [routerPathMatches, routerValidPath, stringvFromCstr, stringvEqual,
    pattern.leadingSlash, path.leadingSlash, BEq.rfl, Bool.not_true, Bool.or_false,
    Bool.false_eq_true, if_false, Bool.or_eq_true, beq_iff_eq, hp', hx', or_self]
  rw [pathSegments, if_neg hp', pathSegments, if_neg hx', ← hw]
  cases routerMatchSegments pattern.bytes path.bytes ⟨0, 0, 0, []⟩ <;> rfl

/-- The path stops one segment short of a pattern whose other segments it matches. -/
def OneShort (patterns paths : List Bytes) : Prop :=
  paths ≠ [] ∧ NoTrailingSlash patterns ∧ NoTrailingSlash paths ∧
    ∃ matched last, patterns = matched ++ [last] ∧ List.Forall₂ SegmentAccepts matched paths ∧
      matched.countP namedParam ≤ CEASY_MAX_ROUTE_PARAMS

theorem accepts_of_matches {patterns paths : List Bytes}
    (h : List.Forall₂ SegmentMatches patterns paths) (hbare : [ch ':'] ∉ patterns) :
    List.Forall₂ SegmentAccepts patterns paths := by
  induction h with
  | nil => exact .nil
  | cons hseg _ ih =>
    rw [List.mem_cons, not_or] at hbare
    exact .cons ((segmentAccepts_iff _ _).mpr ⟨hseg, Ne.symm hbare.1⟩) (ih hbare.2)

theorem matches_of_accepts {patterns paths : List Bytes}
    (h : List.Forall₂ SegmentAccepts patterns paths) :
    List.Forall₂ SegmentMatches patterns paths ∧ [ch ':'] ∉ patterns := by
  induction h with
  | nil => exact ⟨.nil, List.not_mem_nil⟩
  | cons hseg _ ih =>
    obtain ⟨hm, hne⟩ := (segmentAccepts_iff _ _).mp hseg
    exact ⟨.cons hm ih.1, by rw [List.mem_cons, not_or]; exact ⟨Ne.symm hne, ih.2⟩⟩

theorem noTrailingSlash_of_accepts {patterns paths : List Bytes}
    (h : List.Forall₂ SegmentAccepts patterns paths) (hp : NoTrailingSlash patterns) :
    NoTrailingSlash paths := by
  induction h with
  | nil => exact hp
  | @cons p x patterns paths hseg hrest ih =>
    cases hrest with
    | nil =>
      simp only [NoTrailingSlash, List.getLast?_singleton, ne_eq, Option.some.injEq] at hp ⊢
      rintro rfl
      rw [SegmentAccepts] at hseg
      split_ifs at hseg with hc
      · exact hseg.1 rfl
      · exact hp hseg
    | cons hseg' hrest' =>
      rw [NoTrailingSlash, List.getLast?_cons_cons] at hp ⊢
      exact ih hp

theorem pathsMatch_nil {patterns paths : List Bytes} (h : patterns = [] ∨ paths = [])
    (hm : PathsMatch patterns paths) : patterns = [] ∧ paths = [] := by
  have hl := hm.1.length_eq
  rcases h with rfl | rfl
  · exact ⟨rfl, List.length_eq_zero_iff.mp hl.symm⟩
  · exact ⟨List.length_eq_zero_iff.mp hl, rfl⟩

theorem root_exact (pattern path : RoutePath)
    (h : pathSegments pattern = [] ∨ pathSegments path = []) : Exact pattern path := by
  intro r
  rw [routerPathMatches_root pattern path h]
  generalize pathSegments pattern = P at h ⊢
  generalize pathSegments path = X at h ⊢
  by_cases hboth : P = [] ∧ X = []
  · obtain ⟨rfl, rfl⟩ := hboth
    have hm : PathsMatch [] [] := ⟨.nil, Nat.zero_le _⟩
    rw [if_pos ⟨rfl, rfl⟩, Option.some.injEq]
    exact ⟨fun hr => ⟨hm, hr.symm⟩, fun hr => hr.2.symm⟩
  · rw [if_neg hboth]
    constructor
    · intro hn
      cases hn
    · exact fun hm => absurd (pathsMatch_nil h hm.1) hboth

theorem routerPathMatches_some (pattern path : RoutePath) (hp : pathSegments pattern ≠ [])
    (hx : pathSegments path ≠ []) (r : RouteMatch) :
    routerPathMatches pattern.toCString path.toCString = some r ↔
      NoTrailingSlash (pathSegments pattern) ∧ NoTrailingSlash (pathSegments path) ∧
        ∃ matched, Paired (pathSegments pattern) matched ∧
          List.Forall₂ SegmentAccepts matched (pathSegments path) ∧
          matched.countP namedParam ≤ CEASY_MAX_ROUTE_PARAMS ∧
          r = matchResult matched (pathSegments path) := by
  rw [routerPathMatches_walk pattern path hp hx, walkSegments_some _ _ 0 [] r (Nat.zero_le _)]
  simp only [Counted, List.length_nil, Nat.zero_add, List.nil_append, matchResult]

/-- The matcher returns what the segments say unless the path is one segment
    short, or the pair matches through a trailing slash or a bare colon. -/
theorem routerPathMatches_exact_iff (pattern path : RoutePath) :
    Exact pattern path ↔
      ¬ OneShort (pathSegments pattern) (pathSegments path) ∧
        ¬ (PathsMatch (pathSegments pattern) (pathSegments path) ∧
          (¬ NoTrailingSlash (pathSegments pattern) ∨ [ch ':'] ∈ pathSegments pattern)) := by
  by_cases hroot : pathSegments pattern = [] ∨ pathSegments path = []
  · refine ⟨fun _ => ⟨?_, ?_⟩, fun _ => root_exact pattern path hroot⟩
    · rintro ⟨hx, -, -, matched, last, hp, -⟩
      rcases hroot with h | h
      · simp [h] at hp
      · exact hx h
    · rintro ⟨hm, hbad⟩
      rw [(pathsMatch_nil hroot hm).1] at hbad
      simp [NoTrailingSlash] at hbad
  rw [not_or] at hroot
  obtain ⟨hp, hx⟩ := hroot
  have hsome := routerPathMatches_some pattern path hp hx
  unfold Exact
  constructor
  · refine fun hexact => ⟨?_, ?_⟩
    · rintro ⟨-, hclean, hclean', matched, last, hpair, hall, hcount⟩
      have hrun := (hsome _).mpr ⟨hclean, hclean', matched, .inr ⟨last, hpair⟩, hall, hcount, rfl⟩
      have hl := ((hexact _).mp hrun).1.1.length_eq
      rw [← hall.length_eq, hpair, List.length_append, List.length_singleton] at hl
      omega
    · rintro ⟨hm, hbad⟩
      have hrun := (hsome _).mp ((hexact _).mpr ⟨hm, rfl⟩)
      obtain ⟨hclean, -, matched, hpair, hall, -, -⟩ := hrun
      have hwhole : pathSegments pattern = matched := by
        rcases hpair with h | ⟨last, h⟩
        · exact h
        · have hl := hm.1.length_eq
          rw [← hall.length_eq, h, List.length_append, List.length_singleton] at hl
          omega
      rcases hbad with h | h
      · exact h hclean
      · rw [hwhole] at h
        exact (matches_of_accepts hall).2 h
  · rintro ⟨hshort, hgood⟩ r
    rw [hsome]
    constructor
    · rintro ⟨hclean, hclean', matched, hpair, hall, hcount, rfl⟩
      rcases hpair with h | ⟨last, h⟩
      · rw [h]
        exact ⟨⟨(matches_of_accepts hall).1, hcount⟩, rfl⟩
      · exact absurd ⟨hx, hclean, hclean', matched, last, h, hall, hcount⟩ hshort
    · rintro ⟨hm, rfl⟩
      rw [not_and, not_or, not_not] at hgood
      obtain ⟨hclean, hbare⟩ := hgood hm
      have hall := accepts_of_matches hm.1 hbare
      exact ⟨hclean, noTrailingSlash_of_accepts hall hclean, _, .inl rfl, hall, hm.2, rfl⟩

def postsShow : RoutePath := ⟨⟨sv "/posts/:id", by decide⟩, by decide⟩

def posts : RoutePath := ⟨⟨sv "/posts", by decide⟩, by decide⟩

/-- `/posts` is taken for `/posts/:id`, with `id` unbound. -/
theorem posts_matches_postsShow :
    routerPathMatches postsShow.toCString posts.toCString = some ⟨1, []⟩ ∧
      ¬ Exact postsShow posts := by
  have hrun : routerPathMatches postsShow.toCString posts.toCString = some ⟨1, []⟩ := by
    decide_cbv
  refine ⟨hrun, fun h => ?_⟩
  have hlen := ((h _).mp hrun).1.1.length_eq
  revert hlen
  decide

end Ceasy.RouterPathExact
