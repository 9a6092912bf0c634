import Ceasy.RequestParse
import Ceasy.RouterPathMatches

set_option autoImplicit false

/-!
# Routers

A router scans its routes with the best one so far and a copy of its parameters. The
arrays of parameters keep what an earlier copy has left behind the present count. What a
guard or a handler does is its own: it is a function on the context.
-/
namespace Ceasy.Routing
open StringView RequestParse RouterPathMatches

variable {σ : Type*}

def ROUTER_MAX_ROUTES : ℕ := 128

/-- The part of a context that routing uses, and the rest of it. -/
structure Context (σ : Type*) where
  path : Bytes
  routeParams : List RouteParam
  routeParamCount : ℕ
  rest : σ

abbrev RouteHandler (σ : Type*) := Context σ → Context σ

abbrev RouteGuard (σ : Type*) := Context σ → Bool × Context σ

structure RouterRoute (σ : Type*) where
  path : CString
  method : HttpMethod
  handler : RouteHandler σ
  guard : Option (RouteGuard σ)

structure Router (σ : Type*) where
  routes : List (RouterRoute σ)
  few : routes.length ≤ ROUTER_MAX_ROUTES

inductive RouterResult where
  | notFound | methodNotAllowed | dispatched
deriving DecidableEq, Repr

def routerInit : Router σ := ⟨[], Nat.zero_le _⟩

def routerAddGuarded (router : Router σ) (method : HttpMethod) (path : CString)
    (guard : Option (RouteGuard σ)) (handler : Option (RouteHandler σ)) : Bool × Router σ :=
  match handler with
  | none => (false, router)
  | some handler =>
    if _hrefused : method = .unknown ∨ routerValidPath path = false ∨
        ROUTER_MAX_ROUTES ≤ router.routes.length then (false, router)
    else
      (true,
        { routes := router.routes ++ [⟨path, method, handler, guard⟩]
          few := by
            rw [List.length_append, List.length_singleton]
            omega })

def routerAdd (router : Router σ) (method : HttpMethod) (path : CString)
    (handler : Option (RouteHandler σ)) : Bool × Router σ :=
  routerAddGuarded router method path none handler

/-- Copying an array of parameters leaves what lies behind the copy. -/
def copyParams (target source : List RouteParam) (count : ℕ) : List RouteParam :=
  source.take count ++ target.drop count

/-- The best route so far, with its own copy of the parameters. -/
structure Best (σ : Type*) where
  route : Option (RouterRoute σ) := none
  staticCount : ℕ := 0
  params : List RouteParam
  paramCount : ℕ := 0

def routerFindLoop (method : HttpMethod) (path : CString) : List (RouterRoute σ) → Best σ → Best σ
  | [], best => best
  | route :: routes, best =>
    if route.method ≠ method then routerFindLoop method path routes best
    else
      match routerPathMatches route.path path with
      | none => routerFindLoop method path routes best
      | some found =>
        if best.route.isNone || decide (best.staticCount < found.staticSegmentCount) then
          routerFindLoop method path routes
            { route := some route
              staticCount := found.staticSegmentCount
              params := copyParams best.params found.params found.params.length
              paramCount := found.params.length }
        else routerFindLoop method path routes best

/-- The route, the caller's array of parameters and their number; `stale` is what the array of
the best parameters holds at first. -/
def routerFind (router : Router σ) (method : HttpMethod) (path : CString)
    (params stale : List RouteParam) : Option (RouterRoute σ) × List RouteParam × ℕ :=
  let best := routerFindLoop method path router.routes { params := stale }
  match best.route with
  | none => (none, params, 0)
  | some route => (some route, copyParams params best.params best.paramCount, best.paramCount)

def routerPathExists (router : Router σ) (path : CString) : Bool :=
  router.routes.any fun route => (routerPathMatches route.path path).isSome

/-- `garbage` is what the uninitialised arrays of the two functions hold. -/
def routerDispatch (router : Router σ) (method path : CString) (context : Context σ)
    (garbage : List RouteParam × List RouteParam) : RouterResult × Context σ :=
  let context := { context with routeParamCount := 0, path := stringvFromCstr path }
  let (route, params, paramCount) :=
    routerFind router (httpMethodParseView (stringvFromCstr method)) path garbage.1 garbage.2
  match route with
  | some route =>
    let context :=
      { context with
        routeParams := copyParams context.routeParams params paramCount
        routeParamCount := paramCount }
    match route.guard with
    | none => (.dispatched, route.handler context)
    | some guard =>
      let (passed, context) := guard context
      (.dispatched, if passed then route.handler context else context)
  | none =>
    if routerPathExists router path then (.methodNotAllowed, context) else (.notFound, context)

def Context.params (context : Context σ) : List RouteParam :=
  context.routeParams.take context.routeParamCount

def contextParam (context : Context σ) (name : Bytes) : Bytes :=
  ((context.params.find? fun param => stringvEqual param.name name).map RouteParam.value).getD []

/-- The route at an index has the method and matches the path in this way. -/
structure Candidate (routes : List (RouterRoute σ)) (method : HttpMethod) (path : CString)
    (index : ℕ) (route : RouterRoute σ) (found : RouteMatch) : Prop where
  listed : routes[index]? = some route
  sameMethod : route.method = method
  pathMatches : routerPathMatches route.path path = some found

/-- The earliest of the candidates with the most static segments. -/
structure Selected (routes : List (RouterRoute σ)) (method : HttpMethod) (path : CString)
    (index : ℕ) (route : RouterRoute σ) (found : RouteMatch) : Prop where
  candidate : Candidate routes method path index route found
  most : ∀ other otherRoute otherFound,
    Candidate routes method path other otherRoute otherFound →
      otherFound.staticSegmentCount ≤ found.staticSegmentCount
  earliest : ∀ other otherRoute otherFound,
    Candidate routes method path other otherRoute otherFound →
      otherFound.staticSegmentCount = found.staticSegmentCount → index ≤ other

variable {method : HttpMethod} {path : CString} {routes : List (RouterRoute σ)}
  {route : RouterRoute σ} {found : RouteMatch} {best : Best σ} {index : ℕ}

theorem Candidate.index_lt (h : Candidate routes method path index route found) :
    index < routes.length :=
  (List.getElem?_eq_some_iff.mp h.listed).1

theorem Candidate.append (h : Candidate routes method path index route found)
    (more : List (RouterRoute σ)) : Candidate (routes ++ more) method path index route found :=
  ⟨by rw [List.getElem?_append_left h.index_lt]; exact h.listed, h.sameMethod, h.pathMatches⟩

theorem candidate_snoc (last : RouterRoute σ) :
    Candidate (routes ++ [last]) method path index route found ↔
      Candidate routes method path index route found ∨
        index = routes.length ∧ route = last ∧ last.method = method ∧
          routerPathMatches last.path path = some found := by
  constructor
  · intro h
    rcases Nat.lt_or_ge index routes.length with hlt | hge
    · have hroute := h.listed
      rw [List.getElem?_append_left hlt] at hroute
      exact .inl ⟨hroute, h.sameMethod, h.pathMatches⟩
    · have hlength := h.index_lt
      rw [List.length_append, List.length_singleton] at hlength
      have hindex : index = routes.length := by omega
      have hroute := h.listed
      rw [hindex, List.getElem?_concat_length] at hroute
      cases hroute
      exact .inr ⟨hindex, rfl, h.sameMethod, h.pathMatches⟩
  · rintro (h | ⟨rfl, rfl, hmethod, hfound⟩)
    · exact h.append [last]
    · exact ⟨List.getElem?_concat_length, hmethod, hfound⟩

structure Scanned (routes : List (RouterRoute σ)) (method : HttpMethod) (path : CString)
    (best : Best σ) : Prop where
  noBest : best.route = none → ∀ index route found, ¬ Candidate routes method path index route found
  best : ∀ route, best.route = some route → ∃ index found,
    Selected routes method path index route found ∧ best.staticCount = found.staticSegmentCount ∧
      best.paramCount = found.params.length ∧ best.params.take best.paramCount = found.params

theorem take_copyParams (target source : List RouteParam) :
    (copyParams target source source.length).take source.length = source := by
  rw [copyParams, List.take_length, List.take_left]

/-- A route that is no candidate leaves the best one as it is. -/
theorem Scanned.pass (h : Scanned routes method path best) {last : RouterRoute σ}
    (hlast : ∀ found, ¬ (last.method = method ∧ routerPathMatches last.path path = some found)) :
    Scanned (routes ++ [last]) method path best := by
  have hback : ∀ {index route found}, Candidate (routes ++ [last]) method path index route found →
      Candidate routes method path index route found := by
    intro index route found hcandidate
    rcases (candidate_snoc last).mp hcandidate with hold | ⟨-, -, hmethod, hfound⟩
    · exact hold
    · exact absurd ⟨hmethod, hfound⟩ (hlast found)
  refine ⟨fun hnone index route found hcandidate => h.noBest hnone index route found (hback hcandidate),
    fun route hroute => ?_⟩
  obtain ⟨index, found, hselected, hcounts⟩ := h.best route hroute
  exact ⟨index, found, ⟨hselected.candidate.append [last],
    fun other otherRoute otherFound hother => hselected.most _ _ _ (hback hother),
    fun other otherRoute otherFound hother => hselected.earliest _ _ _ (hback hother)⟩, hcounts⟩

/-- A candidate with no more static segments does not become the best one. -/
theorem Scanned.keep (h : Scanned routes method path best) {last : RouterRoute σ}
    (hfound : routerPathMatches last.path path = some found) (hsome : best.route.isSome)
    (hcount : found.staticSegmentCount ≤ best.staticCount) :
    Scanned (routes ++ [last]) method path best := by
  refine ⟨fun hnone => (by rw [hnone] at hsome; cases hsome), fun route hroute => ?_⟩
  obtain ⟨index, best', hselected, hstatic, hparams⟩ := h.best route hroute
  refine ⟨index, best', ⟨hselected.candidate.append [last], ?_, ?_⟩, hstatic, hparams⟩
  · intro other otherRoute otherFound hother
    rcases (candidate_snoc last).mp hother with hold | ⟨-, -, -, hlast⟩
    · exact hselected.most _ _ _ hold
    · cases hfound.symm.trans hlast
      omega
  · intro other otherRoute otherFound hother hsame
    rcases (candidate_snoc last).mp hother with hold | ⟨rfl, -, -, -⟩
    · exact hselected.earliest _ _ _ hold hsame
    · exact Nat.le_of_lt hselected.candidate.index_lt

/-- A candidate that is better than the best one takes its place. -/
theorem Scanned.replace (h : Scanned routes method path best) {last : RouterRoute σ}
    (hmethod : last.method = method) (hfound : routerPathMatches last.path path = some found)
    (hcount : best.route = none ∨ best.staticCount < found.staticSegmentCount) :
    Scanned (routes ++ [last]) method path
      { route := some last
        staticCount := found.staticSegmentCount
        params := copyParams best.params found.params found.params.length
        paramCount := found.params.length } := by
  refine ⟨nofun, fun route hroute => ?_⟩
  cases hroute
  have hless : ∀ other otherRoute otherFound,
      Candidate routes method path other otherRoute otherFound →
        otherFound.staticSegmentCount < found.staticSegmentCount := by
    intro other otherRoute otherFound hother
    cases hroute : best.route with
    | none => exact absurd hother (h.noBest hroute _ _ _)
    | some route =>
      obtain ⟨index, best', hselected, hstatic, -⟩ := h.best route hroute
      have hmost := hselected.most _ _ _ hother
      rcases hcount with hnone | hlt
      · rw [hnone] at hroute
        cases hroute
      · omega
  refine ⟨routes.length, found, ⟨(candidate_snoc last).mpr (.inr ⟨rfl, rfl, hmethod, hfound⟩), ?_, ?_⟩,
    rfl, rfl, take_copyParams _ _⟩
  · intro other otherRoute otherFound hother
    rcases (candidate_snoc last).mp hother with hold | ⟨-, -, -, hlast⟩
    · exact Nat.le_of_lt (hless _ _ _ hold)
    · cases hfound.symm.trans hlast
      exact Nat.le_refl _
  · intro other otherRoute otherFound hother hsame
    rcases (candidate_snoc last).mp hother with hold | ⟨rfl, -, -, -⟩
    · exact absurd hsame (Nat.ne_of_lt (hless _ _ _ hold))
    · exact Nat.le_refl _

theorem routerFindLoop_scanned {scanned : List (RouterRoute σ)}
    (h : Scanned scanned method path best) :
    Scanned (scanned ++ routes) method path (routerFindLoop method path routes best) := by
  induction routes generalizing scanned best with
  | nil =>
    rw [List.append_nil]
    exact h
  | cons route routes ih =>
    rw [List.append_cons]
    unfold routerFindLoop
    split_ifs with hmethod
    · exact ih (h.pass fun found hcandidate => hmethod hcandidate.1)
    · rw [not_not] at hmethod
      split
      · next hnone =>
        exact ih (h.pass fun found hcandidate => by rw [hnone] at hcandidate; cases hcandidate.2)
      · next found hfound =>
        split_ifs with hbetter
        · rw [Bool.or_eq_true, Option.isNone_iff_eq_none, decide_eq_true_eq] at hbetter
          exact ih (h.replace hmethod hfound hbetter)
        · rw [Bool.or_eq_true, not_or, decide_eq_true_eq, Nat.not_lt, Option.isNone_iff_eq_none,
            ← ne_eq, Option.ne_none_iff_isSome] at hbetter
          exact ih (h.keep hfound hbetter.1 hbetter.2)

theorem scanned_nil (stale : List RouteParam) :
    Scanned ([] : List (RouterRoute σ)) method path { params := stale } :=
  ⟨fun _ index _ _ h => absurd h.index_lt (Nat.not_lt_zero index), nofun⟩

/-- The route that is found, and its parameters in the caller's array. -/
theorem routerFind_selected (router : Router σ) (method : HttpMethod) (path : CString)
    (params stale : List RouteParam) :
    (∃ index route found, Selected router.routes method path index route found ∧
      (routerFind router method path params stale).1 = some route ∧
      (routerFind router method path params stale).2.2 = found.params.length ∧
      (routerFind router method path params stale).2.1.take found.params.length = found.params) ∨
    (∀ index route found, ¬ Candidate router.routes method path index route found) ∧
      (routerFind router method path params stale).1 = none := by
  have hscanned := @routerFindLoop_scanned _ method path router.routes _ _
    (@scanned_nil σ method path stale)
  rw [List.nil_append] at hscanned
  unfold routerFind
  dsimp only
  cases hroute : (routerFindLoop method path router.routes { params := stale }).route with
  | none => exact .inr ⟨hscanned.noBest hroute, rfl⟩
  | some route =>
    obtain ⟨index, found, hselected, -, hcount, hparams⟩ := hscanned.best route hroute
    refine .inl ⟨index, route, found, hselected, rfl, hcount, ?_⟩
    dsimp only
    rw [hcount] at hparams ⊢
    have hlength := congrArg List.length hparams
    rw [copyParams, hparams, List.take_left]

theorem routerPathExists_iff (router : Router σ) (path : CString) :
    routerPathExists router path = true ↔
      ∃ route ∈ router.routes, ∃ found, routerPathMatches route.path path = some found := by
  rw [routerPathExists, List.any_eq_true]
  simp only [Option.isSome_iff_exists]

/-- The context that a route's guard and handler are given: it shows the parameters of this match
and no others. -/
structure Bound (context bound : Context σ) (path : CString) (found : RouteMatch) : Prop where
  path : bound.path = stringvFromCstr path
  rest : bound.rest = context.rest
  params : bound.params = found.params
  param : ∀ name, contextParam bound name =
    ((found.params.find? fun param => stringvEqual param.name name).map RouteParam.value).getD []

/-- What is left of a context by the guard and, where it lets the request pass, the handler. -/
def served (route : RouterRoute σ) (context : Context σ) : Context σ :=
  match route.guard with
  | none => route.handler context
  | some guard => if (guard context).1 then route.handler (guard context).2 else (guard context).2

/-- Routing a request as the table of routes says: the three cases exclude one another. -/
inductive Dispatches (router : Router σ) (method : HttpMethod) (path : CString)
    (context : Context σ) : RouterResult × Context σ → Prop where
  | dispatched {index : ℕ} {route : RouterRoute σ} {found : RouteMatch} {bound : Context σ}
    (hselected : Selected router.routes method path index route found)
    (hbound : Bound context bound path found) :
    Dispatches router method path context (.dispatched, served route bound)
  | methodNotAllowed {bound : Context σ}
    (hnone : ∀ route ∈ router.routes, route.method = method → routerPathMatches route.path path = none)
    (hsome : ∃ route ∈ router.routes, (routerPathMatches route.path path).isSome)
    (hbound : Bound context bound path ⟨0, []⟩) :
    Dispatches router method path context (.methodNotAllowed, bound)
  | notFound {bound : Context σ}
    (hnone : ∀ route ∈ router.routes, routerPathMatches route.path path = none)
    (hbound : Bound context bound path ⟨0, []⟩) :
    Dispatches router method path context (.notFound, bound)

/-- No route of the method, or none at all, matches the path. -/
theorem not_candidate_iff (routes : List (RouterRoute σ)) :
    (∀ index route found, ¬ Candidate routes method path index route found) ↔
      ∀ route ∈ routes, route.method = method → routerPathMatches route.path path = none := by
  constructor
  · intro h route hmem hmethod
    obtain ⟨index, hindex⟩ := List.mem_iff_getElem?.mp hmem
    cases hfound : routerPathMatches route.path path with
    | none => rfl
    | some found => exact absurd ⟨hindex, hmethod, hfound⟩ (h index route found)
  · intro h index route found hcandidate
    have hnone := h route (List.mem_of_getElem? hcandidate.listed) hcandidate.sameMethod
    rw [hcandidate.pathMatches] at hnone
    cases hnone

theorem bound_unmatched (context : Context σ) (path : CString) :
    Bound context { context with routeParamCount := 0, path := stringvFromCstr path } path ⟨0, []⟩ :=
  ⟨rfl, rfl, rfl, fun _ => rfl⟩

theorem routerDispatch_dispatches (router : Router σ) (method path : CString) (context : Context σ)
    (garbage : List RouteParam × List RouteParam) :
    Dispatches router (httpMethodParseView (stringvFromCstr method)) path context
      (routerDispatch router method path context garbage) := by
  unfold routerDispatch
  dsimp only
  rcases routerFind_selected router (httpMethodParseView (stringvFromCstr method)) path garbage.1
    garbage.2 with ⟨index, route, found, hselected, hroute, hcount, hparams⟩ | ⟨hnone, hroute⟩
  · rw [hroute, hcount]
    dsimp only
    have hshown : (copyParams context.routeParams
        (routerFind router (httpMethodParseView (stringvFromCstr method)) path garbage.1 garbage.2).2.1
        found.params.length).take found.params.length = found.params := by
      rw [copyParams, hparams, List.take_left]
    have hbound : Bound context
        { context with
          path := stringvFromCstr path
          routeParams := copyParams context.routeParams (routerFind router
            (httpMethodParseView (stringvFromCstr method)) path garbage.1 garbage.2).2.1 found.params.length
          routeParamCount := found.params.length } path found := by
      refine ⟨rfl, rfl, hshown, fun name => ?_⟩
      rw [contextParam, Context.params, hshown]
    have hserved := Dispatches.dispatched hselected hbound
    unfold served at hserved
    cases hguard : route.guard with
    | none =>
      rw [hguard] at hserved
      exact hserved
    | some guard =>
      rw [hguard] at hserved
      exact hserved
  · rw [hroute]
    dsimp only
    rw [not_candidate_iff] at hnone
    split_ifs with hexists
    · obtain ⟨route, hmem, found, hfound⟩ := (routerPathExists_iff router path).mp hexists
      exact .methodNotAllowed hnone ⟨route, hmem, by rw [hfound]; rfl⟩ (bound_unmatched context path)
    · refine .notFound (fun route hmem => ?_) (bound_unmatched context path)
      cases hfound : routerPathMatches route.path path with
      | none => rfl
      | some found => exact absurd ((routerPathExists_iff router path).mpr ⟨route, hmem, found, hfound⟩) hexists

/-- For every table of routes, request and earlier state of the context: the earliest of the routes
with the most static segments is run, with its own parameters, and the two refusals are given
exactly where no route of the method matches. -/
theorem routerDispatch_selects (router : Router σ) (method path : CString) (context : Context σ)
    (garbage : List RouteParam × List RouteParam) :
    Dispatches router (httpMethodParseView (stringvFromCstr method)) path context
        (routerDispatch router method path context garbage) ∧
      ((routerDispatch router method path context garbage).1 = .methodNotAllowed ↔
        (∀ route ∈ router.routes, route.method = httpMethodParseView (stringvFromCstr method) →
          routerPathMatches route.path path = none) ∧
        ∃ route ∈ router.routes, (routerPathMatches route.path path).isSome) ∧
      ((routerDispatch router method path context garbage).1 = .notFound ↔
        ∀ route ∈ router.routes, routerPathMatches route.path path = none) := by
  have hdispatches := routerDispatch_dispatches router method path context garbage
  refine ⟨hdispatches, ?_⟩
  generalize routerDispatch router method path context garbage = result at hdispatches
  cases hdispatches with
  | @dispatched index route found bound hselected hbound =>
    have hmem := List.mem_of_getElem? hselected.candidate.listed
    have hfound := hselected.candidate.pathMatches
    refine ⟨⟨nofun, fun h => ?_⟩, ⟨nofun, fun h => ?_⟩⟩
    · rw [h.1 route hmem hselected.candidate.sameMethod] at hfound
      cases hfound
    · rw [h route hmem] at hfound
      cases hfound
  | methodNotAllowed hnone hsome hbound =>
    refine ⟨⟨fun _ => ⟨hnone, hsome⟩, fun _ => rfl⟩, ⟨nofun, fun h => ?_⟩⟩
    obtain ⟨route, hmem, hfound⟩ := hsome
    rw [h route hmem] at hfound
    cases hfound
  | notFound hnone hbound =>
    refine ⟨⟨nofun, fun h => ?_⟩, ⟨fun _ => hnone, fun _ => rfl⟩⟩
    obtain ⟨-, route, hmem, hfound⟩ := h
    rw [hnone route hmem] at hfound
    cases hfound

end Ceasy.Routing
