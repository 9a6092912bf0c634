import Ceasy.SessionOwners

set_option autoImplicit false

/-!
# Being signed in

The user that `auth_user_id` answers is one that the request has logged in itself,
or the one that the token it was sent stands for.
-/
namespace Ceasy.Sessions
open StringView Collection Dialogue

variable {environment : Environment} {request : RequestParse.Request} {context : Context}
  {history : List SessionEvent} {performed : List SessionOperation}

/-- The rows that a request has found can all be loaded. -/
def FoundDecodes (history : List SessionEvent) : Prop :=
  ∀ digest row, (⟨.select digest, some (some row)⟩ : SessionEvent) ∈ history → Decodable row.data

/-- A request has found the user in the row of the token that it was sent. -/
def FoundByToken (environment : Environment) (request : RequestParse.Request)
    (history : List SessionEvent) (userId : Int64) : Prop :=
  ∃ digest, sessionDigest environment (presentedToken environment request) = some digest ∧
    FoundUser history digest userId

theorem FoundDecodes.earlier {events : List SessionEvent} (h : FoundDecodes (history ++ events)) :
    FoundDecodes history :=
  fun digest row hmem => h digest row (List.mem_append_left _ hmem)

theorem FoundByToken.later {userId : Int64} (h : FoundByToken environment request history userId)
    (events : List SessionEvent) : FoundByToken environment request (history ++ events) userId := by
  obtain ⟨digest, hdigest, hfound⟩ := h
  exact ⟨digest, hdigest, hfound.later events⟩

/-- The user of the session is known from its row or from a login. -/
structure SignsIn (environment : Environment) (request : RequestParse.Request)
    (performed : List SessionOperation) (history : List SessionEvent) (context : Context) : Prop where
  sent : context.request = request
  unloaded : context.session.loaded = false → context.session = {}
  known : ∀ userId, context.session.values.user = some userId →
    .login userId ∈ performed ∨ FoundByToken environment request history userId

theorem SignsIn.later (h : SignsIn environment request performed history context)
    (events : List SessionEvent) (more : List SessionOperation) :
    SignsIn environment request (performed ++ more) (history ++ events) context := by
  refine ⟨h.sent, h.unloaded, ?_⟩
  intro userId huser
  rcases h.known userId huser with hlogin | hfound
  · exact .inl (List.mem_append_left _ hlogin)
  · exact .inr (hfound.later events)

theorem SignsIn.waiting (h : SignsIn environment request performed history context)
    (events : List SessionEvent) : SignsIn environment request performed (history ++ events) context := by
  have hlater := h.later events []
  rw [List.append_nil] at hlater
  exact hlater

theorem SignsIn.performing {operation : SessionOperation}
    (h : SignsIn environment request performed history context) :
    SignsIn environment request (performed ++ [operation]) history context := by
  have hlater := h.later [] [operation]
  rw [List.append_nil] at hlater
  exact hlater

theorem empty_user : SessionValues.empty.user = none := by
  apply Option.eq_none_iff_forall_ne_some.mpr
  intro userId huser
  have hnothing := (SessionValues.user_eq_some.mp huser).1
  rw [SessionValues.contents_empty] at hnothing
  cases hnothing

theorem signsIn_initial : SignsIn environment request performed history { request := request } := by
  refine ⟨rfl, fun _ => rfl, ?_⟩
  intro userId huser
  rw [show SessionValues.user ({} : Session).values = none from empty_user] at huser
  cases huser

/-- A request that finds a row it can load knows the user from there. -/
theorem LoadResult.signsIn {events : List SessionEvent} {result : Bool × Context}
    (hload : LoadResult environment context (contextCookie context environment.sessionCookieName)
      events result)
    (h : SignsIn environment request performed history context) (hempty : context.session = {})
    (hdecodes : FoundDecodes (history ++ events)) :
    SignsIn environment request performed (history ++ events) result.2 := by
  have hsent : contextCookie context environment.sessionCookieName =
      presentedToken environment request := by
    rw [← h.sent]
    rfl
  have hvaluesEmpty : context.session.values = .empty := by rw [hempty]
  have hunchanged : SignsIn environment request performed (history ++ events) (loadedContext context) := by
    refine ⟨h.sent, fun hnot => Bool.noConfusion hnot, ?_⟩
    intro userId huser
    rw [show (loadedContext context).session.values = .empty from hvaluesEmpty, empty_user] at huser
    cases huser
  cases hload with
  | noCookie => exact hunchanged
  | failed => exact hunchanged
  | absent => exact hunchanged
  | expired => exact hunchanged
  | @undecoded digest row now deleted values hdigest hvalues =>
    obtain ⟨decoded, hdecoded⟩ := hdecodes digest row (by simp)
    rw [hvaluesEmpty, hdecoded] at hvalues
    cases hvalues
  | @found digest row now values hdigest _ hvalues =>
    refine ⟨h.sent, fun hnot => Bool.noConfusion hnot, ?_⟩
    intro userId huser
    refine .inr ⟨digest, hsent ▸ hdigest, row, by simp, ?_⟩
    rw [hvaluesEmpty] at hvalues
    unfold dataUser
    rw [hvalues]
    exact huser

theorem EnsureResult.signsIn {events : List SessionEvent} {result : Bool × Context}
    (hensure : EnsureResult environment context events result)
    (h : SignsIn environment request performed history context)
    (hdecodes : FoundDecodes (history ++ events)) :
    SignsIn environment request performed (history ++ events) result.2 := by
  cases hensure with
  | already =>
    rw [List.append_nil]
    exact h
  | load hloaded hload => exact hload.signsIn h (h.unloaded hloaded) hdecodes

theorem SessionUpdate.user {session next : Session} {operation : SessionOperation}
    {answer : SessionAnswer} (hupdate : SessionUpdate session operation answer next)
    (hoperation : LeavesUser operation) {userId : Int64} (huser : next.values.user = some userId) :
    operation = .login userId ∨ session.values.user = some userId := by
  cases hupdate with
  | set hentry hcontents =>
    refine .inr (SessionValues.user_update hcontents ?_ huser)
    intro hkey
    exact storedEntry_user hoperation (hkey ▸ hentry)
  | refused hcontents => exact .inr ((SessionValues.user_congr hcontents) ▸ huser)
  | read => exact .inr huser
  | delete hcontents => exact .inr (SessionValues.user_update hcontents (by simp) huser)
  | clear =>
    have hnothing := (SessionValues.user_eq_some.mp huser).1
    rw [SessionValues.clear_contents] at hnothing
    cases hnothing
  | regenerate => exact .inr huser
  | @login loggedIn values hcontents =>
    have hkey := (SessionValues.user_eq_some.mp huser).1
    rw [show values.contents AUTH_USER_KEY = some (.int64 loggedIn) by
      rw [hcontents, Function.update_self]] at hkey
    cases hkey
    exact .inl rfl
  | loginRefused hcontents => exact .inr ((SessionValues.user_congr hcontents) ▸ huser)

theorem MemoryResult.signsIn {operation : SessionOperation} {events : List SessionEvent}
    {result : SessionAnswer × Context} (hresult : MemoryResult environment context operation events result)
    (hoperation : LeavesUser operation) (h : SignsIn environment request performed history context)
    (hdecodes : FoundDecodes (history ++ events)) :
    SignsIn environment request (performed ++ [operation]) (history ++ events) result.2 := by
  cases hresult with
  | @update _ loaded _ session hensure hupdate =>
    have hloaded := hensure.signsIn h hdecodes
    refine ⟨hloaded.sent, ?_, ?_⟩
    · intro hnot
      have hstill : session.loaded = true := by
        cases hupdate <;> exact hensure.loaded
      exact Bool.noConfusion (hstill.symm.trans hnot)
    · intro userId huser
      rcases hupdate.user hoperation huser with hlogin | hbefore
      · exact .inl (List.mem_append_right _ (by simp [hlogin]))
      · exact hloaded.performing.known userId hbefore
  | notLoaded hensure => exact (hensure.signsIn h hdecodes).performing
  | noUser => exact h.later _ _

theorem signsIn_ended (hsent : context.request = request) (hloaded : context.session.loaded = true) :
    SignsIn environment request performed history (sessionEnd environment context) := by
  obtain ⟨hrequest, hsession⟩ := sessionEnd_session environment context
  refine ⟨hrequest.trans hsent, ?_, ?_⟩
  · intro hnot
    rw [hsession] at hnot
    exact Bool.noConfusion (hloaded.symm.trans hnot)
  · intro userId huser
    rw [hsession] at huser
    have hnothing := (SessionValues.user_eq_some.mp huser).1
    rw [show (endedSession context.session).values = context.session.values.clear from rfl,
      SessionValues.clear_contents] at hnothing
    cases hnothing

theorem DestroyResult.signsIn {events : List SessionEvent} {result : Bool × Context}
    (hresult : DestroyResult environment context events result)
    (h : SignsIn environment request performed history context)
    (hdecodes : FoundDecodes (history ++ events)) :
    SignsIn environment request performed (history ++ events) result.2 := by
  cases hresult with
  | notLoaded hensure => exact hensure.signsIn h hdecodes
  | noToken hensure => exact signsIn_ended (hensure.signsIn h hdecodes).sent hensure.loaded
  | refused hensure =>
    rw [← List.append_assoc] at hdecodes ⊢
    exact (hensure.signsIn h hdecodes.earlier).waiting _
  | removed hensure =>
    rw [← List.append_assoc] at hdecodes ⊢
    exact signsIn_ended (hensure.signsIn h hdecodes.earlier).sent hensure.loaded

theorem CommitResult.values {events : List SessionEvent} {result : Bool × Context}
    (hresult : CommitResult environment context events result) :
    result.2.request = context.request ∧ result.2.session.values = context.session.values ∧
      result.2.session.loaded = context.session.loaded := by
  cases hresult with
  | idle => exact ⟨rfl, rfl, rfl⟩
  | notRemoved => exact ⟨rfl, rfl, rfl⟩
  | notIssued _ hgeneration =>
    cases hgeneration with
    | failed => exact ⟨rfl, rfl, rfl⟩
  | ended _ _ _ hgeneration hstore =>
    cases hgeneration with
    | kept => cases hstore <;> exact ⟨rfl, rfl, rfl⟩
    | issued => cases hstore <;> exact ⟨rfl, rfl, rfl⟩

theorem CommitResult.signsIn {events : List SessionEvent} {result : Bool × Context}
    (hresult : CommitResult environment context events result)
    (h : SignsIn environment request performed history context) :
    SignsIn environment request performed (history ++ events) result.2 := by
  obtain ⟨hrequest, hvalues, hloaded⟩ := hresult.values
  refine ⟨hrequest.trans h.sent, ?_, ?_⟩
  · intro hnot
    have hempty : context.session = {} := h.unloaded (hloaded.symm.trans hnot)
    cases hresult with
    | idle => exact hempty
    | notRemoved => exact hempty
    | notIssued _ hgeneration =>
      cases hgeneration with
      | failed => exact hempty
    | ended hdirty =>
      rw [hempty] at hdirty
      cases hdirty
  · intro userId huser
    rw [hvalues] at huser
    exact (h.known userId huser).imp_right fun hfound => hfound.later events

theorem PerformResult.signsIn {operation : SessionOperation} {events : List SessionEvent}
    {result : SessionAnswer × Context}
    (hresult : PerformResult environment context operation events result)
    (hoperation : LeavesUser operation) (h : SignsIn environment request performed history context)
    (hdecodes : FoundDecodes (history ++ events)) :
    SignsIn environment request (performed ++ [operation]) (history ++ events) result.2 := by
  cases hresult with
  | memory hmemory => exact hmemory.signsIn hoperation h hdecodes
  | destroy _ hdestroy => exact (hdestroy.signsIn h hdecodes).performing
  | commit _ hcommit => exact (hcommit.signsIn h).performing

/-- What `auth_user_id` answers. -/
theorem sessionPerform_userId {safe : List SessionEvent → SessionCall → Prop} (hsafe : StoresNothing safe)
    (history : List SessionEvent) :
    Keeps safe (After history fun events result =>
      ∃ ok loaded, EnsureResult environment context events (ok, loaded) ∧ result.2 = loaded ∧
        (result.1 = .int64 none ∨ result.1 = .int64 loaded.session.values.user)) history
      (sessionPerform environment context .userId) := by
  rw [sessionPerform, authUserId, answered_bind, answered, sessionGetInt64, sessionWith, bind_assoc]
  apply (sessionEnsure_keeps hsafe history).after_bind
  intro events loaded hensure
  obtain ⟨ok, loaded⟩ := loaded
  apply keeps_after_done
  rw [List.append_nil]
  cases ok with
  | true => exact ⟨true, loaded, hensure, rfl, .inr rfl⟩
  | false => exact ⟨false, loaded, hensure, rfl, .inl rfl⟩

/-- Each answer of `auth_user_id` is a user that the request has logged in before or that
    it has found by its token. -/
def AnswersKnown (environment : Environment) (request : RequestParse.Request)
    (performed operations : List SessionOperation) (history : List SessionEvent)
    (answers : List SessionAnswer) : Prop :=
  ∀ before after userId, operations = before ++ .userId :: after →
    answers[before.length]? = some (.int64 (some userId)) →
      .login userId ∈ performed ++ before ∨ FoundByToken environment request history userId

/-- One operation: its own answer, and what the session knows after it. -/
theorem sessionPerform_signsIn {operation : SessionOperation} (hoperation : LeavesUser operation)
    (h : FoundDecodes history → SignsIn environment request performed history context) :
    Keeps (fun _ _ => True) (After history fun events result => FoundDecodes (history ++ events) →
      SignsIn environment request (performed ++ [operation]) (history ++ events) result.2 ∧
        (operation = .userId → ∀ userId, result.1 = .int64 (some userId) →
          .login userId ∈ performed ∨ FoundByToken environment request (history ++ events) userId))
      history (sessionPerform environment context operation) := by
  have hsafe : StoresNothing fun _ _ => True := fun _ _ _ => trivial
  by_cases huserId : operation = .userId
  · rw [huserId]
    apply (sessionPerform_userId hsafe history).after_mono
    intro events result hresult hdecodes
    obtain ⟨ok, loaded, hensure, hcontext, hanswer⟩ := hresult
    have hloaded := hensure.signsIn (h hdecodes.earlier) hdecodes
    refine ⟨hcontext ▸ hloaded.performing, ?_⟩
    intro _ userId hfound
    rw [hfound] at hanswer
    rcases hanswer with hnone | huser
    · cases hnone
    · exact hloaded.known userId (SessionAnswer.int64.inj huser).symm
  · apply (sessionPerform_keeps hsafe history operation fun _ _ _ _ _ _ _ _ _ _ => trivial).after_mono
    intro events result hresult hdecodes
    exact ⟨hresult.signsIn hoperation (h hdecodes.earlier) hdecodes, fun heq => absurd heq huserId⟩

theorem sessionPerformAll_signsIn {operations : List SessionOperation}
    (hoperations : ∀ operation ∈ operations, LeavesUser operation)
    (h : FoundDecodes history → SignsIn environment request performed history context) :
    Keeps (fun _ _ => True) (After history fun events result => FoundDecodes (history ++ events) →
      AnswersKnown environment request performed operations (history ++ events) result.1) history
      (sessionPerformAll environment operations context) := by
  induction operations generalizing performed history context with
  | nil =>
    apply keeps_after_done
    intro _ before after userId hempty
    simp at hempty
  | cons operation operations ih =>
    apply (sessionPerform_signsIn (hoperations operation List.mem_cons_self) h).after_bind
    intro events first hfirst
    have hrest := fun other hmem => hoperations other (List.mem_cons_of_mem _ hmem)
    apply (ih hrest fun hdecodes => (hfirst hdecodes).1).after_bind
    intro more rest hknown
    apply keeps_after_done
    intro hdecodes before after userId hsplit hanswer
    rw [List.append_nil, ← List.append_assoc] at hdecodes ⊢
    cases before with
    | nil =>
      obtain ⟨rfl, rfl⟩ := List.cons.inj hsplit
      rw [List.append_nil]
      exact ((hfirst hdecodes.earlier).2 rfl userId (Option.some.inj hanswer)).imp_right
        fun hfound => hfound.later more
    | cons second before =>
      obtain ⟨rfl, hothers⟩ := List.cons.inj hsplit
      rw [List.append_cons]
      exact hknown hdecodes before after userId hothers hanswer

section Runs

variable {ι : Type*} [DecidableEq ι] {requests : ι → RequestParse.Request}

def RowsDecode (world : SessionWorld) : Prop :=
  ∀ digest row, world.table digest = some row → Decodable row.data

/-- The rows of the table, and those that were found in it. -/
structure Decoding (trace : List (ι × SessionEvent)) (world : SessionWorld) : Prop where
  rows : RowsDecode world
  found : ∀ i, FoundDecodes (own i trace)

theorem decoding_step {trace : List (ι × SessionEvent)} {world next : SessionWorld} {i : ι}
    {c : SessionCall} {answer : SessionReply c} (h : Decoding trace world)
    (hown : StoresUser environment (own i trace) c) (hanswer : SessionAnswers world c answer next) :
    Decoding (trace ++ [(i, ⟨c, answer⟩)]) next := by
  constructor
  · intro digest row hrow
    cases hanswer with
    | delete deleted =>
      by_cases hsame : digest = deleted
      · dsimp only at hrow
        rw [hsame, tableDelete, Function.update_self] at hrow
        cases hrow
      · dsimp only at hrow
        rw [tableDelete, Function.update_of_ne hsame] at hrow
        exact h.rows digest row hrow
    | replace stored data now expiresAt =>
      by_cases hsame : digest = stored
      · dsimp only at hrow
        rw [hsame, tableReplace, Function.update_self] at hrow
        cases hrow
        exact (hown stored data now expiresAt rfl).1
      · dsimp only at hrow
        rw [tableReplace, Function.update_of_ne hsame] at hrow
        exact h.rows digest row hrow
    | _ => exact h.rows digest row hrow
  · intro j digest row hmem
    rw [mem_own] at hmem
    rcases List.mem_append.mp hmem with hbefore | hnow
    · exact h.found j digest row (mem_own.mpr hbefore)
    · obtain ⟨rfl, hfound⟩ : c = .select digest ∧ HEq answer (some (some row)) := by
        cases List.mem_singleton.mp hnow
        exact ⟨rfl, HEq.rfl⟩
      cases hanswer with
      | select => exact h.rows digest row (Option.some.inj (eq_of_heq hfound))
      | selectFailed => cases eq_of_heq hfound

theorem decoding_run {operations : ι → List SessionOperation}
    (hoperations : ∀ i, ∀ operation ∈ operations i, LeavesUser operation)
    {start pool : SessionPool ι} {trace : List (ι × SessionEvent)}
    (hfresh : Fresh environment requests operations start) (hrows : RowsDecode start.world)
    (hrun : Run AnyAnswer start trace pool) : Decoding trace pool.world := by
  induction hrun with
  | refl => exact ⟨hrows, fun _ _ _ hmem => absurd hmem (List.not_mem_nil)⟩
  | @step pool trace i c next answer world hbefore hcall hanswer ih =>
    have hkeeps := hbefore.keeps (i := i) (by
      rw [hfresh i]
      exact sessionPerformAll_user environment (requests i) (hoperations i))
    rw [hcall] at hkeeps
    exact decoding_step ih hkeeps.1 hanswer

/-- In every run, a request that is told it is signed in as a user has logged that user in
    itself, or its token stands for that user. -/
theorem signed_in_known {operations : ι → List SessionOperation}
    (hoperations : ∀ i, ∀ operation ∈ operations i, LeavesUser operation)
    {start pool : SessionPool ι} {trace : List (ι × SessionEvent)}
    (hfresh : Fresh environment requests operations start) (hrows : RowsDecode start.world)
    (hrun : Run AnyAnswer start trace pool) {i : ι} {answers : List SessionAnswer} {final : Context}
    (hdone : pool.parties i = .done (answers, final)) {before after : List SessionOperation}
    (hoperation : operations i = before ++ .userId :: after) {userId : Int64}
    (hanswer : answers[before.length]? = some (.int64 (some userId))) :
    .login userId ∈ before ∨ ∃ digest, sessionDigest environment
      (presentedToken environment (requests i)) = some digest ∧
        StandsFor start.world trace digest userId := by
  have hinitial : FoundDecodes [] →
      SignsIn environment (requests i) [] [] { request := requests i } := fun _ => signsIn_initial
  have hkeeps := hrun.keeps (i := i) (by
    rw [hfresh i]
    exact sessionPerformAll_signsIn (hoperations i) hinitial)
  rw [hdone] at hkeeps
  obtain ⟨events, hevents, hknown⟩ := hkeeps
  rw [← hevents] at hknown
  have hdecodes := (decoding_run hoperations hfresh hrows hrun).found i
  rcases hknown hdecodes before after userId hoperation hanswer with hlogin | ⟨digest, hdigest, hfound⟩
  · exact .inl hlogin
  · exact .inr ⟨digest, hdigest, .found hfound⟩

theorem member_rows : RowsDecode memberStart.world := by
  intro digest row hrow
  cases hrow

/-- The member's request is told of user 7, whom its token stands for. -/
theorem signed_in_known_member : SessionOperation.login 7 ∈ ([] : List SessionOperation) ∨
    ∃ digest, sessionDigest sampleEnvironment (presentedToken sampleEnvironment (memberRequests true)) =
      some digest ∧ StandsFor memberStart.world memberTrace digest 7 := by
  obtain ⟨pool, final, hrun, hdone⟩ := member_run
  have hfresh : Fresh sampleEnvironment memberRequests memberOperations memberStart := fun _ => rfl
  exact signed_in_known member_operations hfresh member_rows hrun hdone
    (show memberOperations true = [] ++ .userId :: [] from rfl) rfl

end Runs

end Ceasy.Sessions
