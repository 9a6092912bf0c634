import Ceasy.SessionRevocation

set_option autoImplicit false

/-!
# The user of a token

A login asks for a new token in the same step as it sets the user, and a commit
that is asked for one has it issued before it stores. So all that is ever stored
under a token, by all requests in any order, names at most one user, and a token
that was issued before anyone signed in with it never gains one.
-/
namespace Ceasy.Sessions
open StringView Collection Dialogue

/-- What `auth_user_id` finds in the values of a session. -/
def SessionValues.user (values : SessionValues) : Option Int64 :=
  (values.getInt AUTH_USER_KEY).filter fun userId => 0 < userId

def Decodable (data : Bytes) : Prop := ∃ values, sessionDeserialize .empty data = (true, values)

/-- The user that a request which loads these bytes is signed in as. -/
def dataUser (data : Bytes) : Option Int64 :=
  match sessionDeserialize .empty data with
  | (true, values) => values.user
  | _ => none

theorem SessionValues.user_eq_some {values : SessionValues} {userId : Int64} :
    values.user = some userId ↔
      values.contents AUTH_USER_KEY = some (.int64 userId) ∧ 0 < userId := by
  have hget := smGet_spec values.invariant AUTH_USER_KEY
  unfold SessionValues.user SessionValues.getInt
  rw [Option.filter_eq_some_iff, decide_eq_true_eq]
  apply and_congr_left
  intro _
  rw [SessionValues.contents, ← hget]
  cases smGet values.map AUTH_USER_KEY with
  | none => simp
  | some value =>
    obtain ⟨data, _, _⟩ := value
    cases data <;> simp

theorem SessionValues.user_congr {first second : SessionValues} (h : first.contents = second.contents) :
    first.user = second.user := by
  apply Option.ext
  intro userId
  rw [user_eq_some, user_eq_some, h]

/-- Setting anything but an integer under the user's key brings in no user. -/
theorem SessionValues.user_update {values next : SessionValues} {key : Bytes}
    {data : Option (StringMapData Unit)} {userId : Int64}
    (h : next.contents = Function.update values.contents key data)
    (hdata : key = AUTH_USER_KEY → data ≠ some (.int64 userId)) (huser : next.user = some userId) :
    values.user = some userId := by
  obtain ⟨hkey, hpositive⟩ := user_eq_some.mp huser
  rw [h] at hkey
  by_cases hsame : key = AUTH_USER_KEY
  · rw [← hsame, Function.update_self] at hkey
    exact absurd hkey (hdata hsame)
  · rw [Function.update_of_ne (Ne.symm hsame)] at hkey
    exact user_eq_some.mpr ⟨hkey, hpositive⟩

theorem sessionSerialize_user {values : SessionValues} {data : Bytes}
    (h : sessionSerialize values = some data) : dataUser data = values.user := by
  obtain ⟨decoded, hdecoded, hcontents⟩ := sessionSerialize_decodes h
  unfold dataUser
  rw [hdecoded]
  exact SessionValues.user_congr hcontents

variable {environment : Environment} {request : RequestParse.Request} {context : Context}
  {history : List SessionEvent}

def StoredUser (history : List SessionEvent) (digest : Bytes) (userId : Int64) : Prop :=
  ∃ data now expiresAt, (⟨.replace digest data now expiresAt, true⟩ : SessionEvent) ∈ history ∧
    dataUser data = some userId

def FoundUser (history : List SessionEvent) (digest : Bytes) (userId : Int64) : Prop :=
  ∃ row : SessionRow, (⟨.select digest, some (some row)⟩ : SessionEvent) ∈ history ∧
    dataUser row.data = some userId

def IssuedFor (environment : Environment) (history : List SessionEvent) (digest : Bytes) : Prop :=
  ∃ token, IssuedIn history token ∧ sessionDigest environment token = some digest

/-- A token is issued before the request has stored a user under it. -/
def IssuesUnused (environment : Environment) (history : List SessionEvent) : Prop :=
  ∀ before token after digest userId, history = before ++ ⟨.randomToken, some token⟩ :: after →
    sessionDigest environment token = some digest → ¬ StoredUser before digest userId

/-- A request may store a user under the token of a row in which it has found that user,
    or under a token issued to it under which it has stored no other. -/
def MayStore (environment : Environment) (history : List SessionEvent) (digest : Bytes)
    (userId : Int64) : Prop :=
  FoundUser history digest userId ∨
    IssuedFor environment history digest ∧ ∀ other, StoredUser history digest other → other = userId

theorem IssuesUnused.earlier {events : List SessionEvent}
    (h : IssuesUnused environment (history ++ events)) : IssuesUnused environment history := by
  intro before token after digest userId hhistory
  apply h before token (after ++ events) digest userId
  rw [hhistory, List.append_assoc, List.cons_append]

theorem FoundUser.later {digest : Bytes} {userId : Int64} (h : FoundUser history digest userId)
    (events : List SessionEvent) : FoundUser (history ++ events) digest userId := by
  obtain ⟨row, hmem, huser⟩ := h
  exact ⟨row, List.mem_append_left _ hmem, huser⟩

theorem StoredUser.later {digest : Bytes} {userId : Int64} (h : StoredUser history digest userId)
    (events : List SessionEvent) : StoredUser (history ++ events) digest userId := by
  obtain ⟨data, now, expiresAt, hmem, huser⟩ := h
  exact ⟨data, now, expiresAt, List.mem_append_left _ hmem, huser⟩

theorem IssuedFor.later {digest : Bytes} (h : IssuedFor environment history digest)
    (events : List SessionEvent) : IssuedFor environment (history ++ events) digest := by
  obtain ⟨token, hissued, hdigest⟩ := h
  exact ⟨token, List.mem_append_left _ hissued, hdigest⟩

theorem storedUser_append {events : List SessionEvent} {digest : Bytes} {userId : Int64} :
    StoredUser (history ++ events) digest userId ↔
      StoredUser history digest userId ∨ StoredUser events digest userId := by
  constructor
  · intro h
    obtain ⟨data, now, expiresAt, hmem, huser⟩ := h
    rcases List.mem_append.mp hmem with hbefore | hafter
    · exact .inl ⟨data, now, expiresAt, hbefore, huser⟩
    · exact .inr ⟨data, now, expiresAt, hafter, huser⟩
  · intro h
    rcases h with hbefore | ⟨data, now, expiresAt, hmem, huser⟩
    · exact hbefore.later events
    · exact ⟨data, now, expiresAt, List.mem_append_right _ hmem, huser⟩

theorem MayStore.later {digest : Bytes} {userId : Int64} {events : List SessionEvent}
    (h : MayStore environment history digest userId)
    (hevents : ∀ other, StoredUser events digest other → other = userId) :
    MayStore environment (history ++ events) digest userId := by
  rcases h with hfound | ⟨hissued, honly⟩
  · exact .inl (hfound.later events)
  · refine .inr ⟨hissued.later events, ?_⟩
    intro other hother
    rcases storedUser_append.mp hother with hbefore | hafter
    · exact honly other hbefore
    · exact hevents other hafter

theorem not_storedUser {events : List SessionEvent} (h : ∀ event ∈ events, ∀ digest data now expiresAt,
    event.call ≠ .replace digest data now expiresAt) {digest : Bytes} {userId : Int64} :
    ¬ StoredUser events digest userId := by
  intro hstored
  obtain ⟨data, now, expiresAt, hmem, -⟩ := hstored
  exact h _ hmem digest data now expiresAt rfl

/-- A request whose session keeps its token may store its user. -/
structure KeepsUser (environment : Environment) (history : List SessionEvent) (session : Session) :
    Prop where
  unloaded : session.loaded = false → session = {}
  allowed : session.regenerate = false → ∀ digest userId,
    sessionDigest environment session.token = some digest → session.values.user = some userId →
      MayStore environment history digest userId

def HoldsUser (environment : Environment) (history : List SessionEvent) (context : Context) : Prop :=
  IssuesUnused environment history → KeepsUser environment history context.session

/-- What is stored can be loaded, and its user may be stored. -/
def StoresUser (environment : Environment) (history : List SessionEvent) (c : SessionCall) : Prop :=
  ∀ digest data now expiresAt, c = .replace digest data now expiresAt →
    Decodable data ∧ (IssuesUnused environment history → ∀ userId, dataUser data = some userId →
      MayStore environment history digest userId)

theorem storesNothing_user : StoresNothing (StoresUser environment) := by
  intro history c hc digest data now expiresAt hreplace
  exact absurd hreplace (hc digest data now expiresAt)

theorem KeepsUser.later {session : Session} {events : List SessionEvent}
    (h : KeepsUser environment history session)
    (hevents : ∀ event ∈ events, ∀ digest data now expiresAt,
      event.call ≠ .replace digest data now expiresAt) :
    KeepsUser environment (history ++ events) session := by
  refine ⟨h.unloaded, ?_⟩
  intro hregenerate digest userId hdigest huser
  apply (h.allowed hregenerate digest userId hdigest huser).later
  intro other hother
  exact absurd hother (not_storedUser hevents)

theorem LoadResult.stores_nothing {cookie : Bytes} {events : List SessionEvent}
    {result : Bool × Context} (h : LoadResult environment context cookie events result) :
    ∀ event ∈ events, ∀ digest data now expiresAt, event.call ≠ .replace digest data now expiresAt := by
  cases h <;> simp

theorem DeleteResult.stores_nothing {token : Bytes} {events : List SessionEvent} {success : Bool}
    (h : DeleteResult environment token events success) :
    ∀ event ∈ events, ∀ digest data now expiresAt, event.call ≠ .replace digest data now expiresAt := by
  cases h <;> simp

theorem keepsUser_of_noToken {session : Session} (hloaded : session.loaded = true)
    (htoken : session.token = []) : KeepsUser environment history session := by
  constructor
  · intro hunloaded
    rw [hloaded] at hunloaded
    cases hunloaded
  · intro _ digest userId hdigest
    exact absurd htoken (token_ne_nil hdigest)

theorem keepsUser_initial : KeepsUser environment history {} :=
  ⟨fun _ => rfl, fun _ _ _ hdigest => absurd rfl (token_ne_nil hdigest)⟩

theorem keepsUser_of_regenerate {session : Session} (hloaded : session.loaded = true)
    (hregenerate : session.regenerate = true) : KeepsUser environment history session := by
  constructor
  · intro hunloaded
    rw [hloaded] at hunloaded
    cases hunloaded
  · intro hkept
    rw [hregenerate] at hkept
    cases hkept

theorem LoadResult.keepsUser {cookie : Bytes} {events : List SessionEvent} {result : Bool × Context}
    (h : LoadResult environment context cookie events result) (hempty : context.session = {}) :
    KeepsUser environment (history ++ events) result.2.session := by
  have htoken : context.session.token = [] := by rw [hempty]
  cases h with
  | @found digest row now values hdigest _ hvalues =>
    refine ⟨fun hunloaded => Bool.noConfusion hunloaded, ?_⟩
    intro _ other userId hother huser
    obtain rfl : digest = other := Option.some.inj (hdigest.symm.trans hother)
    refine .inl ⟨row, by simp, ?_⟩
    rw [hempty] at hvalues
    unfold dataUser
    rw [show sessionDeserialize .empty row.data = (true, values) from hvalues]
    exact huser
  | _ => exact keepsUser_of_noToken rfl htoken

theorem EnsureResult.keepsUser {events : List SessionEvent} {result : Bool × Context}
    (hensure : EnsureResult environment context events result)
    (h : KeepsUser environment history context.session) :
    KeepsUser environment (history ++ events) result.2.session := by
  cases hensure with
  | already =>
    rw [List.append_nil]
    exact h
  | load hloaded hload => exact hload.keepsUser (h.unloaded hloaded)

/-- Only a login and a handler that writes under the user's key itself bring in a user. -/
def LeavesUser (operation : SessionOperation) : Prop :=
  ∀ userId, operation ≠ .setInt64 AUTH_USER_KEY userId

theorem storedEntry_user {operation : SessionOperation} {data : StringMapData Unit} {userId : Int64}
    (hoperation : LeavesUser operation) (h : storedEntry operation = some (AUTH_USER_KEY, data)) :
    some data ≠ some (.int64 userId) := by
  intro hdata
  obtain rfl := Option.some.inj hdata
  cases operation with
  | setInt64 key value =>
    obtain ⟨rfl, hvalue⟩ := Prod.mk.inj (Option.some.inj h)
    exact hoperation value rfl
  | setString key value =>
    cases value with
    | none => cases h
    | some value => cases h
  | _ => cases h

theorem SessionUpdate.keepsUser {session next : Session} {operation : SessionOperation}
    {answer : SessionAnswer} (hupdate : SessionUpdate session operation answer next)
    (hoperation : LeavesUser operation) (hloaded : session.loaded = true)
    (h : KeepsUser environment history session) : KeepsUser environment history next := by
  have hunloaded : session.loaded = false → session = {} := h.unloaded
  cases hupdate with
  | set hentry hcontents =>
    refine ⟨fun hnot => Bool.noConfusion (hloaded.symm.trans hnot), ?_⟩
    intro hregenerate digest userId hdigest huser
    refine h.allowed hregenerate digest userId hdigest (SessionValues.user_update hcontents ?_ huser)
    intro hkey
    exact storedEntry_user hoperation (hkey ▸ hentry)
  | refused hcontents =>
    refine ⟨fun hnot => Bool.noConfusion (hloaded.symm.trans hnot), ?_⟩
    intro hregenerate digest userId hdigest huser
    exact h.allowed hregenerate digest userId hdigest ((SessionValues.user_congr hcontents) ▸ huser)
  | read => exact h
  | delete hcontents =>
    refine ⟨fun hnot => Bool.noConfusion (hloaded.symm.trans hnot), ?_⟩
    intro hregenerate digest userId hdigest huser
    exact h.allowed hregenerate digest userId hdigest
      (SessionValues.user_update hcontents (by simp) huser)
  | clear =>
    refine ⟨fun hnot => Bool.noConfusion (hloaded.symm.trans hnot), ?_⟩
    intro _ digest userId _ huser
    have hnothing := (SessionValues.user_eq_some.mp huser).1
    rw [SessionValues.clear_contents] at hnothing
    cases hnothing
  | regenerate => exact keepsUser_of_regenerate hloaded rfl
  | login => exact keepsUser_of_regenerate hloaded rfl
  | loginRefused => exact keepsUser_of_regenerate hloaded rfl

theorem MemoryResult.keepsUser {operation : SessionOperation} {events : List SessionEvent}
    {result : SessionAnswer × Context} (hresult : MemoryResult environment context operation events result)
    (hoperation : LeavesUser operation) (h : KeepsUser environment history context.session) :
    KeepsUser environment (history ++ events) result.2.session := by
  cases hresult with
  | update hensure hupdate => exact hupdate.keepsUser hoperation hensure.loaded (hensure.keepsUser h)
  | notLoaded hensure => exact hensure.keepsUser h
  | noUser =>
    rw [List.append_nil]
    exact h

theorem keepsUser_ended (hloaded : context.session.loaded = true) :
    KeepsUser environment history (sessionEnd environment context).session := by
  rw [(sessionEnd_session environment context).2]
  exact keepsUser_of_regenerate hloaded rfl

theorem DestroyResult.keepsUser {events : List SessionEvent} {result : Bool × Context}
    (hresult : DestroyResult environment context events result)
    (h : KeepsUser environment history context.session) :
    KeepsUser environment (history ++ events) result.2.session := by
  cases hresult with
  | notLoaded hensure => exact hensure.keepsUser h
  | noToken hensure => exact keepsUser_ended hensure.loaded
  | refused hensure hdelete =>
    rw [← List.append_assoc]
    exact (hensure.keepsUser h).later hdelete.stores_nothing
  | removed hensure => exact keepsUser_ended hensure.loaded

/-- A token that has just been issued may be stored with any user. -/
theorem mayStore_issued {token digest : Bytes} {userId : Int64}
    (hunused : IssuesUnused environment (history ++ [⟨.randomToken, some token⟩]))
    (hdigest : sessionDigest environment token = some digest) :
    MayStore environment (history ++ [⟨.randomToken, some token⟩]) digest userId := by
  refine .inr ⟨⟨token, List.mem_append_right _ List.mem_cons_self, hdigest⟩, ?_⟩
  intro other hother
  rcases storedUser_append.mp hother with hbefore | hnow
  · exact absurd hbefore (hunused history token [] digest other rfl hdigest)
  · exact absurd hnow (not_storedUser (by simp))

def MayStoreUser (environment : Environment) (history : List SessionEvent) (session : Session) : Prop :=
  ∀ digest userId, sessionDigest environment session.token = some digest →
    session.values.user = some userId → MayStore environment history digest userId

theorem GenerationResult.mayStoreUser {events : List SessionEvent} {generated : Context}
    (hresult : GenerationResult context events (true, generated))
    (h : KeepsUser environment history context.session)
    (hunused : IssuesUnused environment (history ++ events)) :
    MayStoreUser environment (history ++ events) generated.session := by
  cases hresult with
  | kept _ hregenerate =>
    rw [List.append_nil]
    exact h.allowed hregenerate
  | issued token =>
    intro digest userId hdigest _
    exact mayStore_issued hunused hdigest

theorem GenerationResult.loaded {events : List SessionEvent} {result : Bool × Context}
    (hresult : GenerationResult context events result) :
    result.2.session.loaded = context.session.loaded := by
  cases hresult <;> rfl

theorem RemovalResult.stores_nothing {events : List SessionEvent} {deleted : Bool}
    (hresult : RemovalResult environment context events deleted) :
    ∀ event ∈ events, ∀ digest data now expiresAt, event.call ≠ .replace digest data now expiresAt := by
  cases hresult with
  | kept => simp
  | removed _ hdelete => exact hdelete.stores_nothing

theorem MayStoreUser.store {session : Session} {data : Bytes}
    (h : MayStoreUser environment history session) (hdata : sessionSerialize session.values = some data)
    (digest : Bytes) (now expiresAt : ℤ) (success : Bool) :
    MayStoreUser environment (history ++ [⟨.time, now⟩] ++ [⟨.replace digest data now expiresAt, success⟩])
      session := by
  intro other userId hother huser
  rw [List.append_assoc]
  apply (h other userId hother huser).later
  intro stored hstored
  obtain ⟨written, _, _, hmem, hwritten⟩ := hstored
  simp only [List.singleton_append, List.mem_cons, List.not_mem_nil, or_false] at hmem
  rcases hmem with htime | hreplace
  · cases htime
  · cases hreplace
    rw [sessionSerialize_user hdata, huser] at hwritten
    exact (Option.some.inj hwritten).symm

theorem MayStoreUser.keepsUser {session : Session} (h : MayStoreUser environment history session)
    (hloaded : session.loaded = true) : KeepsUser environment history session :=
  ⟨fun hnot => Bool.noConfusion (hloaded.symm.trans hnot), fun _ => h⟩

theorem sessionStore_user (hloaded : context.session.loaded = true)
    (h : IssuesUnused environment history → MayStoreUser environment history context.session) :
    Keeps (StoresUser environment) (fun later result => HoldsUser environment later result.2) history
      (sessionStore environment context) := by
  have hrefused : HoldsUser environment history context :=
    fun hunused => (h hunused).keepsUser hloaded
  unfold sessionStore
  cases hdata : sessionSerialize context.session.values with
  | none => exact hrefused
  | some data =>
    dsimp only
    split_ifs
    · exact hrefused
    cases hdigest : sessionDigest environment context.session.token with
    | none => exact hrefused
    | some digest =>
      refine ⟨storesNothing_user _ _ (by simp), ?_⟩
      intro now
      constructor
      · -- the user that is stored is the session's own
        intro other stored time expiresAt hcall
        cases hcall
        obtain ⟨decoded, hdecoded, -⟩ := sessionSerialize_decodes hdata
        refine ⟨⟨decoded, hdecoded⟩, ?_⟩
        intro hunused userId huser
        rw [sessionSerialize_user hdata] at huser
        have hmay := (h hunused.earlier) digest userId hdigest huser
        exact hmay.later fun other hother => absurd hother (not_storedUser (by simp))
      · intro success
        have hstored : ∀ session : Session, session.loaded = true →
            session.token = context.session.token → session.values = context.session.values →
              IssuesUnused environment (history ++ [⟨.time, now⟩] ++
                [⟨.replace digest data now (now + environment.sessionTtlSeconds), success⟩]) →
              KeepsUser environment (history ++ [⟨.time, now⟩] ++
                [⟨.replace digest data now (now + environment.sessionTtlSeconds), success⟩]) session := by
          intro session hsession htoken hvalues hunused
          refine MayStoreUser.keepsUser ?_ hsession
          have hlater := (h hunused.earlier.earlier).store hdata digest now
            (now + environment.sessionTtlSeconds) success
          intro other userId
          rw [htoken, hvalues]
          exact hlater other userId
        cases success with
        | false => exact fun hunused => hstored _ hloaded rfl rfl hunused
        | true =>
          dsimp only
          rw [Bool.not_true, if_neg (by simp)]
          rcases contextSetCookie_cases
            (expiryContext context (now + environment.sessionTtlSeconds)) environment.sessionCookieName
            context.session.token (sessionStoreOptions environment) with hcookie | hcookie
          · unfold expiryContext at hcookie
            rw [hcookie]
            exact fun hunused => hstored _ hloaded rfl rfl hunused
          · unfold expiryContext at hcookie
            rw [hcookie]
            exact fun hunused => hstored _ hloaded rfl rfl hunused

theorem sessionCommit_user (h : HoldsUser environment history context) :
    Keeps (StoresUser environment) (fun later result => HoldsUser environment later result.2) history
      (sessionCommit environment context) := by
  unfold sessionCommit
  by_cases hidle : context.session.loaded = false ∨ context.session.dirty = false
  · rw [if_pos (by simpa using hidle)]
    exact h
  rw [if_neg (by simpa using hidle)]
  have hloaded : context.session.loaded = true := by simpa using (not_or.mp hidle).1
  cases hdestroy : context.session.destroy with
  | true => exact h
  | false =>
    rw [if_neg (by simp)]
    apply (sessionRemoval_keeps storesNothing_user history).bind
    intro later deleted hremoved
    obtain ⟨removal, rfl, hremoval⟩ := hremoved
    have hkept : IssuesUnused environment (history ++ removal) →
        KeepsUser environment (history ++ removal) context.session :=
      fun hunused => (h hunused.earlier).later hremoval.stores_nothing
    cases deleted with
    | false => exact hkept
    | true =>
      rw [Bool.not_true, if_neg (by simp)]
      apply (sessionGeneration_keeps storesNothing_user _).bind
      intro last generated hgenerated
      obtain ⟨generation, rfl, hgeneration⟩ := hgenerated
      obtain ⟨ok, generated⟩ := generated
      have hlast : generated.session.loaded = true := hgeneration.loaded.trans hloaded
      cases ok with
      | false =>
        intro hunused
        cases hgeneration with
        | failed => exact (hkept hunused.earlier).later (by simp)
      | true =>
        rw [Bool.not_true, if_neg (by simp)]
        exact sessionStore_user hlast fun hunused =>
          hgeneration.mayStoreUser (hkept hunused.earlier) hunused

theorem sessionPerform_user {operation : SessionOperation} (hoperation : LeavesUser operation)
    (h : HoldsUser environment history context) :
    Keeps (StoresUser environment) (fun later result => HoldsUser environment later result.2) history
      (sessionPerform environment context operation) := by
  by_cases hcommit : operation = .commit
  · rw [hcommit]
    apply (sessionCommit_user h).bind
    intro later result hlater
    exact hlater
  by_cases hmemory : InMemory operation
  · apply (sessionPerform_memory storesNothing_user history hmemory).mono
    intro later result hlater hunused
    obtain ⟨events, rfl, hresult⟩ := hlater
    exact hresult.keepsUser hoperation (h hunused.earlier)
  have hdestroy : sessionPerform environment context operation =
      answered .done (sessionDestroy environment context) := by
    cases operation with
    | destroy => rfl
    | logout => rfl
    | commit => exact absurd rfl hcommit
    | _ => exact absurd trivial hmemory
  rw [hdestroy]
  apply (sessionDestroy_keeps storesNothing_user history).bind
  intro later result hlater hunused
  obtain ⟨events, rfl, hresult⟩ := hlater
  exact hresult.keepsUser (h hunused.earlier)

/-- A handler stores a user only where it has found it or under a token of its own. -/
theorem sessionPerformAll_user (environment : Environment) (request : RequestParse.Request)
    {operations : List SessionOperation} (hoperations : ∀ operation ∈ operations, LeavesUser operation) :
    Keeps (StoresUser environment) (fun later result => HoldsUser environment later result.2) []
      (sessionPerformAll environment operations { request := request }) := by
  apply sessionPerformAll_keeps
  · intro operation hmem history context h
    exact sessionPerform_user (hoperations operation hmem) h
  · intro _
    exact keepsUser_initial

section Runs

variable {ι : Type*} [DecidableEq ι] {requests : ι → RequestParse.Request}

/-- The users for whom the token of a digest has stood in a run: in the row at its start,
    in one that was stored, or in one that was found. -/
inductive StandsFor (start : SessionWorld) (trace : List (ι × SessionEvent)) (digest : Bytes)
    (userId : Int64) : Prop where
  | initially {row : SessionRow} (h : start.table digest = some row) (huser : dataUser row.data = some userId)
  | stored {i : ι} (h : StoredUser (own i trace) digest userId)
  | found {i : ι} (h : FoundUser (own i trace) digest userId)

theorem StandsFor.later {start : SessionWorld} {trace : List (ι × SessionEvent)} {digest : Bytes}
    {userId : Int64} (h : StandsFor start trace digest userId) (events : List (ι × SessionEvent)) :
    StandsFor start (trace ++ events) digest userId := by
  cases h with
  | initially h huser => exact .initially h huser
  | @stored i h =>
    apply StandsFor.stored (i := i)
    rw [own_append]
    exact h.later _
  | @found i h =>
    apply StandsFor.found (i := i)
    rw [own_append]
    exact h.later _

/-- A row that names a user belongs to a token that was issued. -/
def UsersIssued (environment : Environment) (world : SessionWorld) : Prop :=
  ∀ digest row userId, world.table digest = some row → dataUser row.data = some userId →
    ∃ token ∈ world.issued, sessionDigest environment token = some digest

structure Owning (environment : Environment) (start : SessionWorld) (trace : List (ι × SessionEvent))
    (world : SessionWorld) : Prop where
  kept : ∀ digest row userId, world.table digest = some row → dataUser row.data = some userId →
    StandsFor start trace digest userId
  listed : ∀ digest userId, StandsFor start trace digest userId →
    ∃ token ∈ world.issued, sessionDigest environment token = some digest
  unique : ∀ digest first second, StandsFor start trace digest first →
    StandsFor start trace digest second → first = second
  unchanged : ∀ token digest userId, token ∈ start.issued →
    sessionDigest environment token = some digest → StandsFor start trace digest userId →
      ∃ row, start.table digest = some row ∧ dataUser row.data = some userId
  started : ∀ token ∈ start.issued, token ∈ world.issued
  issued : ∀ i token, IssuedIn (own i trace) token → token ∈ world.issued ∧ token ∉ start.issued
  issuer : ∀ i j token, IssuedIn (own i trace) token → IssuedIn (own j trace) token → i = j
  owned : ∀ i token digest userId, IssuedIn (own i trace) token →
    sessionDigest environment token = some digest → StandsFor start trace digest userId →
      StoredUser (own i trace) digest userId
  unused : ∀ i, IssuesUnused environment (own i trace)

variable {start : SessionWorld} {trace : List (ι × SessionEvent)} {world next : SessionWorld} {i : ι}
  {c : SessionCall} {answer : SessionReply c}

theorem owning_start (hrows : UsersIssued environment start) :
    Owning environment start ([] : List (ι × SessionEvent)) start := by
  have hnothing : ∀ {digest : Bytes} {userId : Int64},
      StandsFor start ([] : List (ι × SessionEvent)) digest userId →
        ∃ row, start.table digest = some row ∧ dataUser row.data = some userId := by
    intro digest userId h
    cases h with
    | initially h huser => exact ⟨_, h, huser⟩
    | stored h =>
      obtain ⟨_, _, _, hmem, -⟩ := h
      cases hmem
    | found h =>
      obtain ⟨_, hmem, -⟩ := h
      cases hmem
  have hissued : ∀ {i : ι} {token : Bytes}, ¬ IssuedIn (own i ([] : List (ι × SessionEvent))) token :=
    fun h => List.not_mem_nil h
  constructor
  · intro digest row userId hrow huser
    exact .initially hrow huser
  · intro digest userId h
    obtain ⟨row, hrow, huser⟩ := hnothing h
    exact hrows digest row userId hrow huser
  · intro digest first second hfirst hsecond
    obtain ⟨row, hrow, huser⟩ := hnothing hfirst
    obtain ⟨other, hother, hothers⟩ := hnothing hsecond
    rw [hrow] at hother
    cases hother
    exact Option.some.inj (huser.symm.trans hothers)
  · intro token digest userId _ _ h
    exact hnothing h
  · intro token hmem
    exact hmem
  · intro i token h
    exact absurd h hissued
  · intro i j token h
    exact absurd h hissued
  · intro i token digest userId h
    exact absurd h hissued
  · intro i before token after digest userId hempty
    simp [own] at hempty

theorem own_snoc (i j : ι) (event : SessionEvent) :
    own j (trace ++ [(i, event)]) = if i = j then own j trace ++ [event] else own j trace := by
  by_cases h : i = j
  · rw [if_pos h, h, own_snoc_self]
  · rw [if_neg h, own_snoc_of_ne h]

/-- What the last event of a run adds to the users of a token. -/
theorem Owning.cases_last (h : Owning environment start trace world)
    (hown : StoresUser environment (own i trace) c) (hanswer : SessionAnswers world c answer next)
    {digest : Bytes} {userId : Int64}
    (hstands : StandsFor start (trace ++ [(i, ⟨c, answer⟩)]) digest userId) :
    StandsFor start trace digest userId ∨
      IssuedFor environment (own i trace) digest ∧ StoredUser [⟨c, answer⟩] digest userId ∧
        ∀ other, StandsFor start trace digest other → other = userId := by
  cases hstands with
  | initially h huser => exact .inl (.initially h huser)
  | @stored j hstored =>
    rw [own_snoc] at hstored
    split_ifs at hstored with hij
    · rcases storedUser_append.mp hstored with hbefore | hnow
      · exact .inl (.stored hbefore)
      · obtain ⟨data, now, expiresAt, hmem, huser⟩ := hnow
        have hcall := congrArg Event.call (List.mem_singleton.mp hmem)
        have hmay := (hown digest data now expiresAt hcall.symm).2 (h.unused i) userId huser
        rcases hmay with hfound | hissued
        · exact .inl (.found hfound)
        · refine .inr ⟨hissued.1, ⟨data, now, expiresAt, hmem, huser⟩, ?_⟩
          intro other hother
          obtain ⟨token, hhere, hdigest⟩ := hissued.1
          exact hissued.2 other (h.owned i token digest other hhere hdigest hother)
    · exact .inl (.stored hstored)
  | @found j hfound =>
    rw [own_snoc] at hfound
    split_ifs at hfound with hij
    · obtain ⟨row, hmem, huser⟩ := hfound
      rcases List.mem_append.mp hmem with hbefore | hnow
      · exact .inl (.found ⟨row, hbefore, huser⟩)
      · -- a row that is found lies in the table
        obtain ⟨rfl, hrow⟩ : c = .select digest ∧ HEq answer (some (some row)) := by
          cases List.mem_singleton.mp hnow
          exact ⟨rfl, HEq.rfl⟩
        cases hanswer with
        | select =>
          exact .inl (h.kept digest row userId (Option.some.inj (eq_of_heq hrow)) huser)
        | selectFailed => cases eq_of_heq hrow
    · exact .inl (.found hfound)

theorem Owning.fresh (h : Owning environment start trace world)
    (hinjective : DigestInjective environment) {token digest : Bytes} {userId : Int64}
    (hfresh : token ∉ world.issued) (hdigest : sessionDigest environment token = some digest) :
    ¬ StandsFor start trace digest userId := by
  intro hstands
  obtain ⟨other, hother, hsame⟩ := h.listed digest userId hstands
  exact hfresh (hinjective _ _ _ hdigest hsame ▸ hother)

theorem issuedIn_snoc {j : ι} {token : Bytes}
    (h : IssuedIn (own j (trace ++ [(i, ⟨c, answer⟩)])) token) :
    IssuedIn (own j trace) token ∨ i = j ∧ (⟨c, answer⟩ : SessionEvent) = ⟨.randomToken, some token⟩ := by
  rw [own_snoc] at h
  split_ifs at h with hij
  · rcases List.mem_append.mp h with hbefore | hnow
    · exact .inl hbefore
    · exact .inr ⟨hij, (List.mem_singleton.mp hnow).symm⟩
  · exact .inl h

theorem issued_fresh {token : Bytes} (hanswer : SessionAnswers world c answer next)
    (hevent : (⟨c, answer⟩ : SessionEvent) = ⟨.randomToken, some token⟩) :
    token ∉ world.issued ∧ token ∈ next.issued := by
  cases hanswer with
  | token hfresh =>
    cases hevent
    exact ⟨hfresh, List.mem_cons_self⟩
  | _ => cases hevent

theorem owning_step (hinjective : DigestInjective environment)
    (h : Owning environment start trace world) (hown : StoresUser environment (own i trace) c)
    (hanswer : SessionAnswers world c answer next) :
    Owning environment start (trace ++ [(i, ⟨c, answer⟩)]) next := by
  constructor
  · intro digest row userId hrow huser
    have hbefore : world.table digest = some row →
        StandsFor start (trace ++ [(i, ⟨c, answer⟩)]) digest userId :=
      fun hrow => (h.kept digest row userId hrow huser).later _
    cases hanswer with
    | delete deleted =>
      by_cases hsame : digest = deleted
      · dsimp only at hrow
        rw [hsame, tableDelete, Function.update_self] at hrow
        cases hrow
      · dsimp only at hrow
        rw [tableDelete, Function.update_of_ne hsame] at hrow
        exact hbefore hrow
    | replace stored data now expiresAt =>
      by_cases hsame : digest = stored
      · dsimp only at hrow
        rw [hsame, tableReplace, Function.update_self] at hrow
        cases hrow
        apply StandsFor.stored (i := i)
        rw [own_snoc_self, hsame]
        exact ⟨data, now, expiresAt, List.mem_append_right _ List.mem_cons_self, huser⟩
      · dsimp only at hrow
        rw [tableReplace, Function.update_of_ne hsame] at hrow
        exact hbefore hrow
    | _ => exact hbefore hrow
  · intro digest userId hstands
    rcases h.cases_last hown hanswer hstands with hbefore | ⟨⟨token, hissued, hdigest⟩, -, -⟩
    · obtain ⟨token, hmem, hdigest⟩ := h.listed digest userId hbefore
      exact ⟨token, hanswer.issued_mono hmem, hdigest⟩
    · exact ⟨token, hanswer.issued_mono (h.issued i token hissued).1, hdigest⟩
  · intro digest first second hfirst hsecond
    rcases h.cases_last hown hanswer hfirst with hbefore | ⟨-, hstored, honly⟩
    · rcases h.cases_last hown hanswer hsecond with hbefore' | ⟨-, -, honly⟩
      · exact h.unique digest first second hbefore hbefore'
      · exact honly first hbefore
    · rcases h.cases_last hown hanswer hsecond with hbefore | ⟨-, hstored', -⟩
      · exact (honly second hbefore).symm
      · obtain ⟨data, _, _, hmem, huser⟩ := hstored
        obtain ⟨data', _, _, hmem', huser'⟩ := hstored'
        rw [List.mem_singleton] at hmem hmem'
        cases hmem.trans hmem'.symm
        exact Option.some.inj (huser.symm.trans huser')
  · intro token digest userId hmem hdigest hstands
    rcases h.cases_last hown hanswer hstands with hbefore | ⟨⟨other, hissued, hother⟩, -, -⟩
    · exact h.unchanged token digest userId hmem hdigest hbefore
    · obtain rfl := hinjective _ _ _ hdigest hother
      exact absurd hmem (h.issued i token hissued).2
  · intro token hmem
    exact hanswer.issued_mono (h.started token hmem)
  · intro j token hissued
    rcases issuedIn_snoc hissued with hbefore | ⟨-, hevent⟩
    · obtain ⟨hmem, hnew⟩ := h.issued j token hbefore
      exact ⟨hanswer.issued_mono hmem, hnew⟩
    · obtain ⟨hfresh, hmem⟩ := issued_fresh hanswer hevent
      exact ⟨hmem, fun hstart => hfresh (h.started token hstart)⟩
  · intro j k token hj hk
    rcases issuedIn_snoc hj with hbefore | ⟨hij, hevent⟩
    · rcases issuedIn_snoc hk with hbefore' | ⟨-, hevent⟩
      · exact h.issuer j k token hbefore hbefore'
      · exact absurd (h.issued j token hbefore).1 (issued_fresh hanswer hevent).1
    · rcases issuedIn_snoc hk with hbefore | ⟨hik, -⟩
      · exact absurd (h.issued k token hbefore).1 (issued_fresh hanswer hevent).1
      · exact hij.symm.trans hik
  · intro j token digest userId hissued hdigest hstands
    rcases issuedIn_snoc hissued with hbefore | ⟨-, hevent⟩
    · rcases h.cases_last hown hanswer hstands with hold | ⟨⟨other, hhere, hother⟩, hstored, -⟩
      · rw [own_append]
        exact (h.owned j token digest userId hbefore hdigest hold).later _
      · obtain rfl := hinjective _ _ _ hdigest hother
        obtain rfl := h.issuer i j token hhere hbefore
        rw [own_snoc_self]
        exact storedUser_append.mpr (.inr hstored)
    · have hfresh := (issued_fresh hanswer hevent).1
      rcases h.cases_last hown hanswer hstands with hold | ⟨⟨other, hhere, hother⟩, -, -⟩
      · exact absurd hold (h.fresh hinjective hfresh hdigest)
      · obtain rfl := hinjective _ _ _ hdigest hother
        exact absurd (h.issued i token hhere).1 hfresh
  · intro j
    rw [own_snoc]
    split_ifs with hij
    · subst hij
      intro before token after digest userId hhistory hdigest hstored
      rcases List.eq_nil_or_concat after with rfl | ⟨earlier, last, rfl⟩
      · obtain ⟨rfl, hevent⟩ := List.append_inj' hhistory rfl
        have hfresh := (issued_fresh hanswer (List.singleton_inj.mp hevent)).1
        exact h.fresh hinjective hfresh hdigest (.stored hstored)
      · rw [List.concat_eq_append, ← List.cons_append, ← List.append_assoc] at hhistory
        obtain ⟨hbefore, -⟩ := List.append_inj' hhistory rfl
        exact h.unused i before token earlier digest userId hbefore hdigest hstored
    · exact h.unused j

theorem owning_run (hinjective : DigestInjective environment)
    {operations : ι → List SessionOperation}
    (hoperations : ∀ i, ∀ operation ∈ operations i, LeavesUser operation)
    {first pool : SessionPool ι} (hfresh : Fresh environment requests operations first)
    (hrows : UsersIssued environment first.world) (hrun : Run AnyAnswer first trace pool) :
    Owning environment first.world trace pool.world := by
  induction hrun with
  | refl => exact owning_start hrows
  | @step pool trace i c next answer world hbefore hcall hanswer ih =>
    have hkeeps := hbefore.keeps (i := i) (by
      rw [hfresh i]
      exact sessionPerformAll_user environment (requests i) (hoperations i))
    rw [hcall] at hkeeps
    exact owning_step hinjective ih hkeeps.1 hanswer

/-- In every run, all that stands, is stored or is found under one token names one user. -/
theorem token_user_unique (hinjective : DigestInjective environment)
    {operations : ι → List SessionOperation}
    (hoperations : ∀ i, ∀ operation ∈ operations i, LeavesUser operation)
    {first pool : SessionPool ι} (hfresh : Fresh environment requests operations first)
    (hrows : UsersIssued environment first.world) (hrun : Run AnyAnswer first trace pool)
    {digest : Bytes} {userId other : Int64} (huser : StandsFor first.world trace digest userId)
    (hother : StandsFor first.world trace digest other) : userId = other :=
  (owning_run hinjective hoperations hfresh hrows hrun).unique digest userId other huser hother

/-- A token that was issued before the run gains no user in it: a visitor's token does not
    become the token of someone who signs in with it. -/
theorem issued_token_gains_no_user (hinjective : DigestInjective environment)
    {operations : ι → List SessionOperation}
    (hoperations : ∀ i, ∀ operation ∈ operations i, LeavesUser operation)
    {first pool : SessionPool ι} (hfresh : Fresh environment requests operations first)
    (hrows : UsersIssued environment first.world) (hrun : Run AnyAnswer first trace pool)
    {token digest : Bytes} {userId : Int64} (hissued : token ∈ first.world.issued)
    (hdigest : sessionDigest environment token = some digest)
    (huser : StandsFor first.world trace digest userId) :
    ∃ row, first.world.table digest = some row ∧ dataUser row.data = some userId :=
  (owning_run hinjective hoperations hfresh hrows hrun).unchanged token digest userId hissued
    hdigest huser

end Runs

def loginContext (request : RequestParse.Request) (userId : Int64) : Context where
  request := request
  session :=
    { values := (SessionValues.empty.setValue AUTH_USER_KEY (smInt userId)).2
      loaded := true, dirty := true, regenerate := true }

theorem login_commit_leads {token digest data : Bytes} {userId : Int64} {now : ℤ}
    (hsent : sessionDigest environment (presentedToken environment request) = none) (huser : 0 < userId)
    (hset : (SessionValues.empty.setValue AUTH_USER_KEY (smInt userId)).1 = true)
    (hdata : sessionSerialize (SessionValues.empty.setValue AUTH_USER_KEY (smInt userId)).2 = some data)
    (hshort : data.length ≤ SESSION_MAX_BYTES)
    (hdigest : sessionDigest environment token = some digest)
    (hcookie : ∀ context : Context, context.responseHeaders = [] →
      (contextSetCookie context environment.sessionCookieName token (sessionStoreOptions environment)).1 =
        true) :
    ∃ final, Leads (sessionPerformAll environment [.login userId, .commit] { request := request })
      [⟨.randomToken, some token⟩, ⟨.time, now⟩,
        ⟨.replace digest data now (now + environment.sessionTtlSeconds), true⟩]
      (.done ([.done true, .done true], final)) := by
  have hload : Leads (sessionEnsure environment { request := request }) []
      (.done (true, loadedContext { request := request })) := by
    change Leads (sessionLoad environment { request := request }) _ _
    rw [sessionLoad_eq, show sessionDigest environment (contextCookie { request := request }
      environment.sessionCookieName) = none from hsent]
    exact .nil _
  have hregenerate : Leads (sessionRegenerate environment { request := request }) ([] ++ []) _ :=
    hload.bind (.nil _)
  have hlogin : Leads (sessionPerform environment { request := request } (.login userId)) ([] ++ [] ++ [])
      (.done (.done true, loginContext request userId)) := by
    rw [sessionPerform, authLogin, if_neg (Int64.not_le.mpr huser), answered, bind_assoc]
    apply hregenerate.bind
    rw [leads_nil_iff]
    change (.done _ : SessionDialogue _) = .done (SessionAnswer.done (sessionSet _
      (SessionValues.empty.setValue AUTH_USER_KEY (smInt userId))).1, (sessionSet _
      (SessionValues.empty.setValue AUTH_USER_KEY (smInt userId))).2)
    unfold sessionSet
    rw [hset]
    rfl
  have hstore : Leads (sessionStore environment (tokenContext (loginContext request userId) token)) _ _ :=
    sessionStore_leads hdata hshort hdigest now (hcookie _ rfl)
  have hcommit : Leads (sessionCommit environment (loginContext request userId)) _ _ :=
    sessionCommit_leads_issued rfl rfl rfl rfl hstore
  have hperform : Leads (sessionPerform environment (loginContext request userId) .commit) _ _ :=
    hcommit.bind (.nil _)
  have hall : Leads (sessionPerformAll environment [.login userId, .commit] { request := request }) _ _ :=
    sessionPerformAll_leads hlogin (sessionPerformAll_leads hperform (.nil _))
  exact ⟨_, hall⟩

def memberData : Bytes := [1, 0, 1, 0, 20] ++ AUTH_USER_KEY ++ [2, 0, 0, 0, 0, 0, 0, 0, 7]

theorem member_data : (SessionValues.empty.setValue AUTH_USER_KEY (smInt 7)).1 = true ∧
    sessionSerialize (SessionValues.empty.setValue AUTH_USER_KEY (smInt 7)).2 = some memberData ∧
    (SessionValues.empty.setValue AUTH_USER_KEY (smInt 7)).2.user = some 7 := by
  have hset : (SessionValues.empty.setValue AUTH_USER_KEY (smInt 7)).1 = true := by decide +kernel
  refine ⟨hset, ?_, ?_⟩
  · unfold sessionSerialize
    rw [smIterate_entries]
    decide +kernel
  · rw [SessionValues.user_eq_some,
      (SessionValues.empty.setValue_stored AUTH_USER_KEY (smInt 7) rfl).done hset, Function.update_self]
    exact ⟨rfl, by decide⟩

theorem member_user : dataUser memberData = some 7 :=
  (sessionSerialize_user member_data.2.1).trans member_data.2.2

/-- One request logs user 7 in, and another comes back with the token that was issued to it. -/
def memberRequests : Bool → RequestParse.Request
  | false => {}
  | true => sampleRequest

def memberOperations : Bool → List SessionOperation
  | false => [.login 7, .commit]
  | true => [.userId]

def memberStart : SessionPool Bool where
  parties i := sessionPerformAll sampleEnvironment (memberOperations i) { request := memberRequests i }
  world := ⟨fun _ => none, []⟩

def memberTrace : List (Bool × SessionEvent) :=
  [(false, ⟨.randomToken, some sampleToken⟩), (false, ⟨.time, (1 : ℤ)⟩),
    (false, ⟨.replace sampleToken memberData 1 61, true⟩),
    (true, ⟨.select sampleToken, some (some ⟨memberData, 1, 1, 61⟩)⟩), (true, ⟨.time, (2 : ℤ)⟩)]

theorem member_operations (i : Bool) : ∀ operation ∈ memberOperations i, LeavesUser operation := by
  intro operation hmem userId heq
  subst heq
  cases i <;> simp [memberOperations] at hmem

theorem member_visit : ∃ final,
    Leads (sessionPerformAll sampleEnvironment [.userId] { request := sampleRequest })
      [⟨.select sampleToken, some (some ⟨memberData, 1, 1, 61⟩)⟩, ⟨.time, (2 : ℤ)⟩]
      (.done ([.int64 (some 7)], final)) := by
  obtain ⟨values, hvalues, hcontents⟩ := sessionSerialize_decodes member_data.2.1
  have hload : Leads (sessionEnsure sampleEnvironment { request := sampleRequest })
      [⟨.select sampleToken, some (some ⟨memberData, 1, 1, 61⟩)⟩, ⟨.time, (2 : ℤ)⟩] _ :=
    sessionEnsure_leads rfl (sessionLoad_leads sample_sent sample_digest
      (show (2 : ℤ) < 61 by decide) hvalues)
  have huser : Leads (sessionPerform sampleEnvironment { request := sampleRequest } .userId)
      [⟨.select sampleToken, some (some ⟨memberData, 1, 1, 61⟩)⟩, ⟨.time, (2 : ℤ)⟩] (.done
      (.int64 values.user, foundContext { request := sampleRequest } sampleToken
        ⟨memberData, 1, 1, 61⟩ values)) := by
    rw [sessionPerform, authUserId, answered_bind]
    exact sessionWith_leads hload
  rw [(SessionValues.user_congr hcontents).trans member_data.2.2] at huser
  have hall : Leads (sessionPerformAll sampleEnvironment [.userId] { request := sampleRequest }) _ _ :=
    sessionPerformAll_leads huser (.nil _)
  exact ⟨_, hall⟩

theorem member_select {world : SessionWorld}
    (hrow : world.table sampleToken = some ⟨memberData, 1, 1, 61⟩) :
    SessionAnswers world (.select sampleToken) (some (some ⟨memberData, 1, 1, 61⟩)) world := by
  rw [← hrow]
  exact .select sampleToken

theorem member_run : ∃ (pool : SessionPool Bool) (final : Context),
    Run AnyAnswer memberStart memberTrace pool ∧
      pool.parties true = .done ([.int64 (some 7)], final) := by
  obtain ⟨hset, hdata, -⟩ := member_data
  have hnone : presentedToken sampleEnvironment {} = [] := by cbv
  have hlogin : ∃ final,
      Leads (sessionPerformAll sampleEnvironment [.login 7, .commit] { request := {} })
        [⟨.randomToken, some sampleToken⟩, ⟨.time, (1 : ℤ)⟩, ⟨.replace sampleToken memberData 1 61, true⟩]
        (.done ([.done true, .done true], final)) :=
    login_commit_leads (by rw [hnone]; rfl) (by decide) hset hdata (by decide) sample_digest sample_cookie
  obtain ⟨signedIn, hsignedIn⟩ := hlogin
  obtain ⟨final, hvisit⟩ := member_visit
  have hleads : ∀ i, Leads (memberStart.parties i) (own i memberTrace)
      (match i with
        | false => .done ([.done true, .done true], signedIn)
        | true => .done ([.int64 (some 7)], final)) := by
    intro i
    cases i with
    | false => exact hsignedIn
    | true => exact hvisit
  have haccepted : Accepted AnyAnswer memberStart.world memberTrace _ :=
    ((((Accepted.nil.cons (.time 2)).cons (member_select (by simp [tableReplace, memberStart]))).cons
      (.replace sampleToken memberData 1 61)).cons (.time 1)).cons (.token (by simp [memberStart]))
  exact ⟨_, _, run_of_leads hleads haccepted, rfl⟩

theorem member_stands : StandsFor memberStart.world memberTrace sampleToken 7 :=
  .found (i := true) ⟨⟨memberData, 1, 1, 61⟩, mem_own.mpr (by simp [memberTrace]), member_user⟩

theorem token_user_unique_member : ∃! userId, StandsFor memberStart.world memberTrace sampleToken userId := by
  obtain ⟨pool, final, hrun, -⟩ := member_run
  refine ⟨7, member_stands, fun other hother => ?_⟩
  exact token_user_unique sample_injective member_operations (fun _ => rfl)
    (fun _ _ _ hrow => by cases hrow) hrun hother member_stands

def returningStart : SessionPool Unit where
  parties _ := sessionPerformAll sampleEnvironment [.userId] { request := sampleRequest }
  world :=
    { table digest := if digest = sampleToken then some ⟨memberData, 1, 1, 61⟩ else none
      issued := [sampleToken] }

theorem returning_rows : UsersIssued sampleEnvironment returningStart.world := by
  intro digest row userId hrow _
  refine ⟨sampleToken, List.mem_cons_self, ?_⟩
  unfold returningStart at hrow
  dsimp only at hrow
  split_ifs at hrow with hsame
  rw [hsame, sample_digest]

theorem issued_token_gains_no_user_returning :
    ∃ row, returningStart.world.table sampleToken = some row ∧ dataUser row.data = some 7 := by
  obtain ⟨final, hvisit⟩ := member_visit
  have haccepted : Accepted AnyAnswer returningStart.world
      [((), ⟨.select sampleToken, some (some ⟨memberData, 1, 1, 61⟩)⟩), ((), ⟨.time, (2 : ℤ)⟩)]
      returningStart.world := (Accepted.nil.cons (.time 2)).cons (member_select rfl)
  have hrun : Run AnyAnswer returningStart
      [((), ⟨.select sampleToken, some (some ⟨memberData, 1, 1, 61⟩)⟩), ((), ⟨.time, (2 : ℤ)⟩)]
      ⟨fun _ => .done ([.int64 (some 7)], final), returningStart.world⟩ :=
    run_of_leads (fun _ => hvisit) haccepted
  have hfresh : Fresh sampleEnvironment (fun _ => sampleRequest) (fun _ => [.userId]) returningStart :=
    fun _ => rfl
  exact issued_token_gains_no_user sample_injective (by simp [LeavesUser]) hfresh returning_rows hrun
    List.mem_cons_self sample_digest (.initially rfl member_user)

end Ceasy.Sessions
