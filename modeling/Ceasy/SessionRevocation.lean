import Ceasy.SessionSteps

set_option autoImplicit false

/-!
# Revoking a session

Requests of several processes share the sessions table. A commit writes its row
without asking whether it is still there, so a request that has loaded a session
brings it back after another has destroyed it. As long as no request stores under
a token it was sent whose row has gone, a deleted row stays deleted: a commit
stores under the token it was sent or under one that it has been issued itself.
-/
namespace Ceasy.Sessions
open StringView Collection Dialogue

variable {environment : Environment} {request : RequestParse.Request} {context : Context}
  {history : List SessionEvent}

def presentedToken (environment : Environment) (request : RequestParse.Request) : Bytes :=
  contextCookie { request := request } environment.sessionCookieName

def IssuedIn (history : List SessionEvent) (token : Bytes) : Prop :=
  (⟨.randomToken, some token⟩ : SessionEvent) ∈ history

def MayHold (environment : Environment) (request : RequestParse.Request) (history : List SessionEvent)
    (token : Bytes) : Prop :=
  token = [] ∨ token = presentedToken environment request ∨ IssuedIn history token

/-- A request keeps to the tokens that it was sent or issued. -/
structure HoldsToken (environment : Environment) (request : RequestParse.Request)
    (history : List SessionEvent) (context : Context) : Prop where
  sent : context.request = request
  held : MayHold environment request history context.session.token

def StoresOwnTokens (environment : Environment) (request : RequestParse.Request)
    (history : List SessionEvent) (c : SessionCall) : Prop :=
  ∀ digest data now expiresAt, c = .replace digest data now expiresAt →
    ∃ token, sessionDigest environment token = some digest ∧ MayHold environment request history token

theorem storesNothing_ownTokens :
    StoresNothing (StoresOwnTokens environment request) := by
  intro history c hc digest data now expiresAt hreplace
  exact absurd hreplace (hc digest data now expiresAt)

theorem MayHold.later {token : Bytes} (h : MayHold environment request history token)
    (events : List SessionEvent) : MayHold environment request (history ++ events) token := by
  rcases h with hnone | hsent | hissued
  · exact .inl hnone
  · exact .inr (.inl hsent)
  · exact .inr (.inr (List.mem_append_left _ hissued))

theorem HoldsToken.later (h : HoldsToken environment request history context)
    (events : List SessionEvent) : HoldsToken environment request (history ++ events) context :=
  ⟨h.sent, h.held.later events⟩

theorem EnsureResult.holdsToken {events : List SessionEvent} {result : Bool × Context}
    (hensure : EnsureResult environment context events result)
    (h : HoldsToken environment request history context) :
    HoldsToken environment request (history ++ events) result.2 := by
  cases hensure with
  | already => exact h.later []
  | load _ hload =>
    have hsent : contextCookie context environment.sessionCookieName =
        presentedToken environment request := by
      rw [← h.sent]
      rfl
    cases hload with
    | found => exact ⟨h.sent, .inr (.inl hsent)⟩
    | _ => exact ⟨h.sent, h.held.later _⟩

theorem SessionUpdate.token {session next : Session} {operation : SessionOperation}
    {answer : SessionAnswer} (h : SessionUpdate session operation answer next) :
    next.token = session.token := by
  cases h <;> rfl

theorem MemoryResult.holdsToken {operation : SessionOperation} {events : List SessionEvent}
    {result : SessionAnswer × Context} (hresult : MemoryResult environment context operation events result)
    (h : HoldsToken environment request history context) :
    HoldsToken environment request (history ++ events) result.2 := by
  cases hresult with
  | update hensure hupdate =>
    have hloaded := hensure.holdsToken h
    refine ⟨hloaded.sent, ?_⟩
    dsimp only
    rw [hupdate.token]
    exact hloaded.held
  | notLoaded hensure => exact hensure.holdsToken h
  | noUser => exact h.later []

theorem HoldsToken.ended (h : HoldsToken environment request history context) :
    HoldsToken environment request history (sessionEnd environment context) := by
  obtain ⟨hrequest, hsession⟩ := sessionEnd_session environment context
  refine ⟨hrequest.trans h.sent, ?_⟩
  rw [hsession]
  exact h.held

theorem DestroyResult.holdsToken {events : List SessionEvent} {result : Bool × Context}
    (hresult : DestroyResult environment context events result)
    (h : HoldsToken environment request history context) :
    HoldsToken environment request (history ++ events) result.2 := by
  cases hresult with
  | notLoaded hensure => exact hensure.holdsToken h
  | noToken hensure => exact (hensure.holdsToken h).ended
  | refused hensure =>
    rw [← List.append_assoc]
    exact (hensure.holdsToken h).later _
  | removed hensure =>
    rw [← List.append_assoc]
    exact ((hensure.holdsToken h).later _).ended

theorem GenerationResult.holdsToken {events : List SessionEvent} {result : Bool × Context}
    (hresult : GenerationResult context events result)
    (h : HoldsToken environment request history context) :
    HoldsToken environment request (history ++ events) result.2 := by
  cases hresult with
  | kept => exact h.later []
  | failed => exact h.later _
  | issued token => exact ⟨h.sent, .inr (.inr (List.mem_append_right _ List.mem_cons_self))⟩

theorem CommitResult.holdsToken {events : List SessionEvent} {result : Bool × Context}
    (hresult : CommitResult environment context events result)
    (h : HoldsToken environment request history context) :
    HoldsToken environment request (history ++ events) result.2 := by
  cases hresult with
  | idle => exact h.later []
  | notRemoved => exact h.later _
  | notIssued _ hgeneration =>
    rw [← List.append_assoc]
    exact hgeneration.holdsToken (h.later _)
  | @ended removal _ _ _ _ _ _ _ hgeneration hstore =>
    have hgenerated := hgeneration.holdsToken (h.later removal)
    rw [← List.append_assoc, ← List.append_assoc]
    cases hstore with
    | refused => exact hgenerated.later []
    | failed => exact ⟨hgenerated.sent, hgenerated.held.later _⟩
    | stored => exact ⟨hgenerated.sent, hgenerated.held.later _⟩

theorem sessionPerform_ownTokens (operation : SessionOperation)
    (h : HoldsToken environment request history context) :
    Keeps (StoresOwnTokens environment request)
      (fun later result => HoldsToken environment request later result.2) history
      (sessionPerform environment context operation) := by
  apply (sessionPerform_keeps storesNothing_ownTokens history operation ?_).mono
  · intro later result hlater
    obtain ⟨events, rfl, hresult⟩ := hlater
    cases hresult with
    | memory hmemory => exact hmemory.holdsToken h
    | destroy _ hdestroy => exact hdestroy.holdsToken h
    | commit _ hcommit => exact hcommit.holdsToken h
  · intro removal generation generated _ _ _ _ _ hgeneration hdigest digest data now expiresAt heq
    cases heq
    exact ⟨_, hdigest, (hgeneration.holdsToken (h.later removal)).held.later _⟩

/-- A handler stores only under the token it was sent and those issued to it. -/
theorem sessionPerformAll_ownTokens (environment : Environment) (request : RequestParse.Request)
    (operations : List SessionOperation) :
    Keeps (StoresOwnTokens environment request)
      (fun later result => HoldsToken environment request later result.2) []
      (sessionPerformAll environment operations { request := request }) := by
  apply sessionPerformAll_keeps
  · intro operation _ history context h
    exact sessionPerform_ownTokens operation h
  · exact ⟨rfl, .inl rfl⟩

section Runs

variable {ι : Type*} [DecidableEq ι] {requests : ι → RequestParse.Request} {token : Bytes}

abbrev Outcomes := List SessionAnswer × Context

abbrev SessionPool (ι : Type*) := Pool ι SessionCall SessionReply Outcomes SessionWorld

def Fresh (environment : Environment) (requests : ι → RequestParse.Request)
    (operations : ι → List SessionOperation) (pool : SessionPool ι) : Prop :=
  ∀ i, pool.parties i = sessionPerformAll environment (operations i) { request := requests i }

def AnyAnswer (world : SessionWorld) (_ : ι) (c : SessionCall) (answer : SessionReply c)
    (next : SessionWorld) : Prop :=
  SessionAnswers world c answer next

/-- A request that was sent the token stores under it only while its row is there. -/
def StoresOverRow (environment : Environment) (requests : ι → RequestParse.Request) (token : Bytes)
    (world : SessionWorld) (i : ι) (c : SessionCall) : Prop :=
  presentedToken environment (requests i) = token →
    ∀ digest data now expiresAt, c = .replace digest data now expiresAt →
      sessionDigest environment token = some digest → world.table digest ≠ none

def GuardedAnswer (environment : Environment) (requests : ι → RequestParse.Request) (token : Bytes)
    (world : SessionWorld) (i : ι) (c : SessionCall) (answer : SessionReply c)
    (next : SessionWorld) : Prop :=
  SessionAnswers world c answer next ∧ StoresOverRow environment requests token world i c

/-- Whatever comes later, a load whose query is answered from this world finds no session. -/
def LoadFindsNothing (environment : Environment) (world : SessionWorld)
    (request : RequestParse.Request) : Prop :=
  ∀ first rest result next, SessionAnswers world first.call first.answer next →
    Leads (sessionLoad environment { request := request }) (first :: rest) (.done result) →
      result.2.session = { loaded := true }

def DigestInjective (environment : Environment) : Prop :=
  ∀ token other digest, sessionDigest environment token = some digest →
    sessionDigest environment other = some digest → token = other

theorem loadFindsNothing_of_absent {world : SessionWorld}
    (habsent : ∀ digest, sessionDigest environment (presentedToken environment request) = some digest →
      world.table digest = none) :
    LoadFindsNothing environment world request := by
  intro first rest result next hanswer hleads
  have hkeeps : Keeps (fun _ _ => True) _ [] (sessionLoad environment { request := request }) :=
    sessionLoad_keeps (fun _ _ _ => trivial) []
  have hload := hkeeps.leads hleads
  obtain ⟨events, hevents, hresult⟩ := hload
  rw [List.nil_append, List.nil_append] at hevents
  have hrow : ∀ digest (row : SessionRow),
      sessionDigest environment (presentedToken environment request) = some digest →
        first = ⟨.select digest, some (some row)⟩ → False := by
    intro digest row hdigest hfirst
    subst hfirst
    have hnone := habsent digest hdigest
    generalize hanswered : (some (some row) : SessionReply (.select digest)) = answer at hanswer
    cases hanswer with
    | select =>
      rw [hnone] at hanswered
      cases hanswered
    | selectFailed => cases hanswered
  cases hresult with
  | noCookie => cases hevents
  | failed => rfl
  | absent => rfl
  | expired deleted h =>
    cases hevents
    exact (hrow _ _ h rfl).elim
  | undecoded now deleted h =>
    cases hevents
    exact (hrow _ _ h rfl).elim
  | found h =>
    cases hevents
    exact (hrow _ _ h rfl).elim

theorem SessionAnswers.issued_mono {world next : SessionWorld} {c : SessionCall} {answer : SessionReply c}
    (h : SessionAnswers world c answer next) (hissued : token ∈ world.issued) : token ∈ next.issued := by
  cases h with
  | token => exact List.mem_cons_of_mem _ hissued
  | _ => exact hissued

theorem SessionAnswers.not_issued {world next : SessionWorld} {other : Bytes}
    (h : SessionAnswers world .randomToken (some other) next) : other ∉ world.issued := by
  generalize hanswer : (some other : SessionReply .randomToken) = answer at h
  cases h with
  | token hfresh =>
    cases hanswer
    exact hfresh
  | tokenFailed => cases hanswer

/-- What a run keeps about a token that was issued before it. -/
structure Revoked (environment : Environment) (token : Bytes) (world : SessionWorld)
    (trace : List (ι × SessionEvent)) : Prop where
  issued : token ∈ world.issued
  fresh : ∀ i other, (i, (⟨.randomToken, some other⟩ : SessionEvent)) ∈ trace → other ≠ token
  absent : ∀ i digest, sessionDigest environment token = some digest →
    (i, (⟨.delete digest, true⟩ : SessionEvent)) ∈ trace → world.table digest = none

theorem revoked_step (hinjective : DigestInjective environment) {trace : List (ι × SessionEvent)}
    {world next : SessionWorld} {i : ι} {c : SessionCall} {answer : SessionReply c}
    (h : Revoked environment token world trace)
    (hown : StoresOwnTokens environment (requests i) (own i trace) c)
    (hanswer : GuardedAnswer environment requests token world i c answer next) :
    Revoked environment token next (trace ++ [(i, ⟨c, answer⟩)]) := by
  obtain ⟨hanswer, hguard⟩ := hanswer
  refine ⟨hanswer.issued_mono h.issued, ?_, ?_⟩
  · intro j other hmem
    rcases List.mem_append.mp hmem with hbefore | hnow
    · exact h.fresh j other hbefore
    · cases List.mem_singleton.mp hnow
      intro heq
      exact hanswer.not_issued (heq ▸ h.issued)
  · intro j digest hdigest hmem
    have hbefore : (j, (⟨.delete digest, true⟩ : SessionEvent)) ∈ trace →
        world.table digest = none := h.absent j digest hdigest
    cases hanswer with
    | delete deleted =>
      by_cases hsame : digest = deleted
      · rw [hsame]
        exact Function.update_self ..
      · dsimp only
        rw [tableDelete, Function.update_of_ne hsame]
        apply hbefore
        rcases List.mem_append.mp hmem with hbefore | hnow
        · exact hbefore
        · cases List.mem_singleton.mp hnow
          exact absurd rfl hsame
    | replace stored data now expiresAt =>
      have habsent := hbefore (by simpa using hmem)
      by_cases hsame : digest = stored
      · subst hsame
        obtain ⟨other, hother, hhold⟩ := hown digest data now expiresAt rfl
        obtain rfl := hinjective _ _ _ hdigest hother
        rcases hhold with hnone | hsent | hissuedHere
        · exact absurd hnone (token_ne_nil hdigest)
        · exact absurd habsent (hguard hsent.symm _ _ _ _ rfl hdigest)
        · exact absurd rfl (h.fresh i _ (mem_own.mp hissuedHere))
      · dsimp only
        rw [tableReplace, Function.update_of_ne hsame]
        exact habsent
    | _ => exact hbefore (by simpa using hmem)

theorem revoked_run (hinjective : DigestInjective environment)
    {operations : ι → List SessionOperation} {start pool : SessionPool ι}
    {trace : List (ι × SessionEvent)} (hfresh : Fresh environment requests operations start)
    (hissued : token ∈ start.world.issued)
    (hrun : Run (GuardedAnswer environment requests token) start trace pool) :
    Revoked environment token pool.world trace := by
  induction hrun with
  | refl => exact ⟨hissued, by simp, by simp⟩
  | @step pool trace i c next answer world hbefore hcall hanswer ih =>
    have hkeeps := hbefore.keeps (i := i) (by
      rw [hfresh i]
      exact sessionPerformAll_ownTokens environment (requests i) (operations i))
    rw [hcall] at hkeeps
    exact revoked_step hinjective ih hkeeps.1 hanswer

/-- Once a request has deleted the row of a token, no later load with that token finds a
    session, in every run in which a request that was sent the token stores under it only
    while its row is there. -/
theorem revocation_permanent (hinjective : DigestInjective environment)
    {operations : ι → List SessionOperation} {start pool : SessionPool ι}
    {trace : List (ι × SessionEvent)} (hfresh : Fresh environment requests operations start)
    (hissued : token ∈ start.world.issued)
    (hrun : Run (GuardedAnswer environment requests token) start trace pool) {i : ι} {digest : Bytes}
    (hdigest : sessionDigest environment token = some digest)
    (hdeleted : (i, (⟨.delete digest, true⟩ : SessionEvent)) ∈ trace)
    {later : RequestParse.Request} (hlater : presentedToken environment later = token) :
    LoadFindsNothing environment pool.world later := by
  apply loadFindsNothing_of_absent
  intro other hother
  rw [hlater, hdigest] at hother
  cases hother
  exact (revoked_run hinjective hfresh hissued hrun).absent i digest hdigest hdeleted

end Runs

theorem setBool_commit_leads {token digest data key : Bytes} {row : SessionRow} {now later : ℤ}
    {values : SessionValues} (hsent : presentedToken environment request = token)
    (hdigest : sessionDigest environment token = some digest) (hexpires : now < row.expiresAt)
    (hvalues : sessionDeserialize .empty row.data = (true, values))
    (hset : (values.setValue key (smBool true)).1 = true)
    (hdata : sessionSerialize (values.setValue key (smBool true)).2 = some data)
    (hshort : data.length ≤ SESSION_MAX_BYTES)
    (hcookie : ∀ context : Context, context.responseHeaders = [] →
      (contextSetCookie context environment.sessionCookieName token (sessionStoreOptions environment)).1 =
        true) :
    ∃ final, Leads (sessionPerformAll environment [.setBool key true, .commit] { request := request })
      [⟨.select digest, some (some row)⟩, ⟨.time, now⟩, ⟨.time, later⟩,
        ⟨.replace digest data later (later + environment.sessionTtlSeconds), true⟩]
      (.done ([.done true, .done true], final)) ∧ final.session.token = token := by
  have hload : Leads (sessionEnsure environment { request := request }) _ _ :=
    sessionEnsure_leads rfl (sessionLoad_leads hsent hdigest hexpires hvalues)
  have hfirst : Leads (sessionPerform environment { request := request } (.setBool key true)) _ _ :=
    sessionWith_leads hload
  have htoken : token ≠ [] := token_ne_nil hdigest
  have hwritten : (sessionSet (foundContext { request := request } token row values)
      (values.setValue key (smBool true))) = (true,
        { foundContext { request := request } token row values with
          session := { (foundContext { request := request } token row values).session with
            values := (values.setValue key (smBool true)).2, dirty := true } }) := by
    unfold sessionSet
    rw [hset]
    rfl
  have hstore : Leads (sessionStore environment (sessionSet (foundContext { request := request } token
      row values) (values.setValue key (smBool true))).2) _ _ :=
    sessionStore_leads (by rw [hwritten]; exact hdata) hshort (by rw [hwritten]; exact hdigest) later
      (by rw [hwritten]; exact hcookie _ rfl)
  rw [← sessionCommit_eq_store (by rw [hwritten]; rfl) (by rw [hwritten]) (by rw [hwritten]; rfl)
    (by rw [hwritten]; rfl) (by rw [hwritten]; exact htoken)] at hstore
  have hcommit : Leads (sessionPerform environment _ .commit) _ _ := hstore.bind (.nil _)
  have hall : Leads (sessionPerformAll environment [.setBool key true, .commit] { request := request })
    _ _ := sessionPerformAll_leads hfirst (sessionPerformAll_leads hcommit (.nil _))
  have hfound : (foundContext { request := request } token row values).session.values = values := rfl
  dsimp only at hall
  rw [hfound, hwritten] at hall
  exact ⟨_, hall, rfl⟩

/-- The digest of a token is the token itself here. -/
def sampleEnvironment : Environment where
  sessionCookieName := sv "s"
  sessionTtlSeconds := 60
  isProduction := false
  generichash := some

def sampleToken : Bytes := sv "T"

def sampleRequest : RequestParse.Request := { headers := [⟨sv "Cookie", sv "s=T"⟩] }

def sampleRow : SessionRow := ⟨[1, 0, 0], 0, 0, 100⟩

def sampleWorld : SessionWorld where
  table := Function.update (fun _ => none) sampleToken (some sampleRow)
  issued := [sampleToken]

theorem sample_injective : DigestInjective sampleEnvironment := by
  intro token other digest htoken hother
  unfold sessionDigest at htoken hother
  split_ifs at htoken hother
  exact Option.some.inj (htoken.trans hother.symm)

theorem sample_sent : presentedToken sampleEnvironment sampleRequest = sampleToken := by
  cbv

theorem sample_digest : sessionDigest sampleEnvironment sampleToken = some sampleToken := rfl

theorem sample_cookie (context : Context) (h : context.responseHeaders = []) :
    (contextSetCookie context sampleEnvironment.sessionCookieName sampleToken
      (sessionStoreOptions sampleEnvironment)).1 = true := by
  unfold contextSetCookie contextAddHeader
  rw [h, if_neg (by decide), if_neg (by decide), if_neg (by decide)]

theorem sample_data (key : Bytes) (hkey : key = sv "a" ∨ key = sv "b") :
    (SessionValues.empty.setValue key (smBool true)).1 = true ∧
      sessionSerialize (SessionValues.empty.setValue key (smBool true)).2 =
        some ([1, 0, 1, 0, 1] ++ key ++ [3, 1]) := by
  unfold sessionSerialize
  rw [smIterate_entries]
  rcases hkey with rfl | rfl <;> decide

theorem sample_setBool (key : Bytes) (hkey : key = sv "a" ∨ key = sv "b") (later : ℤ) :
    ∃ final, Leads
      (sessionPerformAll sampleEnvironment [.setBool key true, .commit] { request := sampleRequest })
      [⟨.select sampleToken, some (some sampleRow)⟩, ⟨.time, (1 : ℤ)⟩, ⟨.time, later⟩,
        ⟨.replace sampleToken ([1, 0, 1, 0, 1] ++ key ++ [3, 1]) later (later + 60), true⟩]
      (.done ([.done true, .done true], final)) ∧ final.session.token = sampleToken := by
  obtain ⟨hset, hdata⟩ := sample_data key hkey
  exact setBool_commit_leads sample_sent sample_digest (by decide) rfl hset hdata
    (by rcases hkey with rfl | rfl <;> decide) sample_cookie

theorem sample_destroy :
    ∃ result, Leads (sessionPerformAll sampleEnvironment [.destroy] { request := sampleRequest })
      [⟨.select sampleToken, some (some sampleRow)⟩, ⟨.time, (1 : ℤ)⟩, ⟨.delete sampleToken, true⟩]
      (.done result) := by
  have hload : Leads (sessionEnsure sampleEnvironment { request := sampleRequest })
      [⟨.select sampleToken, some (some sampleRow)⟩, ⟨.time, (1 : ℤ)⟩] _ :=
    sessionEnsure_leads rfl (sessionLoad_leads sample_sent sample_digest (by decide) rfl)
  have hdestroy : Leads (sessionPerform sampleEnvironment { request := sampleRequest } .destroy) _ _ :=
    (sessionDestroy_leads hload sample_digest).bind (.nil _)
  exact ⟨_, sessionPerformAll_leads hdestroy (.nil _)⟩

theorem sample_table : sampleWorld.table sampleToken = some sampleRow := by
  simp [sampleWorld]

theorem sample_select :
    SessionAnswers sampleWorld (.select sampleToken) (some (some sampleRow)) sampleWorld := by
  rw [← sample_table]
  exact .select sampleToken

/-- One request destroys the session, and another, which sets a boolean in it, has it loaded. -/
def sampleOperations : Bool → List SessionOperation
  | false => [.setBool (sv "a") true, .commit]
  | true => [.destroy]

def sampleStart (operations : Bool → List SessionOperation) : SessionPool Bool where
  parties i := sessionPerformAll sampleEnvironment (operations i) { request := sampleRequest }
  world := sampleWorld

/-- Both requests have loaded the session. The one that sets a boolean commits, and the other then
destroys the session. -/
def destruction : List (Bool × SessionEvent) :=
  [(true, ⟨.select sampleToken, some (some sampleRow)⟩), (true, ⟨.time, (1 : ℤ)⟩),
    (false, ⟨.select sampleToken, some (some sampleRow)⟩), (false, ⟨.time, (1 : ℤ)⟩),
    (false, ⟨.time, (2 : ℤ)⟩),
    (false, ⟨.replace sampleToken [1, 0, 1, 0, 1, 97, 3, 1] 2 62, true⟩),
    (true, ⟨.delete sampleToken, true⟩)]

def resurrection : List (Bool × SessionEvent) :=
  [(false, ⟨.select sampleToken, some (some sampleRow)⟩), (false, ⟨.time, (1 : ℤ)⟩),
    (true, ⟨.select sampleToken, some (some sampleRow)⟩), (true, ⟨.time, (1 : ℤ)⟩),
    (true, ⟨.delete sampleToken, true⟩), (false, ⟨.time, (2 : ℤ)⟩),
    (false, ⟨.replace sampleToken [1, 0, 1, 0, 1, 97, 3, 1] 2 62, true⟩)]

theorem revocation_permanent_destruction : ∃ pool : SessionPool Bool,
    Run (GuardedAnswer sampleEnvironment (fun _ => sampleRequest) sampleToken)
      (sampleStart sampleOperations) destruction pool ∧
      LoadFindsNothing sampleEnvironment pool.world sampleRequest := by
  obtain ⟨setter, hsetter, -⟩ := sample_setBool (sv "a") (.inl rfl) 2
  obtain ⟨destroyer, hdestroyer⟩ := sample_destroy
  have hleads : ∀ i, Leads ((sampleStart sampleOperations).parties i) (own i destruction)
      (match i with | false => .done ([.done true, .done true], setter) | true => .done destroyer) := by
    intro i
    cases i with
    | false => exact hsetter
    | true => exact hdestroyer
  have hstores : ∀ (world : SessionWorld) (i : Bool) (c : SessionCall),
      (∀ digest data now expiresAt, c ≠ .replace digest data now expiresAt) →
        StoresOverRow sampleEnvironment (fun _ => sampleRequest) sampleToken world i c := by
    intro world i c hc _ digest data now expiresAt hreplace
    exact absurd hreplace (hc digest data now expiresAt)
  -- the row is still there when the boolean is stored
  have hcommit : StoresOverRow sampleEnvironment (fun _ : Bool => sampleRequest) sampleToken sampleWorld false
      (.replace sampleToken [1, 0, 1, 0, 1, 97, 3, 1] 2 62) := by
    intro _ digest data now expiresAt hreplace _
    cases hreplace
    rw [sample_table]
    exact Option.some_ne_none _
  have hdeleted : Accepted (GuardedAnswer sampleEnvironment (fun _ : Bool => sampleRequest) sampleToken)
      { sampleWorld with
        table := tableReplace sampleWorld.table sampleToken [1, 0, 1, 0, 1, 97, 3, 1] 2 62 }
      [(true, ⟨.delete sampleToken, true⟩)] _ :=
    Accepted.nil.cons ⟨.delete sampleToken, hstores _ _ _ (by simp)⟩
  have haccepted : Accepted (GuardedAnswer sampleEnvironment (fun _ : Bool => sampleRequest) sampleToken)
      sampleWorld destruction _ :=
    (((((hdeleted.cons ⟨.replace sampleToken _ 2 62, hcommit⟩).cons
      ⟨.time 2, hstores _ _ _ (by simp)⟩).cons ⟨.time 1, hstores _ _ _ (by simp)⟩).cons
        ⟨sample_select, hstores _ _ _ (by simp)⟩).cons ⟨.time 1, hstores _ _ _ (by simp)⟩).cons
          ⟨sample_select, hstores _ _ _ (by simp)⟩
  have hrun := run_of_leads hleads haccepted
  exact ⟨_, hrun, revocation_permanent sample_injective (fun _ => rfl) List.mem_cons_self hrun
    sample_digest (i := true) (by simp [destruction]) sample_sent⟩

theorem resurrection_run : ∃ pool : SessionPool Bool,
    Run AnyAnswer (sampleStart sampleOperations) resurrection pool ∧
      pool.world.table sampleToken = some ⟨[1, 0, 1, 0, 1, 97, 3, 1], 2, 2, 62⟩ := by
  obtain ⟨setter, hsetter, -⟩ := sample_setBool (sv "a") (.inl rfl) 2
  obtain ⟨destroyer, hdestroyer⟩ := sample_destroy
  have hleads : ∀ i, Leads ((sampleStart sampleOperations).parties i) (own i resurrection)
      (match i with | false => .done ([.done true, .done true], setter) | true => .done destroyer) := by
    intro i
    cases i with
    | false => exact hsetter
    | true => exact hdestroyer
  have haccepted : Accepted AnyAnswer sampleWorld resurrection _ :=
    ((((((Accepted.nil.cons (.replace sampleToken _ 2 62)).cons (.time 2)).cons
      (.delete sampleToken)).cons (.time 1)).cons sample_select).cons (.time 1)).cons sample_select
  refine ⟨_, run_of_leads hleads haccepted, ?_⟩
  dsimp only
  rw [tableReplace, Function.update_self, tableDelete, Function.update_self]
  rfl

/-- Without that condition the property fails: a commit brings a destroyed session back. -/
theorem revocation_undone :
    ¬ ∀ (environment : Environment) (requests : Bool → RequestParse.Request)
      (operations : Bool → List SessionOperation) (token : Bytes) (start pool : SessionPool Bool)
      (trace : List (Bool × SessionEvent)), DigestInjective environment →
      Fresh environment requests operations start → token ∈ start.world.issued →
      Run AnyAnswer start trace pool → ∀ i digest later,
      sessionDigest environment token = some digest →
      (i, (⟨.delete digest, true⟩ : SessionEvent)) ∈ trace →
      presentedToken environment later = token → LoadFindsNothing environment pool.world later := by
  intro hclaim
  obtain ⟨pool, hrun, hrow⟩ := resurrection_run
  have hnothing := hclaim sampleEnvironment (fun _ => sampleRequest) sampleOperations sampleToken _ pool _
    sample_injective (fun _ => rfl) List.mem_cons_self hrun true sampleToken sampleRequest
    sample_digest (by simp [resurrection]) sample_sent
  have hselect : SessionAnswers pool.world _ _ _ := .select sampleToken
  rw [hrow] at hselect
  have hvalues : sessionDeserialize .empty [1, 0, 1, 0, 1, 97, 3, 1] =
      (true, (sessionDeserialize .empty [1, 0, 1, 0, 1, 97, 3, 1]).2) := Prod.ext (by decide) rfl
  have hfound := hnothing _ _ _ _ hselect (sessionLoad_leads sample_sent sample_digest
    (show (3 : ℤ) < 62 by decide) hvalues)
  have htoken : sampleToken = [] := congrArg Session.token hfound
  cases htoken

end Ceasy.Sessions
