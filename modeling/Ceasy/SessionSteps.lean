import Ceasy.Session

set_option autoImplicit false

/-!
# What a session does

One lemma says what each function of the session can do: the calls it makes, and
the session it leaves. Invariants over runs are derived from these alone.
-/
namespace Ceasy.Sessions
open StringView Collection Dialogue

variable {environment : Environment} {context : Context} {history : List SessionEvent}
  {safe : List SessionEvent → SessionCall → Prop}

theorem token_ne_nil {token digest : Bytes} (h : sessionDigest environment token = some digest) :
    token ≠ [] := by
  intro hempty
  rw [hempty] at h
  cases h

def loadedContext (context : Context) : Context :=
  { context with session := { context.session with loaded := true } }

/-- The session as it is after a row has been found and decoded. -/
def foundContext (context : Context) (cookie : Bytes) (row : SessionRow) (values : SessionValues) :
    Context :=
  { context with session := { context.session with
    loaded := true
    values := values
    token := cookie
    expiresAt := row.expiresAt
    existing := true } }

/-- The calls of `session_load` and what comes of them. -/
inductive LoadResult (environment : Environment) (context : Context) (cookie : Bytes) :
    List SessionEvent → Bool × Context → Prop where
  | noCookie (h : sessionDigest environment cookie = none) :
    LoadResult environment context cookie [] (true, loadedContext context)
  | failed {digest : Bytes} (h : sessionDigest environment cookie = some digest) :
    LoadResult environment context cookie [⟨.select digest, none⟩] (false, loadedContext context)
  | absent {digest : Bytes} (h : sessionDigest environment cookie = some digest) :
    LoadResult environment context cookie [⟨.select digest, some none⟩] (true, loadedContext context)
  | expired {digest : Bytes} {row : SessionRow} {now : ℤ} (deleted : Bool)
    (h : sessionDigest environment cookie = some digest) (hexpired : row.expiresAt ≤ now) :
    LoadResult environment context cookie
      [⟨.select digest, some (some row)⟩, ⟨.time, now⟩, ⟨.delete digest, deleted⟩]
      (true, loadedContext context)
  | undecoded {digest : Bytes} {row : SessionRow} (now : ℤ) (deleted : Bool) {values : SessionValues}
    (h : sessionDigest environment cookie = some digest)
    (hvalues : sessionDeserialize context.session.values row.data = (false, values)) :
    LoadResult environment context cookie
      [⟨.select digest, some (some row)⟩, ⟨.time, now⟩, ⟨.delete digest, deleted⟩]
      (true, { loadedContext context with
        session := { (loadedContext context).session with values := values } })
  | found {digest : Bytes} {row : SessionRow} {now : ℤ} {values : SessionValues}
    (h : sessionDigest environment cookie = some digest) (hexpires : now < row.expiresAt)
    (hvalues : sessionDeserialize context.session.values row.data = (true, values)) :
    LoadResult environment context cookie [⟨.select digest, some (some row)⟩, ⟨.time, now⟩]
      (true, foundContext context cookie row values)

theorem LoadResult.loaded {cookie : Bytes} {events : List SessionEvent} {result : Bool × Context}
    (h : LoadResult environment context cookie events result) :
    result.2.session.loaded = true := by
  cases h <;> rfl

def StoresNothing (safe : List SessionEvent → SessionCall → Prop) : Prop :=
  ∀ history c, (∀ digest data now expiresAt, c ≠ .replace digest data now expiresAt) → safe history c

theorem sessionDeleteDigest_eq {token digest : Bytes}
    (h : sessionDigest environment token = some digest) :
    sessionDeleteDigest environment token = .call (.delete digest) fun success => .done success := by
  rw [sessionDeleteDigest, h]

theorem sessionLoad_eq (environment : Environment) (context : Context) :
    sessionLoad environment context =
      match sessionDigest environment (contextCookie context environment.sessionCookieName) with
      | none => .done (true, loadedContext context)
      | some digest =>
        .call (.select digest) fun step =>
          match step with
          | none => .done (false, loadedContext context)
          | some none => .done (true, loadedContext context)
          | some (some row) =>
            sessionLoadRow environment (loadedContext context)
              (contextCookie context environment.sessionCookieName) row := rfl

theorem sessionLoadRow_keeps (hsafe : StoresNothing safe) (history : List SessionEvent)
    {cookie digest : Bytes} {row : SessionRow} (hdigest : sessionDigest environment cookie = some digest) :
    Keeps safe (After history fun events result =>
      LoadResult environment context cookie (⟨.select digest, some (some row)⟩ :: events) result)
      history (sessionLoadRow environment (loadedContext context) cookie row) := by
  have hdelete := sessionDeleteDigest_eq hdigest
  apply keeps_after_call (hsafe _ _ (by simp))
  intro now
  dsimp only
  by_cases hexpired : row.expiresAt ≤ now
  · rw [if_pos hexpired, hdelete]
    apply keeps_after_call (hsafe _ _ (by simp))
    intro deleted
    exact keeps_after_done (.expired deleted hdigest hexpired)
  · rw [if_neg hexpired]
    cases hvalues : sessionDeserialize (loadedContext context).session.values row.data with
    | mk decoded values =>
      cases decoded with
      | true => exact keeps_after_done (.found hdigest (Int.not_le.mp hexpired) hvalues)
      | false =>
        dsimp only
        rw [Bool.not_false, if_pos rfl, hdelete]
        apply keeps_after_call (hsafe _ _ (by simp))
        intro deleted
        exact keeps_after_done (.undecoded now deleted hdigest hvalues)

theorem sessionLoad_keeps (hsafe : StoresNothing safe) (history : List SessionEvent) :
    Keeps safe (After history (LoadResult environment context
      (contextCookie context environment.sessionCookieName))) history (sessionLoad environment context) := by
  rw [sessionLoad_eq]
  cases hdigest : sessionDigest environment (contextCookie context environment.sessionCookieName) with
  | none => exact keeps_after_done (.noCookie hdigest)
  | some digest =>
    apply keeps_after_call (hsafe _ _ (by simp))
    intro step
    cases step with
    | none => exact keeps_after_done (.failed hdigest)
    | some found =>
      cases found with
      | none => exact keeps_after_done (.absent hdigest)
      | some row => exact sessionLoadRow_keeps hsafe _ hdigest

/-- What `session_ensure` has done. -/
inductive EnsureResult (environment : Environment) (context : Context) :
    List SessionEvent → Bool × Context → Prop where
  | already (h : context.session.loaded = true) : EnsureResult environment context [] (true, context)
  | load {events : List SessionEvent} {result : Bool × Context} (h : context.session.loaded = false)
    (hload : LoadResult environment context (contextCookie context environment.sessionCookieName)
      events result) : EnsureResult environment context events result

theorem EnsureResult.loaded {events : List SessionEvent} {result : Bool × Context}
    (h : EnsureResult environment context events result) : result.2.session.loaded = true := by
  cases h with
  | already h => exact h
  | load _ hload => exact hload.loaded

theorem sessionEnsure_keeps (hsafe : StoresNothing safe) (history : List SessionEvent) :
    Keeps safe (After history (EnsureResult environment context)) history
      (sessionEnsure environment context) := by
  unfold sessionEnsure
  cases hloaded : context.session.loaded with
  | true => exact keeps_after_done (.already hloaded)
  | false =>
    apply (sessionLoad_keeps hsafe history).after_mono
    intro events result hload
    exact .load hloaded hload

def storedEntry : SessionOperation → Option (Bytes × StringMapData Unit)
  | .setString key (some value) => some (key, .string value)
  | .setInt64 key value => some (key, .int64 value)
  | .setBool key value => some (key, .bool value)
  | _ => none

def refusal : SessionOperation → SessionAnswer
  | .getString _ => .string none
  | .getInt64 _ | .userId => .int64 none
  | .getBool _ => .bool none
  | _ => .done false

/-- The operations that only ask. -/
def Reads : SessionOperation → Prop
  | .getString _ | .getInt64 _ | .getBool _ | .userId | .signedIn => True
  | _ => False

inductive SessionUpdate (session : Session) : SessionOperation → SessionAnswer → Session → Prop where
  | set {operation : SessionOperation} {key : Bytes} {data : StringMapData Unit}
    {values : SessionValues} (hentry : storedEntry operation = some (key, data))
    (h : values.contents = Function.update session.values.contents key (some data)) :
    SessionUpdate session operation (.done true)
      { session with values := values, destroy := false, dirty := true }
  | refused {operation : SessionOperation} {values : SessionValues}
    (h : values.contents = session.values.contents) :
    SessionUpdate session operation (.done false) { session with values := values }
  | read {operation : SessionOperation} (answer : SessionAnswer) (h : Reads operation) :
    SessionUpdate session operation answer session
  | delete {key : Bytes} {values : SessionValues}
    (h : values.contents = Function.update session.values.contents key none) :
    SessionUpdate session (.delete key) (.done true)
      { session with values := values, dirty := session.dirty || (session.values.contents key).isSome }
  | clear : SessionUpdate session .clear (.done true)
      { session with values := session.values.clear, dirty := true }
  | regenerate : SessionUpdate session .regenerate (.done true)
      { session with regenerate := true, dirty := true }
  | login {userId : Int64} {values : SessionValues}
    (h : values.contents = Function.update session.values.contents AUTH_USER_KEY (some (.int64 userId))) :
    SessionUpdate session (.login userId) (.done true)
      { session with values := values, regenerate := true, destroy := false, dirty := true }
  | loginRefused {userId : Int64} {values : SessionValues}
    (h : values.contents = session.values.contents) :
    SessionUpdate session (.login userId) (.done false)
      { session with values := values, regenerate := true, dirty := true }

def InMemory : SessionOperation → Prop
  | .destroy | .logout | .commit => False
  | _ => True

theorem sessionSet_update {operation : SessionOperation} {key : Bytes} {data : StringMapData Unit}
    {result : Bool × SessionValues} (hentry : storedEntry operation = some (key, data))
    (h : SessionValues.Stored context.session.values key data result) :
    ∃ session, (sessionSet context result).2 = { context with session := session } ∧
      SessionUpdate context.session operation (.done (sessionSet context result).1) session := by
  unfold sessionSet
  cases hok : result.1 with
  | true => exact ⟨_, rfl, .set hentry (h.done hok)⟩
  | false => exact ⟨_, rfl, .refused (h.refused hok)⟩

/-- A result of an operation that works in memory once the session is loaded. -/
inductive MemoryResult (environment : Environment) (context : Context) (operation : SessionOperation) :
    List SessionEvent → SessionAnswer × Context → Prop where
  | update {events : List SessionEvent} {loaded : Context} {answer : SessionAnswer} {session : Session}
    (hensure : EnsureResult environment context events (true, loaded))
    (hupdate : SessionUpdate loaded.session operation answer session) :
    MemoryResult environment context operation events (answer, { loaded with session := session })
  | notLoaded {events : List SessionEvent} {loaded : Context}
    (hensure : EnsureResult environment context events (false, loaded)) :
    MemoryResult environment context operation events (refusal operation, loaded)
  | noUser {userId : Int64} (hoperation : operation = .login userId) :
    MemoryResult environment context operation [] (.done false, context)

theorem sessionWith_keeps {R : Type} {operation : SessionOperation} {answer : R → SessionAnswer}
    {refused : R} {work : Context → R × Context} (hsafe : StoresNothing safe)
    (history : List SessionEvent) (hrefused : answer refused = refusal operation)
    (hwork : ∀ loaded : Context, ∃ session, (work loaded).2 = { loaded with session := session } ∧
      SessionUpdate loaded.session operation (answer (work loaded).1) session) :
    Keeps safe (After history (MemoryResult environment context operation)) history
      (answered answer (sessionWith environment context refused work)) := by
  unfold answered sessionWith
  rw [bind_assoc]
  apply (sessionEnsure_keeps hsafe history).after_bind
  intro events loaded hensure
  rw [done_bind]
  obtain ⟨ok, loaded⟩ := loaded
  cases ok with
  | true =>
    obtain ⟨session, hsession, hupdate⟩ := hwork loaded
    apply keeps_after_done
    rw [List.append_nil, if_pos rfl, hsession]
    exact .update hensure hupdate
  | false =>
    apply keeps_after_done
    rw [List.append_nil, if_neg (by simp), hrefused]
    exact .notLoaded hensure

theorem sessionPerform_read {R : Type} {operation : SessionOperation} (hoperation : Reads operation)
    {answer : R → SessionAnswer} {refused : R} {found : Context → R} (hsafe : StoresNothing safe)
    (history : List SessionEvent) (hrefused : answer refused = refusal operation) :
    Keeps safe (After history (MemoryResult environment context operation)) history
      (answered answer (sessionWith environment context refused
        fun context => (found context, context))) :=
  sessionWith_keeps hsafe history hrefused fun loaded => ⟨loaded.session, rfl, .read _ hoperation⟩

theorem answered_bind {R S : Type} (answer : S → SessionAnswer) (f : R → S)
    (d : SessionDialogue (R × Context)) :
    answered answer (d.bind fun result => .done (f result.1, result.2)) =
      answered (fun result => answer (f result)) d := bind_assoc d _ _

theorem authLogin_keeps (hsafe : StoresNothing safe) (history : List SessionEvent) (userId : Int64) :
    Keeps safe (After history (MemoryResult environment context (.login userId))) history
      (answered .done (authLogin environment context userId)) := by
  unfold answered authLogin
  by_cases huser : userId ≤ 0
  · rw [if_pos huser]
    exact keeps_after_done (.noUser rfl)
  rw [if_neg huser, sessionRegenerate, sessionWith, bind_assoc, bind_assoc]
  apply (sessionEnsure_keeps hsafe history).after_bind
  intro events loaded hensure
  obtain ⟨ok, loaded⟩ := loaded
  have hloaded : loaded.session.loaded = true := hensure.loaded
  cases ok with
  | false =>
    apply keeps_after_done
    rw [List.append_nil]
    exact .notLoaded hensure
  | true =>
    have hstored := loaded.session.values.setValue_stored AUTH_USER_KEY (smInt userId) rfl
    rw [done_bind, if_pos rfl]
    dsimp only
    rw [Bool.not_true, if_neg (by simp), sessionSetInt64, sessionWith, sessionEnsure]
    dsimp only
    rw [if_pos hloaded, done_bind, if_pos rfl, done_bind]
    apply keeps_after_done
    rw [List.append_nil]
    unfold sessionSet
    dsimp only
    cases hok : (loaded.session.values.setValue AUTH_USER_KEY (smInt userId)).1 with
    | true => exact .update hensure (.login (hstored.done hok))
    | false => exact .update hensure (.loginRefused (hstored.refused hok))

theorem sessionPerform_memory (hsafe : StoresNothing safe) (history : List SessionEvent)
    {operation : SessionOperation} (hoperation : InMemory operation) :
    Keeps safe (After history (MemoryResult environment context operation)) history
      (sessionPerform environment context operation) := by
  cases operation with
  | setString key value =>
    refine sessionWith_keeps hsafe history (by rfl) ?_
    intro loaded
    cases value with
    | none => exact ⟨loaded.session, rfl, .refused rfl⟩
    | some value =>
      dsimp only
      split_ifs
      · exact ⟨loaded.session, rfl, .refused rfl⟩
      · exact sessionSet_update rfl (loaded.session.values.setStringView_stored key value)
  | setInt64 key value =>
    refine sessionWith_keeps hsafe history (by rfl) ?_
    intro loaded
    exact sessionSet_update rfl (loaded.session.values.setValue_stored key (smInt value) rfl)
  | setBool key value =>
    refine sessionWith_keeps hsafe history (by rfl) ?_
    intro loaded
    exact sessionSet_update rfl (loaded.session.values.setValue_stored key (smBool value) rfl)
  | getString key => exact sessionPerform_read (show Reads (.getString key) from trivial) hsafe history (by rfl)
  | getInt64 key => exact sessionPerform_read (show Reads (.getInt64 key) from trivial) hsafe history (by rfl)
  | getBool key => exact sessionPerform_read (show Reads (.getBool key) from trivial) hsafe history (by rfl)
  | delete key =>
    refine sessionWith_keeps hsafe history (by rfl) ?_
    intro loaded
    refine ⟨_, rfl, ?_⟩
    dsimp only
    rw [SessionValues.remove_answer]
    exact .delete (loaded.session.values.remove_contents key)
  | clear =>
    refine sessionWith_keeps hsafe history (by rfl) ?_
    intro loaded
    exact ⟨_, rfl, .clear⟩
  | regenerate =>
    refine sessionWith_keeps hsafe history (by rfl) ?_
    intro loaded
    exact ⟨_, rfl, .regenerate⟩
  | login userId => exact authLogin_keeps hsafe history userId
  | userId =>
    rw [sessionPerform, authUserId, answered_bind]
    exact sessionPerform_read (show Reads .userId from trivial) hsafe history (by rfl)
  | signedIn =>
    rw [sessionPerform, authSignedIn, answered_bind, authUserId, answered_bind]
    exact sessionPerform_read (show Reads .signedIn from trivial) hsafe history (by rfl)
  | destroy => exact hoperation.elim
  | logout => exact hoperation.elim
  | commit => exact hoperation.elim

/-- The calls of `session_delete_digest` and whether the row is gone. -/
inductive DeleteResult (environment : Environment) (token : Bytes) : List SessionEvent → Bool → Prop where
  | noDigest (h : sessionDigest environment token = none) : DeleteResult environment token [] false
  | called {digest : Bytes} (h : sessionDigest environment token = some digest) (success : Bool) :
    DeleteResult environment token [⟨.delete digest, success⟩] success

theorem sessionDeleteDigest_keeps (hsafe : StoresNothing safe) (history : List SessionEvent)
    (token : Bytes) :
    Keeps safe (After history (DeleteResult environment token)) history
      (sessionDeleteDigest environment token) := by
  cases hdigest : sessionDigest environment token with
  | none =>
    rw [sessionDeleteDigest, hdigest]
    exact keeps_after_done (.noDigest hdigest)
  | some digest =>
    rw [sessionDeleteDigest_eq hdigest]
    apply keeps_after_call (hsafe _ _ (by simp))
    intro success
    exact keeps_after_done (.called hdigest success)

def endedSession (session : Session) : Session :=
  { session with
    values := session.values.clear
    destroy := true
    regenerate := true
    dirty := false
    existing := false }

theorem sessionEnd_session (environment : Environment) (context : Context) :
    (sessionEnd environment context).request = context.request ∧
      (sessionEnd environment context).session = endedSession context.session :=
  contextSetCookie_session { context with session := endedSession context.session }
    environment.sessionCookieName [] { sessionEndOptions environment with maxAge := 0 }

theorem deletionText_valid (hname : cookieToken environment.sessionCookieName = true) :
    contextHeaderValueValid (cookieText environment.sessionCookieName []
      { sessionEndOptions environment with maxAge := 0 }) = true := by
  obtain ⟨hreturn, hnewline⟩ := cookieToken_valid hname
  have hrest : ∃ rest, cookieText environment.sessionCookieName []
      { sessionEndOptions environment with maxAge := 0 } = environment.sessionCookieName ++ rest ∧
        ch '\r' ∉ rest ∧ ch '\n' ∉ rest := by
    unfold cookieText sessionEndOptions
    cases environment.isProduction with
    | false =>
      refine ⟨sv "=; Path=/; Max-Age=0; HttpOnly; SameSite=Lax", ?_, by decide, by decide⟩
      simp only [List.append_assoc]
      rfl
    | true =>
      refine ⟨sv "=; Path=/; Max-Age=0; HttpOnly; Secure; SameSite=Lax", ?_, by decide, by decide⟩
      simp only [List.append_assoc]
      rfl
  obtain ⟨rest, htext, hreturn', hnewline'⟩ := hrest
  rw [contextHeaderValueValid_iff, htext, List.mem_append, List.mem_append]
  exact ⟨not_or.mpr ⟨hreturn, hreturn'⟩, not_or.mpr ⟨hnewline, hnewline'⟩⟩

/-- Where the session's cookie has a valid name, a response that ends the session says so. -/
theorem sessionEnd_cookie (hname : cookieToken environment.sessionCookieName = true) (context : Context) :
    (sessionEnd environment context).responseHeaders ≠ [] := by
  have hvalid := deletionText_valid hname
  change (contextSetCookie { context with session := endedSession context.session }
    environment.sessionCookieName [] { sessionEndOptions environment with maxAge := 0 }).2.responseHeaders ≠ []
  rcases contextSetCookie_cases { context with session := endedSession context.session }
    environment.sessionCookieName [] { sessionEndOptions environment with maxAge := 0 } with h | h
  · intro hempty
    rw [h] at hempty
    have hheaders : context.responseHeaders = [] := hempty
    unfold contextSetCookie contextAddHeader at h
    dsimp only at h
    have hpath : (sessionEndOptions environment).path = sv "/" := rfl
    have hdomain : (sessionEndOptions environment).domain = [] := rfl
    rw [hname, hheaders, hvalid, if_neg (by rw [hpath, hdomain]; decide), if_neg (by decide),
      if_neg (by simp [cookieText])] at h
    cases h
  · rw [h]
    simp

inductive DestroyResult (environment : Environment) (context : Context) :
    List SessionEvent → Bool × Context → Prop where
  | notLoaded {events : List SessionEvent} {loaded : Context}
    (hensure : EnsureResult environment context events (false, loaded)) :
    DestroyResult environment context events (false, loaded)
  | noToken {events : List SessionEvent} {loaded : Context}
    (hensure : EnsureResult environment context events (true, loaded))
    (htoken : loaded.session.token = []) :
    DestroyResult environment context events (true, sessionEnd environment loaded)
  | refused {events more : List SessionEvent} {loaded : Context}
    (hensure : EnsureResult environment context events (true, loaded))
    (hdelete : DeleteResult environment loaded.session.token more false) :
    DestroyResult environment context (events ++ more) (false, loaded)
  | removed {events more : List SessionEvent} {loaded : Context}
    (hensure : EnsureResult environment context events (true, loaded))
    (hdelete : DeleteResult environment loaded.session.token more true) :
    DestroyResult environment context (events ++ more) (true, sessionEnd environment loaded)

theorem sessionDestroy_keeps (hsafe : StoresNothing safe) (history : List SessionEvent) :
    Keeps safe (After history (DestroyResult environment context)) history
      (sessionDestroy environment context) := by
  unfold sessionDestroy
  apply (sessionEnsure_keeps hsafe history).after_bind
  intro events loaded hensure
  obtain ⟨ok, loaded⟩ := loaded
  cases ok with
  | false =>
    apply keeps_after_done
    rw [List.append_nil]
    exact .notLoaded hensure
  | true =>
    dsimp only
    rw [Bool.not_true, if_neg (by simp)]
    by_cases htoken : 0 < loaded.session.token.length
    · rw [if_pos htoken]
      apply (sessionDeleteDigest_keeps hsafe _ _).after_bind
      intro more success hdelete
      apply keeps_after_done
      rw [List.append_nil]
      cases success with
      | true => exact .removed hensure hdelete
      | false => exact .refused hensure hdelete
    · rw [if_neg htoken]
      apply keeps_after_done
      rw [List.append_nil]
      exact .noToken hensure (List.length_eq_zero_iff.mp (by omega))

/-- The first part of a commit: the row of a token that is given up is deleted. -/
inductive RemovalResult (environment : Environment) (context : Context) :
    List SessionEvent → Bool → Prop where
  | kept (h : context.session.regenerate = false ∨ context.session.token = []) :
    RemovalResult environment context [] true
  | removed {events : List SessionEvent} {deleted : Bool} (hregenerate : context.session.regenerate = true)
    (hdelete : DeleteResult environment context.session.token events deleted) :
    RemovalResult environment context events deleted

def tokenContext (context : Context) (token : Bytes) : Context :=
  { context with session := { context.session with token := token } }

/-- The second part: a token is issued where there is none to keep. -/
inductive GenerationResult (context : Context) : List SessionEvent → Bool × Context → Prop where
  | kept (htoken : context.session.token ≠ []) (hregenerate : context.session.regenerate = false) :
    GenerationResult context [] (true, context)
  | failed : GenerationResult context [⟨.randomToken, none⟩] (false, context)
  | issued (token : Bytes) :
    GenerationResult context [⟨.randomToken, some token⟩] (true, tokenContext context token)

def expiryContext (context : Context) (expiresAt : ℤ) : Context :=
  { context with session := { context.session with expiresAt := expiresAt } }

/-- The context of a request whose session has been stored and whose cookie has been set. -/
def committedContext (environment : Environment) (context : Context) (expiresAt : ℤ) : Context :=
  { context with
    responseHeaders := context.responseHeaders ++ [⟨sv "Set-Cookie",
      cookieText environment.sessionCookieName context.session.token (sessionStoreOptions environment)⟩]
    session := { context.session with
      expiresAt := expiresAt, existing := true, dirty := false, regenerate := false } }

inductive StoreResult (environment : Environment) (context : Context) :
    List SessionEvent → Bool × Context → Prop where
  | refused : StoreResult environment context [] (false, context)
  | failed {digest data : Bytes} (hdigest : sessionDigest environment context.session.token = some digest)
    (now : ℤ) (success : Bool) :
    StoreResult environment context
      [⟨.time, now⟩, ⟨.replace digest data now (now + environment.sessionTtlSeconds), success⟩]
      (false, expiryContext context (now + environment.sessionTtlSeconds))
  | stored {digest data : Bytes} (hdata : sessionSerialize context.session.values = some data)
    (hdigest : sessionDigest environment context.session.token = some digest)
    (hname : cookieToken environment.sessionCookieName = true) (now : ℤ) :
    StoreResult environment context
      [⟨.time, now⟩, ⟨.replace digest data now (now + environment.sessionTtlSeconds), true⟩]
      (true, committedContext environment context (now + environment.sessionTtlSeconds))

theorem sessionStore_keeps (hsafe : StoresNothing safe) (history : List SessionEvent)
    (hreplace : ∀ digest data now expiresAt,
      sessionDigest environment context.session.token = some digest →
        safe (history ++ [⟨.time, now⟩]) (.replace digest data now expiresAt)) :
    Keeps safe (After history (StoreResult environment context)) history
      (sessionStore environment context) := by
  unfold sessionStore
  cases hdata : sessionSerialize context.session.values with
  | none => exact keeps_after_done .refused
  | some data =>
    dsimp only
    split_ifs
    · exact keeps_after_done .refused
    cases hdigest : sessionDigest environment context.session.token with
    | none => exact keeps_after_done .refused
    | some digest =>
      apply keeps_after_call (hsafe _ _ (by simp))
      intro now
      apply keeps_after_call (hreplace digest data now _ hdigest)
      intro success
      cases success with
      | false => exact keeps_after_done (.failed hdigest now false)
      | true =>
        rw [Bool.not_true, if_neg (by simp)]
        rcases contextSetCookie_cases
          (expiryContext context (now + environment.sessionTtlSeconds)) environment.sessionCookieName
          context.session.token (sessionStoreOptions environment) with hcookie | hcookie
        · unfold expiryContext at hcookie
          rw [hcookie]
          exact keeps_after_done (.failed hdigest now true)
        · unfold expiryContext at hcookie
          rw [hcookie]
          exact keeps_after_done (.stored hdata hdigest (contextSetCookie_name (congrArg Prod.fst hcookie)) now)

inductive CommitResult (environment : Environment) (context : Context) :
    List SessionEvent → Bool × Context → Prop where
  | idle (h : context.session.loaded = false ∨ context.session.dirty = false ∨
      context.session.destroy = true) : CommitResult environment context [] (true, context)
  | notRemoved {events : List SessionEvent} (h : RemovalResult environment context events false) :
    CommitResult environment context events (false, context)
  | notIssued {removal generation : List SessionEvent} {generated : Context}
    (hremoval : RemovalResult environment context removal true)
    (hgeneration : GenerationResult context generation (false, generated)) :
    CommitResult environment context (removal ++ generation) (false, generated)
  | ended {removal generation storing : List SessionEvent} {generated : Context}
    {result : Bool × Context} (hdirty : context.session.dirty = true)
    (hdestroy : context.session.destroy = false)
    (hremoval : RemovalResult environment context removal true)
    (hgeneration : GenerationResult context generation (true, generated))
    (hstore : StoreResult environment generated storing result) :
    CommitResult environment context (removal ++ (generation ++ storing)) result

theorem sessionRemoval_keeps (hsafe : StoresNothing safe) (history : List SessionEvent) :
    Keeps safe (After history (RemovalResult environment context)) history
      (if context.session.regenerate && decide (0 < context.session.token.length) then
        sessionDeleteDigest environment context.session.token
      else .done true) := by
  by_cases hboth : context.session.regenerate = true ∧ 0 < context.session.token.length
  · rw [if_pos (by simp [hboth])]
    apply (sessionDeleteDigest_keeps hsafe history _).after_mono
    intro events deleted hdelete
    exact .removed hboth.1 hdelete
  · rw [if_neg (by simpa using hboth)]
    apply keeps_after_done
    apply RemovalResult.kept
    cases hregenerate : context.session.regenerate with
    | false => exact .inl rfl
    | true => exact .inr (List.length_eq_zero_iff.mp (by simpa [hregenerate] using hboth))

theorem sessionGeneration_keeps (hsafe : StoresNothing safe) (history : List SessionEvent) :
    Keeps safe (After history (GenerationResult context)) history
      (if decide (context.session.token.length = 0) || context.session.regenerate then
        sessionGenerateToken context
      else .done (true, context)) := by
  by_cases hneither : context.session.token ≠ [] ∧ context.session.regenerate = false
  · rw [if_neg (by simp [hneither])]
    exact keeps_after_done (.kept hneither.1 hneither.2)
  · rw [if_pos (by simpa [or_iff_not_imp_left] using hneither)]
    apply keeps_after_call (hsafe _ _ (by simp))
    intro encoded
    cases encoded with
    | none => exact keeps_after_done .failed
    | some token => exact keeps_after_done (.issued token)

theorem sessionCommit_keeps (hsafe : StoresNothing safe) (history : List SessionEvent)
    (hreplace : ∀ removal generation generated digest data now expiresAt,
      RemovalResult environment context removal true →
      GenerationResult context generation (true, generated) →
      sessionDigest environment generated.session.token = some digest →
        safe (history ++ removal ++ generation ++ [⟨.time, now⟩]) (.replace digest data now expiresAt)) :
    Keeps safe (After history (CommitResult environment context)) history
      (sessionCommit environment context) := by
  unfold sessionCommit
  by_cases hidle : context.session.loaded = false ∨ context.session.dirty = false
  · rw [if_pos (by simpa using hidle)]
    exact keeps_after_done (.idle (hidle.imp_right .inl))
  rw [if_neg (by simpa using hidle)]
  cases hdestroy : context.session.destroy with
  | true => exact keeps_after_done (.idle (.inr (.inr hdestroy)))
  | false =>
    have hdirty : context.session.dirty = true := by
      simpa using (not_or.mp hidle).2
    rw [if_neg (by simp)]
    apply (sessionRemoval_keeps hsafe history).after_bind
    intro removal deleted hremoval
    cases deleted with
    | false =>
      apply keeps_after_done
      rw [List.append_nil]
      exact .notRemoved hremoval
    | true =>
      rw [Bool.not_true, if_neg (by simp)]
      apply (sessionGeneration_keeps hsafe _).after_bind
      intro generation generated hgeneration
      obtain ⟨ok, generated⟩ := generated
      cases ok with
      | false =>
        apply keeps_after_done
        rw [List.append_nil]
        exact .notIssued hremoval hgeneration
      | true =>
        dsimp only
        rw [Bool.not_true, if_neg (by simp)]
        apply (sessionStore_keeps hsafe _ fun digest data now expiresAt hdigest =>
          hreplace _ _ _ _ _ _ _ hremoval hgeneration hdigest).after_mono
        intro storing result hstore
        exact .ended hdirty hdestroy hremoval hgeneration hstore

inductive PerformResult (environment : Environment) (context : Context) (operation : SessionOperation) :
    List SessionEvent → SessionAnswer × Context → Prop where
  | memory {events : List SessionEvent} {result : SessionAnswer × Context}
    (h : MemoryResult environment context operation events result) :
    PerformResult environment context operation events result
  | destroy {events : List SessionEvent} {result : Bool × Context}
    (hoperation : operation = .destroy ∨ operation = .logout)
    (h : DestroyResult environment context events result) :
    PerformResult environment context operation events (.done result.1, result.2)
  | commit {events : List SessionEvent} {result : Bool × Context} (hoperation : operation = .commit)
    (h : CommitResult environment context events result) :
    PerformResult environment context operation events (.done result.1, result.2)

theorem answered_keeps {R : Type} {answer : R → SessionAnswer} {d : SessionDialogue (R × Context)}
    {first : List SessionEvent → R × Context → Prop}
    {result : List SessionEvent → SessionAnswer × Context → Prop}
    (h : Keeps safe (After history first) history d)
    (himp : ∀ events r, first events r → result events (answer r.1, r.2)) :
    Keeps safe (After history result) history (answered answer d) := by
  apply h.after_bind
  intro events r hfirst
  apply keeps_after_done
  rw [List.append_nil]
  exact himp events r hfirst

theorem sessionPerform_keeps (hsafe : StoresNothing safe) (history : List SessionEvent)
    (operation : SessionOperation)
    (hreplace : ∀ removal generation generated digest data now expiresAt,
      RemovalResult environment context removal true →
      GenerationResult context generation (true, generated) →
      sessionDigest environment generated.session.token = some digest →
        safe (history ++ removal ++ generation ++ [⟨.time, now⟩]) (.replace digest data now expiresAt)) :
    Keeps safe (After history (PerformResult environment context operation)) history
      (sessionPerform environment context operation) := by
  by_cases hmemory : InMemory operation
  · apply (sessionPerform_memory hsafe history hmemory).after_mono
    intro events result h
    exact .memory h
  cases operation with
  | destroy =>
    apply answered_keeps (sessionDestroy_keeps hsafe history)
    intro events result h
    exact .destroy (.inl rfl) h
  | logout =>
    apply answered_keeps (sessionDestroy_keeps hsafe history)
    intro events result h
    exact .destroy (.inr rfl) h
  | commit =>
    apply answered_keeps (sessionCommit_keeps hsafe history hreplace)
    intro events result h
    exact .commit rfl h
  | _ => exact absurd trivial hmemory

theorem sessionPerformAll_keeps {Holds : List SessionEvent → Context → Prop}
    {operations : List SessionOperation}
    (hstep : ∀ operation ∈ operations, ∀ history context, Holds history context →
      Keeps safe (fun later result => Holds later result.2) history
        (sessionPerform environment context operation))
    {history : List SessionEvent} {context : Context} (h : Holds history context) :
    Keeps safe (fun later result => Holds later result.2) history
      (sessionPerformAll environment operations context) := by
  induction operations generalizing history context with
  | nil => exact h
  | cons operation operations ih =>
    apply (hstep operation List.mem_cons_self history context h).bind
    intro later first hfirst
    apply (ih (fun other hmem => hstep other (List.mem_cons_of_mem _ hmem)) hfirst).bind
    intro last rest hrest
    exact hrest

theorem sessionLoad_leads {cookie digest : Bytes} {row : SessionRow} {now : ℤ} {values : SessionValues}
    (hcookie : contextCookie context environment.sessionCookieName = cookie)
    (hdigest : sessionDigest environment cookie = some digest) (hexpires : now < row.expiresAt)
    (hvalues : sessionDeserialize context.session.values row.data = (true, values)) :
    Leads (sessionLoad environment context) [⟨.select digest, some (some row)⟩, ⟨.time, now⟩]
      (.done (true, foundContext context cookie row values)) := by
  have hdecoded : sessionDeserialize (loadedContext context).session.values row.data = (true, values) :=
    hvalues
  rw [sessionLoad_eq, hcookie, hdigest]
  apply Leads.cons
  dsimp only
  unfold sessionLoadRow
  apply Leads.cons
  rw [leads_nil_iff, if_neg (Int.not_le.mpr hexpires), hdecoded]
  rfl

theorem sessionEnsure_leads {events : List SessionEvent} {left : SessionDialogue (Bool × Context)}
    (hloaded : context.session.loaded = false) (h : Leads (sessionLoad environment context) events left) :
    Leads (sessionEnsure environment context) events left := by
  rw [sessionEnsure, hloaded, if_neg (by simp)]
  exact h

theorem sessionWith_leads {R : Type} {answer : R → SessionAnswer} {refused : R}
    {work : Context → R × Context} {events : List SessionEvent} {loaded : Context}
    (h : Leads (sessionEnsure environment context) events (.done (true, loaded))) :
    Leads (answered answer (sessionWith environment context refused work)) events
      (.done (answer (work loaded).1, (work loaded).2)) := by
  unfold answered sessionWith
  rw [bind_assoc, ← List.append_nil events]
  apply h.bind
  exact .nil _

theorem sessionDestroy_leads {events : List SessionEvent} {loaded : Context} {digest : Bytes}
    (h : Leads (sessionEnsure environment context) events (.done (true, loaded)))
    (hdigest : sessionDigest environment loaded.session.token = some digest) :
    Leads (sessionDestroy environment context) (events ++ [⟨.delete digest, true⟩])
      (.done (true, sessionEnd environment loaded)) := by
  have htoken : 0 < loaded.session.token.length := by
    by_contra hempty
    rw [sessionDigest, if_neg hempty] at hdigest
    cases hdigest
  apply h.bind
  rw [Bool.not_true, if_neg (by simp), if_pos htoken, sessionDeleteDigest_eq hdigest]
  exact .cons (.nil _)

theorem sessionStore_leads {digest data : Bytes} (hdata : sessionSerialize context.session.values = some data)
    (hshort : data.length ≤ SESSION_MAX_BYTES)
    (hdigest : sessionDigest environment context.session.token = some digest) (now : ℤ)
    (hcookie : (contextSetCookie (expiryContext context (now + environment.sessionTtlSeconds)) environment.sessionCookieName
      context.session.token (sessionStoreOptions environment)).1 = true) :
    Leads (sessionStore environment context)
      [⟨.time, now⟩, ⟨.replace digest data now (now + environment.sessionTtlSeconds), true⟩]
      (.done (true, committedContext environment context (now + environment.sessionTtlSeconds))) := by
  have hset : contextSetCookie (expiryContext context (now + environment.sessionTtlSeconds))
      environment.sessionCookieName context.session.token (sessionStoreOptions environment) =
        (true, { expiryContext context (now + environment.sessionTtlSeconds) with
          responseHeaders := context.responseHeaders ++ [⟨sv "Set-Cookie", cookieText
            environment.sessionCookieName context.session.token (sessionStoreOptions environment)⟩] }) := by
    rcases contextSetCookie_cases _ _ _ _ with h | h
    · rw [h] at hcookie
      cases hcookie
    · exact h
  unfold sessionStore
  rw [hdata]
  dsimp only
  rw [if_neg (Nat.not_lt.mpr hshort), hdigest]
  apply Leads.cons
  apply Leads.cons
  rw [leads_nil_iff, Bool.not_true, if_neg (by simp)]
  unfold expiryContext at hset
  rw [hset]
  rfl

/-- A commit of a session whose token is kept goes straight to storing it. -/
theorem sessionCommit_eq_store (hloaded : context.session.loaded = true)
    (hdirty : context.session.dirty = true) (hdestroy : context.session.destroy = false)
    (hregenerate : context.session.regenerate = false) (htoken : context.session.token ≠ []) :
    sessionCommit environment context = sessionStore environment context := by
  have hlength : context.session.token.length ≠ 0 := fun h => htoken (List.length_eq_zero_iff.mp h)
  unfold sessionCommit
  dsimp only
  rw [hloaded, hdirty, hdestroy, hregenerate, decide_eq_false hlength]
  rfl

theorem sessionCommit_leads_issued (hloaded : context.session.loaded = true)
    (hdirty : context.session.dirty = true) (hdestroy : context.session.destroy = false)
    (htoken : context.session.token = []) {token : Bytes} {events : List SessionEvent}
    {result : Bool × Context}
    (hstore : Leads (sessionStore environment (tokenContext context token)) events (.done result)) :
    Leads (sessionCommit environment context) (⟨.randomToken, some token⟩ :: events) (.done result) := by
  have hlength : context.session.token.length = 0 := List.length_eq_zero_iff.mpr htoken
  unfold sessionCommit
  dsimp only
  rw [hloaded, hdirty, hdestroy, hlength, decide_eq_false (lt_irrefl 0), Bool.and_false]
  exact .cons hstore

/-- The commit of a session that has been renewed: the row of its old token goes first. -/
theorem sessionCommit_leads_renewed (hloaded : context.session.loaded = true)
    (hdirty : context.session.dirty = true) (hdestroy : context.session.destroy = false)
    (hregenerate : context.session.regenerate = true) {token digest : Bytes}
    (hdigest : sessionDigest environment context.session.token = some digest) {events : List SessionEvent}
    {result : Bool × Context}
    (hstore : Leads (sessionStore environment (tokenContext context token)) events (.done result)) :
    Leads (sessionCommit environment context)
      (⟨.delete digest, true⟩ :: ⟨.randomToken, some token⟩ :: events) (.done result) := by
  have htoken : 0 < context.session.token.length := List.length_pos_iff.mpr (token_ne_nil hdigest)
  unfold sessionCommit
  dsimp only
  rw [hloaded, hdirty, hdestroy, hregenerate, decide_eq_true htoken, sessionDeleteDigest_eq hdigest,
    Bool.or_true]
  exact .cons (.cons hstore)

theorem sessionPerformAll_leads {operation : SessionOperation} {operations : List SessionOperation}
    {events more : List SessionEvent} {first : SessionAnswer × Context}
    {rest : List SessionAnswer × Context}
    (h : Leads (sessionPerform environment context operation) events (.done first))
    (hmore : Leads (sessionPerformAll environment operations first.2) more (.done rest)) :
    Leads (sessionPerformAll environment (operation :: operations) context) (events ++ more)
      (.done (first.1 :: rest.1, rest.2)) := by
  apply h.bind
  rw [← List.append_nil more]
  exact hmore.bind (.nil _)

end Ceasy.Sessions
