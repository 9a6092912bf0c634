import Ceasy.SessionRevocation

set_option autoImplicit false

/-!
# Sessions as a store

Requests that come one after the other, with every statement executed, see in the
table a map from tokens to sessions. Within a request the session goes through
four phases: it is not loaded yet, loaded from a row, new, or ended. The phase and
the flag `regenerate` decide what a commit stores, and under which token.
-/
namespace Ceasy.Sessions
open StringView Collection Dialogue

/-- The sessions table, the tokens issued so far and the last reading of the clock. -/
structure SerialWorld extends SessionWorld where
  clock : ℤ

/-- Every statement is executed, the clock does not go back, and tokens are fresh. -/
inductive Served (world : SerialWorld) : (c : SessionCall) → SessionReply c → SerialWorld → Prop where
  | select (digest : Bytes) : Served world (.select digest) (some (world.table digest)) world
  | delete (digest : Bytes) :
    Served world (.delete digest) true { world with table := tableDelete world.table digest }
  | replace (digest data : Bytes) (now expiresAt : ℤ) :
    Served world (.replace digest data now expiresAt) true
      { world with table := tableReplace world.table digest data now expiresAt }
  | time {now : ℤ} (h : world.clock ≤ now) : Served world .time now { world with clock := now }
  | token {token : Bytes} (h : token ∉ world.issued) :
    Served world .randomToken (some token) { world with issued := token :: world.issued }

abbrev ServesAll := Serves Served

variable {world next : SerialWorld}

theorem Served.select_inv {digest : Bytes} {answer : SessionReply (.select digest)}
    (h : Served world (.select digest) answer next) : answer = some (world.table digest) ∧ next = world := by
  cases h
  exact ⟨rfl, rfl⟩

theorem Served.delete_inv {digest : Bytes} {answer : SessionReply (.delete digest)}
    (h : Served world (.delete digest) answer next) :
    answer = true ∧ next = { world with table := tableDelete world.table digest } := by
  cases h
  exact ⟨rfl, rfl⟩

theorem Served.replace_inv {digest data : Bytes} {now expiresAt : ℤ}
    {answer : SessionReply (.replace digest data now expiresAt)}
    (h : Served world (.replace digest data now expiresAt) answer next) :
    answer = true ∧ next = { world with table := tableReplace world.table digest data now expiresAt } := by
  cases h
  exact ⟨rfl, rfl⟩

theorem Served.time_inv {now : SessionReply .time} (h : Served world .time now next) :
    world.clock ≤ (now : ℤ) ∧ next = { world with clock := now } := by
  cases h with
  | time h => exact ⟨h, rfl⟩

theorem Served.token_inv {answer : SessionReply .randomToken}
    (h : Served world .randomToken answer next) :
    ∃ token, answer = some token ∧ token ∉ world.issued ∧
      next = { world with issued := token :: world.issued } := by
  cases h with
  | token h => exact ⟨_, rfl, h, rfl⟩

variable {environment : Environment} {request : RequestParse.Request} {start : SerialWorld}
  {context : Context}

structure Keeping (environment : Environment) (request : RequestParse.Request)
    (start world : SerialWorld) : Prop where
  issued : world.issued = start.issued
  clock : start.clock ≤ world.clock
  others : ∀ digest, sessionDigest environment (presentedToken environment request) ≠ some digest →
    world.table digest = start.table digest

theorem Keeping.refl (environment : Environment) (request : RequestParse.Request) (world : SerialWorld) :
    Keeping environment request world world :=
  ⟨rfl, le_refl _, fun _ _ => rfl⟩

theorem Keeping.trans {middle : SerialWorld} (h : Keeping environment request start middle)
    (hnext : Keeping environment request middle world) : Keeping environment request start world :=
  ⟨hnext.issued.trans h.issued, h.clock.trans hnext.clock,
    fun digest hother => (hnext.others digest hother).trans (h.others digest hother)⟩

def Unlisted (environment : Environment) (request : RequestParse.Request) (world : SerialWorld) : Prop :=
  ∀ digest, sessionDigest environment (presentedToken environment request) = some digest →
    world.table digest = none

/-- The row of that token, if there was one, has expired. -/
def Expired (environment : Environment) (request : RequestParse.Request) (start world : SerialWorld) :
    Prop :=
  ∀ digest row, sessionDigest environment (presentedToken environment request) = some digest →
    start.table digest = some row → row.expiresAt ≤ world.clock

def RenewsDirty (session : Session) : Prop := session.regenerate = true → session.dirty = true

/-- Where a session that was loaded comes from, and whether it has changed since. -/
structure Loaded (environment : Environment) (request : RequestParse.Request) (start : SerialWorld)
    (session : Session) : Prop where
  loaded : session.loaded = true
  destroy : session.destroy = false
  renews : RenewsDirty session
  row : ∃ digest row contents,
    sessionDigest environment (presentedToken environment request) = some digest ∧
      start.table digest = some row ∧ Decodes row.data contents ∧
      (session.dirty = false → session.values.contents = contents)

inductive Phase (environment : Environment) (request : RequestParse.Request)
    (start world : SerialWorld) : Context → Prop where
  | fresh (h : world = start) : Phase environment request start world { request := request }
  | found {session : Session} (h : Loaded environment request start session)
    (htoken : session.token = presentedToken environment request)
    (htable : world.table = start.table) :
    Phase environment request start world { request := request, session := session }
  | created {session : Session} (hloaded : session.loaded = true) (hdestroy : session.destroy = false)
    (hrenews : RenewsDirty session) (htoken : session.token = [])
    (hunlisted : Unlisted environment request world) (hexpired : Expired environment request start world) :
    Phase environment request start world { request := request, session := session }
  | ended {context : Context} (hrequest : context.request = request)
    (hloaded : context.session.loaded = true) (hregenerate : context.session.regenerate = true)
    (hdirty : context.session.destroy = false → context.session.dirty = true)
    (hunlisted : Unlisted environment request world)
    (htoken : context.session.token ≠ [] → context.session.token = presentedToken environment request ∧
      ∃ digest row, sessionDigest environment (presentedToken environment request) = some digest ∧
        start.table digest = some row)
    (hexpired : context.session.token = [] → Expired environment request start world)
    (hcookie : cookieToken environment.sessionCookieName = true → context.responseHeaders ≠ []) :
    Phase environment request start world context

def RowDecodes (environment : Environment) (request : RequestParse.Request) (world : SerialWorld) : Prop :=
  ∀ digest row, sessionDigest environment (presentedToken environment request) = some digest →
    world.table digest = some row → ∃ contents, Decodes row.data contents

theorem LoadResult.served {events : List SessionEvent} {result : Bool × Context}
    (h : LoadResult environment { request := request } (presentedToken environment request) events result)
    (hserves : ServesAll world events next) (hdecodes : RowDecodes environment request world) :
    result.1 = true ∧ Keeping environment request world next ∧
      Phase environment request world next result.2 := by
  cases h with
  | noCookie hdigest =>
    obtain rfl := serves_nil.mp hserves
    refine ⟨rfl, .refl _ _ _, .created rfl rfl (by simp [RenewsDirty]) rfl ?_ ?_⟩
    · intro digest hother
      rw [hdigest] at hother
      cases hother
    · intro digest row hother
      rw [hdigest] at hother
      cases hother
  | failed hdigest =>
    obtain ⟨middle, hselect, -⟩ := serves_cons.mp hserves
    exact absurd hselect.select_inv.1 (by simp)
  | @absent digest hdigest =>
    obtain ⟨middle, hselect, hrest⟩ := serves_cons.mp hserves
    obtain ⟨hrow, rfl⟩ := hselect.select_inv
    obtain rfl := serves_nil.mp hrest
    have hnone : next.table digest = none := (Option.some.inj hrow).symm
    refine ⟨rfl, .refl _ _ _, .created rfl rfl (by simp [RenewsDirty]) rfl ?_ ?_⟩
    · intro other hother
      cases hdigest.symm.trans hother
      exact hnone
    · intro other row hother hrow
      cases hdigest.symm.trans hother
      rw [hnone] at hrow
      cases hrow
  | @expired digest row now deleted hdigest hexpired =>
    obtain ⟨second, hselect, hrest⟩ := serves_cons.mp hserves
    obtain ⟨hrow, rfl⟩ := hselect.select_inv
    obtain ⟨third, htime, hrest⟩ := serves_cons.mp hrest
    obtain ⟨hclock, rfl⟩ := htime.time_inv
    obtain ⟨last, hdelete, hrest⟩ := serves_cons.mp hrest
    obtain ⟨-, rfl⟩ := hdelete.delete_inv
    obtain rfl := serves_nil.mp hrest
    refine ⟨rfl, ⟨rfl, hclock, ?_⟩, .created rfl rfl (by simp [RenewsDirty]) rfl ?_ ?_⟩
    · intro other hother
      have hne : other ≠ digest := fun heq => hother (heq ▸ hdigest)
      exact Function.update_of_ne hne ..
    · intro other hother
      cases hdigest.symm.trans hother
      exact Function.update_self ..
    · intro other stored hother hstored
      cases hdigest.symm.trans hother
      cases hstored.symm.trans (Option.some.inj hrow).symm
      exact hexpired
  | undecoded now deleted hdigest hvalues =>
    obtain ⟨middle, hselect, -⟩ := serves_cons.mp hserves
    obtain ⟨hrow, rfl⟩ := hselect.select_inv
    obtain ⟨contents, values, hdecoded, -⟩ := hdecodes _ _ hdigest (Option.some.inj hrow).symm
    rw [hdecoded] at hvalues
    cases hvalues
  | @found digest row now values hdigest hexpires hvalues =>
    obtain ⟨second, hselect, hrest⟩ := serves_cons.mp hserves
    obtain ⟨hrow, rfl⟩ := hselect.select_inv
    obtain ⟨third, htime, hrest⟩ := serves_cons.mp hrest
    obtain ⟨hclock, rfl⟩ := htime.time_inv
    obtain rfl := serves_nil.mp hrest
    refine ⟨rfl, ⟨rfl, hclock, fun _ _ => rfl⟩, .found ⟨rfl, rfl, by simp [RenewsDirty], ?_⟩ rfl rfl⟩
    exact ⟨digest, row, values.contents, hdigest, (Option.some.inj hrow).symm, ⟨values, hvalues, rfl⟩,
      fun _ => rfl⟩

theorem Phase.ensure {events : List SessionEvent} {result : Bool × Context}
    (h : Phase environment request start world context)
    (hensure : EnsureResult environment context events result) (hserves : ServesAll world events next)
    (hdecodes : RowDecodes environment request start) :
    result.1 = true ∧ Keeping environment request world next ∧
      Phase environment request start next result.2 := by
  cases hensure with
  | already =>
    obtain rfl := serves_nil.mp hserves
    exact ⟨rfl, .refl _ _ _, h⟩
  | load hnot hload =>
    cases h with
    | fresh h =>
      subst h
      exact hload.served hserves hdecodes
    | found h => exact absurd (h.loaded.symm.trans hnot) (by simp)
    | created hloaded => exact absurd (hloaded.symm.trans hnot) (by simp)
    | ended _ hloaded => exact absurd (hloaded.symm.trans hnot) (by simp)

section Updates

variable {session updated : Session} {operation : SessionOperation} {answer : SessionAnswer}

theorem SessionUpdate.loaded (h : SessionUpdate session operation answer updated) :
    updated.loaded = session.loaded := by
  cases h <;> rfl

theorem SessionUpdate.destroy (h : SessionUpdate session operation answer updated) :
    updated.destroy = false ∨ updated.destroy = session.destroy := by
  cases h <;> simp

theorem SessionUpdate.renewed (h : SessionUpdate session operation answer updated) :
    updated.regenerate = session.regenerate ∨ updated.regenerate = true ∧ updated.dirty = true := by
  cases h <;> simp

theorem SessionUpdate.dirty (h : SessionUpdate session operation answer updated) :
    updated.dirty = true ∨ updated.dirty = session.dirty ∧ updated.destroy = session.destroy ∧
      (session.dirty = false → updated.values.contents = session.values.contents) := by
  cases h with
  | refused h => exact .inr ⟨rfl, rfl, fun _ => h⟩
  | read => exact .inr ⟨rfl, rfl, fun _ => rfl⟩
  | @delete key values h =>
    cases hpresent : (session.values.contents key).isSome with
    | true => exact .inl (by simp)
    | false =>
      refine .inr ⟨by simp, rfl, fun _ => ?_⟩
      rw [Option.isSome_eq_false_iff, Option.isNone_iff_eq_none] at hpresent
      rw [h]
      exact Function.update_eq_self_iff.mpr hpresent.symm
  | _ => exact .inl rfl

theorem SessionUpdate.renewsDirty (h : SessionUpdate session operation answer updated)
    (hrenews : RenewsDirty session) : RenewsDirty updated := by
  intro hregenerate
  rcases h.renewed with hsame | ⟨-, hdirty⟩
  · rcases h.dirty with hdirty | ⟨hdirty, -⟩
    · exact hdirty
    · rw [hdirty]
      exact hrenews (hsame.symm.trans hregenerate)
  · exact hdirty

theorem Loaded.update (h : Loaded environment request start session)
    (hupdate : SessionUpdate session operation answer updated) :
    Loaded environment request start updated := by
  obtain ⟨digest, row, contents, hdigest, hrow, hdecodes, hclean⟩ := h.row
  refine ⟨hupdate.loaded.trans h.loaded, ?_, hupdate.renewsDirty h.renews, digest, row, contents, hdigest,
    hrow, hdecodes, ?_⟩
  · rcases hupdate.destroy with hkept | hsame
    · exact hkept
    · exact hsame.trans h.destroy
  · intro hclean'
    rcases hupdate.dirty with hdirty | ⟨hdirty, -, hsame⟩
    · exact absurd (hdirty.symm.trans hclean') (by simp)
    · have hbefore : session.dirty = false := hdirty.symm.trans hclean'
      exact (hsame hbefore).trans (hclean hbefore)

end Updates

theorem Phase.update {operation : SessionOperation} {answer : SessionAnswer} {session : Session}
    (h : Phase environment request start world context) (hloaded : context.session.loaded = true)
    (hupdate : SessionUpdate context.session operation answer session) :
    Phase environment request start world { context with session := session } := by
  cases h with
  | fresh => cases hloaded
  | found h htoken htable => exact .found (h.update hupdate) (hupdate.token.trans htoken) htable
  | created _ hdestroy hrenews htoken hunlisted hexpired =>
    refine .created (hupdate.loaded.trans hloaded) ?_ (hupdate.renewsDirty hrenews)
      (hupdate.token.trans htoken) hunlisted hexpired
    rcases hupdate.destroy with hkept | hsame
    · exact hkept
    · exact hsame.trans hdestroy
  | ended hrequest _ hregenerate hdirty hunlisted htoken hexpired hcookie =>
    refine .ended hrequest (hupdate.loaded.trans hloaded) ?_ ?_ hunlisted ?_ ?_ hcookie
    · rcases hupdate.renewed with hsame | ⟨hrenewed, -⟩
      · exact hsame.trans hregenerate
      · exact hrenewed
    · intro hkept
      rcases hupdate.dirty with hset | ⟨hsame, hdestroy, -⟩
      · exact hset
      · exact hsame.trans (hdirty (hdestroy.symm.trans hkept))
    · dsimp only
      rw [hupdate.token]
      exact htoken
    · dsimp only
      rw [hupdate.token]
      exact hexpired

theorem Phase.memory {operation : SessionOperation} {events : List SessionEvent}
    {result : SessionAnswer × Context} (h : Phase environment request start world context)
    (hresult : MemoryResult environment context operation events result)
    (hserves : ServesAll world events next) (hdecodes : RowDecodes environment request start) :
    Keeping environment request world next ∧ Phase environment request start next result.2 := by
  cases hresult with
  | update hensure hupdate =>
    obtain ⟨-, hkeeping, hphase⟩ := h.ensure hensure hserves hdecodes
    exact ⟨hkeeping, hphase.update hensure.loaded hupdate⟩
  | notLoaded hensure => exact (h.ensure hensure hserves hdecodes).2
  | noUser =>
    obtain rfl := serves_nil.mp hserves
    exact ⟨.refl _ _ _, h⟩

theorem Keeping.delete {digest : Bytes}
    (hdigest : sessionDigest environment (presentedToken environment request) = some digest) :
    Keeping environment request world { world with table := tableDelete world.table digest } := by
  refine ⟨rfl, le_refl _, ?_⟩
  intro other hother
  have hne : other ≠ digest := fun heq => hother (heq ▸ hdigest)
  exact Function.update_of_ne hne ..

theorem unlisted_delete {digest : Bytes}
    (hdigest : sessionDigest environment (presentedToken environment request) = some digest) :
    Unlisted environment request { world with table := tableDelete world.table digest } := by
  intro other hother
  cases hdigest.symm.trans hother
  exact Function.update_self ..

theorem Phase.end (h : Phase environment request start world context)
    (hloaded : context.session.loaded = true) (hclock : world.clock ≤ next.clock)
    (hunlisted : Unlisted environment request next) :
    Phase environment request start next (sessionEnd environment context) := by
  obtain ⟨hrequest, hsession⟩ := sessionEnd_session environment context
  have hcookie : cookieToken environment.sessionCookieName = true →
      (sessionEnd environment context).responseHeaders ≠ [] := fun hname => sessionEnd_cookie hname context
  have hdirty : (sessionEnd environment context).session.destroy = false →
      (sessionEnd environment context).session.dirty = true := by
    rw [hsession]
    intro hdestroy
    cases hdestroy
  have htoken : (sessionEnd environment context).session.token = context.session.token := by
    rw [hsession]
    rfl
  cases h with
  | fresh => cases hloaded
  | found h hsent =>
    obtain ⟨digest, row, -, hdigest, hrow, -⟩ := h.row
    refine .ended hrequest (by rw [hsession]; exact hloaded) (by rw [hsession]; rfl) hdirty hunlisted
      ?_ ?_ hcookie
    · intro _
      exact ⟨htoken.trans hsent, digest, row, hdigest, hrow⟩
    · intro hnone
      exact absurd (hsent.symm.trans (htoken.symm.trans hnone)) (token_ne_nil hdigest)
  | created _ _ _ hnone _ hexpired =>
    refine .ended hrequest (by rw [hsession]; exact hloaded) (by rw [hsession]; rfl) hdirty hunlisted
      ?_ ?_ hcookie
    · intro hsome
      exact absurd (htoken.trans hnone) hsome
    · intro _ digest row hdigest hrow
      exact (hexpired digest row hdigest hrow).trans hclock
  | ended hsent _ _ _ _ hpresented hexpired =>
    refine .ended (hrequest.trans hsent) (by rw [hsession]; exact hloaded) (by rw [hsession]; rfl) hdirty
      hunlisted ?_ ?_ hcookie
    · rw [htoken]
      exact hpresented
    · intro hnone digest row hdigest hrow
      exact (hexpired (htoken.symm.trans hnone) digest row hdigest hrow).trans hclock

theorem Phase.token (h : Phase environment request start world context)
    (htoken : context.session.token ≠ []) :
    context.session.token = presentedToken environment request ∧
      ∃ digest row, sessionDigest environment (presentedToken environment request) = some digest ∧
        start.table digest = some row := by
  cases h with
  | fresh => exact absurd rfl htoken
  | found h hsent =>
    obtain ⟨digest, row, -, hdigest, hrow, -⟩ := h.row
    exact ⟨hsent, digest, row, hdigest, hrow⟩
  | created _ _ _ hnone => exact absurd hnone htoken
  | ended _ _ _ _ _ hpresented => exact hpresented htoken

theorem Phase.unlisted (h : Phase environment request start world context)
    (hloaded : context.session.loaded = true) (htoken : context.session.token = []) :
    Unlisted environment request world := by
  cases h with
  | fresh => cases hloaded
  | found h hsent =>
    obtain ⟨digest, row, -, hdigest, -⟩ := h.row
    exact absurd (hsent.symm.trans htoken) (token_ne_nil hdigest)
  | created _ _ _ _ hunlisted => exact hunlisted
  | ended _ _ _ _ hunlisted => exact hunlisted

theorem Phase.destroy {events : List SessionEvent} {result : Bool × Context}
    (h : Phase environment request start world context)
    (hresult : DestroyResult environment context events result) (hserves : ServesAll world events next)
    (hdecodes : RowDecodes environment request start) :
    Keeping environment request world next ∧ Phase environment request start next result.2 := by
  cases hresult with
  | notLoaded hensure => exact (h.ensure hensure hserves hdecodes).2
  | noToken hensure htoken =>
    obtain ⟨-, hkeeping, hphase⟩ := h.ensure hensure hserves hdecodes
    exact ⟨hkeeping, hphase.end hensure.loaded (le_refl _) (hphase.unlisted hensure.loaded htoken)⟩
  | refused hensure hdelete =>
    obtain ⟨middle, hfirst, hsecond⟩ := serves_append.mp hserves
    cases hdelete with
    | noDigest =>
      obtain rfl := serves_nil.mp hsecond
      exact (h.ensure hensure hfirst hdecodes).2
    | called =>
      obtain ⟨last, hdeleted, -⟩ := serves_cons.mp hsecond
      exact absurd hdeleted.delete_inv.1 (by simp)
  | @removed first second loaded hensure hdelete =>
    obtain ⟨middle, hfirst, hsecond⟩ := serves_append.mp hserves
    obtain ⟨-, hkeeping, hphase⟩ := h.ensure hensure hfirst hdecodes
    cases hdelete with
    | @called digest hdigest =>
      obtain ⟨last, hdeleted, hrest⟩ := serves_cons.mp hsecond
      obtain ⟨-, rfl⟩ := hdeleted.delete_inv
      obtain rfl := serves_nil.mp hrest
      rw [(hphase.token (token_ne_nil hdigest)).1] at hdigest
      exact ⟨hkeeping.trans (.delete hdigest), hphase.end hensure.loaded (le_refl _) (unlisted_delete hdigest)⟩

def Uncommitted (operations : List SessionOperation) : Prop := .commit ∉ operations

/-- What a request has come to: the phase of its session, in whatever world its calls
    have left. -/
def InPhase (environment : Environment) (request : RequestParse.Request) (start : SerialWorld)
    (history : List SessionEvent) (context : Context) : Prop :=
  ∀ world, ServesAll start history world →
    Keeping environment request start world ∧ Phase environment request start world context

theorem InPhase.perform {history : List SessionEvent} {operation : SessionOperation}
    (hoperation : operation ≠ .commit) (hdecodes : RowDecodes environment request start)
    (h : InPhase environment request start history context) :
    Keeps (fun _ _ => True) (fun later result => InPhase environment request start later result.2) history
      (sessionPerform environment context operation) := by
  apply (sessionPerform_keeps (fun _ _ _ => trivial) history operation
    fun _ _ _ _ _ _ _ _ _ _ => trivial).mono
  intro later result hlater
  obtain ⟨events, rfl, hresult⟩ := hlater
  intro next hserves
  obtain ⟨world, hhistory, hevents⟩ := serves_append.mp hserves
  obtain ⟨hkeeping, hphase⟩ := h world hhistory
  have hnext : Keeping environment request world next ∧
      Phase environment request start next result.2 := by
    cases hresult with
    | memory hmemory => exact hphase.memory hmemory hevents hdecodes
    | destroy _ hdestroy => exact hphase.destroy hdestroy hevents hdecodes
    | commit hcommit => exact absurd hcommit hoperation
  exact ⟨hkeeping.trans hnext.1, hnext.2⟩

theorem sessionPerformAll_phase {operations : List SessionOperation} (hoperations : Uncommitted operations)
    (hdecodes : RowDecodes environment request start) :
    Keeps (fun _ _ => True) (fun later result => InPhase environment request start later result.2) []
      (sessionPerformAll environment operations { request := request }) := by
  apply sessionPerformAll_keeps
  · intro operation hmem history context h
    exact h.perform (fun hcommit => hoperations (hcommit ▸ hmem)) hdecodes
  · intro world hserves
    obtain rfl := serves_nil.mp hserves
    exact ⟨.refl _ _ _, .fresh rfl⟩

def Renews : SessionOperation → Prop
  | .regenerate | .login _ | .destroy | .logout => True
  | _ => False

theorem EnsureResult.regenerate {events : List SessionEvent} {result : Bool × Context}
    (h : EnsureResult environment context events result) :
    result.2.session.regenerate = context.session.regenerate := by
  cases h with
  | already => rfl
  | load _ hload => cases hload <;> rfl

theorem SessionUpdate.renews {session updated : Session} {operation : SessionOperation}
    (hoperation : Renews operation) (h : SessionUpdate session operation (.done true) updated) :
    updated.regenerate = true := by
  cases operation with
  | regenerate =>
    cases h with
    | set hentry => cases hentry
    | read _ hread => exact hread.elim
    | regenerate => rfl
  | login userId =>
    cases h with
    | set hentry => cases hentry
    | read _ hread => exact hread.elim
    | login => rfl
  | destroy =>
    cases h with
    | set hentry => cases hentry
    | read _ hread => exact hread.elim
  | logout =>
    cases h with
    | set hentry => cases hentry
    | read _ hread => exact hread.elim
  | _ => exact hoperation.elim

theorem refusal_renews {operation : SessionOperation} (h : Renews operation) :
    refusal operation = .done false := by
  cases operation <;> first | rfl | exact h.elim

/-- Once set, the flag stays until the commit; an operation that gives up the token sets it. -/
theorem PerformResult.renewed {operation : SessionOperation} {events : List SessionEvent}
    {result : SessionAnswer × Context} (hoperation : operation ≠ .commit)
    (h : PerformResult environment context operation events result)
    (hrenews : context.session.regenerate = true ∨ Renews operation ∧ result.1 = .done true) :
    result.2.session.regenerate = true := by
  cases h with
  | memory hmemory =>
    cases hmemory with
    | update hensure hupdate =>
      rcases hrenews with hrenewed | ⟨hrenews, hdone⟩
      · rcases hupdate.renewed with hsame | ⟨hset, -⟩
        · exact hsame.trans (hensure.regenerate.trans hrenewed)
        · exact hset
      · dsimp only at hdone
        rw [hdone] at hupdate
        exact hupdate.renews hrenews
    | notLoaded hensure =>
      rcases hrenews with hrenewed | ⟨hrenews, hdone⟩
      · exact hensure.regenerate.trans hrenewed
      · dsimp only at hdone
        rw [refusal_renews hrenews] at hdone
        cases hdone
    | noUser =>
      rcases hrenews with hrenewed | ⟨-, hdone⟩
      · exact hrenewed
      · cases hdone
  | destroy _ hdestroy =>
    have hended : ∀ loaded, (sessionEnd environment loaded).session.regenerate = true := by
      intro loaded
      rw [(sessionEnd_session environment loaded).2]
      rfl
    cases hdestroy with
    | notLoaded hensure =>
      rcases hrenews with hrenewed | ⟨-, hdone⟩
      · exact hensure.regenerate.trans hrenewed
      · cases hdone
    | noToken => exact hended _
    | refused hensure =>
      rcases hrenews with hrenewed | ⟨-, hdone⟩
      · exact hensure.regenerate.trans hrenewed
      · cases hdone
    | removed => exact hended _
  | commit hcommit => exact absurd hcommit hoperation

/-- Some operation of these that gives up the token was answered with success. -/
def RenewedBy (operations : List SessionOperation) (answers : List SessionAnswer) : Prop :=
  ∃ operation, Renews operation ∧ (operation, .done true) ∈ operations.zip answers

theorem sessionPerformAll_renewed {operations : List SessionOperation}
    (hoperations : Uncommitted operations) (history : List SessionEvent) :
    Keeps (fun _ _ => True) (fun _ result =>
      context.session.regenerate = true ∨ RenewedBy operations result.1 →
        result.2.session.regenerate = true) history (sessionPerformAll environment operations context) := by
  induction operations generalizing history context with
  | nil =>
    intro h
    rcases h with hrenewed | ⟨_, _, hmem⟩
    · exact hrenewed
    · cases hmem
  | cons operation operations ih =>
    have hoperation : operation ≠ .commit := fun h => hoperations (h ▸ List.mem_cons_self)
    apply (sessionPerform_keeps (fun _ _ _ => trivial) history operation
      fun _ _ _ _ _ _ _ _ _ _ => trivial).bind
    intro later first hfirst
    obtain ⟨events, rfl, hresult⟩ := hfirst
    apply (ih (fun hmem => hoperations (List.mem_cons_of_mem _ hmem)) _).bind
    intro last rest hrest h
    apply hrest
    rcases h with hrenewed | ⟨other, hother, hmem⟩
    · exact .inl (hresult.renewed hoperation (.inl hrenewed))
    · rcases List.mem_cons.mp hmem with hnow | hlater
      · obtain ⟨rfl, hdone⟩ := Prod.mk.inj hnow
        exact .inl (hresult.renewed hoperation (.inr ⟨hother, hdone.symm⟩))
      · exact .inr ⟨other, hother, hlater⟩

/-- Without a commit nothing is stored. -/
def NoStore (_ : List SessionEvent) (c : SessionCall) : Prop :=
  ∀ digest data now expiresAt, c ≠ .replace digest data now expiresAt

theorem sessionPerform_noStore {operation : SessionOperation} (hoperation : operation ≠ .commit)
    (history : List SessionEvent) :
    Keeps NoStore (fun _ _ => True) history (sessionPerform environment context operation) := by
  have hsafe : StoresNothing NoStore := fun _ _ h => h
  by_cases hmemory : InMemory operation
  · exact (sessionPerform_memory hsafe history hmemory).mono fun _ _ _ => trivial
  cases operation with
  | destroy =>
    apply (sessionDestroy_keeps hsafe history).bind
    intro later result _
    trivial
  | logout =>
    apply (sessionDestroy_keeps hsafe history).bind
    intro later result _
    trivial
  | commit => exact absurd rfl hoperation
  | _ => exact absurd trivial hmemory

theorem sessionPerformAll_noStore {operations : List SessionOperation}
    (hoperations : Uncommitted operations) (history : List SessionEvent) :
    Keeps NoStore (fun _ _ => True) history (sessionPerformAll environment operations context) := by
  apply @sessionPerformAll_keeps environment NoStore (fun _ _ => True)
  · intro operation hmem history context _
    exact sessionPerform_noStore (fun hcommit => hoperations (hcommit ▸ hmem)) history
  · trivial

theorem RemovalResult.served {events : List SessionEvent}
    (h : RemovalResult environment context events true) (hserves : ServesAll world events next) :
    next.issued = world.issued ∧ next.clock = world.clock ∧
      (∀ digest, (context.session.regenerate = true →
        sessionDigest environment context.session.token ≠ some digest) →
          next.table digest = world.table digest) ∧
      (context.session.regenerate = true → ∀ digest,
        sessionDigest environment context.session.token = some digest → next.table digest = none) ∧
      ∀ digest data now expiresAt, (⟨.replace digest data now expiresAt, true⟩ : SessionEvent) ∉ events := by
  cases h with
  | kept hkept =>
    obtain rfl := serves_nil.mp hserves
    refine ⟨rfl, rfl, fun _ _ => rfl, ?_, by simp⟩
    intro hregenerate digest hdigest
    rcases hkept with hfalse | hnone
    · exact absurd (hfalse.symm.trans hregenerate) (by simp)
    · exact absurd hnone (token_ne_nil hdigest)
  | removed hregenerate hdelete =>
    cases hdelete with
    | @called digest hdigest =>
      obtain ⟨last, hdeleted, hrest⟩ := serves_cons.mp hserves
      obtain ⟨-, rfl⟩ := hdeleted.delete_inv
      obtain rfl := serves_nil.mp hrest
      refine ⟨rfl, rfl, ?_, ?_, by simp⟩
      · intro other hother
        have hne : other ≠ digest := fun heq => hother hregenerate (heq ▸ hdigest)
        exact Function.update_of_ne hne ..
      · intro _ other hother
        cases hdigest.symm.trans hother
        exact Function.update_self ..

theorem GenerationResult.served {events : List SessionEvent} {generated : Context}
    (h : GenerationResult context events (true, generated)) (hserves : ServesAll world events next) :
    next.table = world.table ∧ next.clock = world.clock ∧
      ∃ token, generated = tokenContext context token ∧
        (events = [] ∧ token = context.session.token ∧ token ≠ [] ∧ context.session.regenerate = false ∧
            next.issued = world.issued ∨
          events = [⟨.randomToken, some token⟩] ∧ token ∉ world.issued ∧
            next.issued = token :: world.issued) := by
  cases h with
  | kept htoken hregenerate =>
    obtain rfl := serves_nil.mp hserves
    exact ⟨rfl, rfl, context.session.token, rfl, .inl ⟨rfl, rfl, htoken, hregenerate, rfl⟩⟩
  | issued token =>
    obtain ⟨last, hissued, hrest⟩ := serves_cons.mp hserves
    obtain ⟨other, hother, hfresh, rfl⟩ := hissued.token_inv
    obtain rfl : token = other := Option.some.inj hother
    obtain rfl := serves_nil.mp hrest
    exact ⟨rfl, rfl, token, rfl, .inr ⟨rfl, hfresh, rfl⟩⟩

theorem StoreResult.served {events : List SessionEvent} {final : Context}
    (h : StoreResult environment context events (true, final)) (hserves : ServesAll world events next) :
    ∃ digest data now, sessionDigest environment context.session.token = some digest ∧
      events = [⟨.time, now⟩, ⟨.replace digest data now (now + environment.sessionTtlSeconds), true⟩] ∧
      final = committedContext environment context (now + environment.sessionTtlSeconds) ∧
      Decodes data context.session.values.contents ∧
      cookieToken environment.sessionCookieName = true ∧ world.clock ≤ now ∧
      next = { world with
        clock := now
        table := tableReplace world.table digest data now (now + environment.sessionTtlSeconds) } := by
  cases h with
  | @stored digest data hdata hdigest hname now =>
    obtain ⟨second, htime, hrest⟩ := serves_cons.mp hserves
    obtain ⟨hclock, rfl⟩ := htime.time_inv
    obtain ⟨last, hreplace, hrest⟩ := serves_cons.mp hrest
    obtain ⟨-, rfl⟩ := hreplace.replace_inv
    obtain rfl := serves_nil.mp hrest
    exact ⟨digest, data, now, hdigest, rfl, rfl, sessionSerialize_decodes hdata, hname, hclock, rfl⟩

/-- What a commit that stores does to the table, the tokens and the response. -/
structure Storing (environment : Environment) (working final : Context) (events : List SessionEvent)
    (world next : SerialWorld) : Prop where
  dirty : working.session.dirty = true
  destroy : working.session.destroy = false
  values : final.session.values = working.session.values
  request : final.request = working.request
  name : cookieToken environment.sessionCookieName = true
  headers : final.responseHeaders = working.responseHeaders ++ [⟨sv "Set-Cookie",
    cookieText environment.sessionCookieName final.session.token (sessionStoreOptions environment)⟩]
  clock : world.clock ≤ next.clock
  row : ∃ digest row, sessionDigest environment final.session.token = some digest ∧
    next.table digest = some row ∧ Decodes row.data final.session.values.contents ∧
      row.expiresAt = final.session.expiresAt
  others : ∀ digest, sessionDigest environment final.session.token ≠ some digest →
    (working.session.regenerate = true →
      sessionDigest environment working.session.token ≠ some digest) →
    next.table digest = world.table digest
  removed : working.session.regenerate = true → ∀ digest,
    sessionDigest environment working.session.token = some digest →
    sessionDigest environment final.session.token ≠ some digest → next.table digest = none
  token : final.session.token = working.session.token ∧ working.session.token ≠ [] ∧
      working.session.regenerate = false ∧ next.issued = world.issued ∨
    (⟨.randomToken, some final.session.token⟩ : SessionEvent) ∈ events ∧
      final.session.token ∉ world.issued ∧ next.issued = final.session.token :: world.issued
  called : events ≠ []
  replaces : ∀ digest data now expiresAt,
    (⟨.replace digest data now expiresAt, true⟩ : SessionEvent) ∈ events →
      sessionDigest environment final.session.token = some digest

theorem CommitResult.served {events : List SessionEvent} {final : Context}
    (h : CommitResult environment context events (true, final)) (hserves : ServesAll world events next) :
    (events = [] ∧ final = context ∧ next = world ∧ (context.session.loaded = false ∨
        context.session.dirty = false ∨ context.session.destroy = true)) ∨
      Storing environment context final events world next := by
  cases h with
  | idle hidle =>
    obtain rfl := serves_nil.mp hserves
    exact .inl ⟨rfl, rfl, rfl, hidle⟩
  | @ended removal generation storing generated result hdirty hdestroy hremoval hgeneration hstore =>
    right
    obtain ⟨first, hfirst, hrest⟩ := serves_append.mp hserves
    obtain ⟨second, hsecond, hthird⟩ := serves_append.mp hrest
    obtain ⟨hissued, hclock, hothers, hremoved, hnoReplace⟩ := hremoval.served hfirst
    obtain ⟨htable, hclock', token, rfl, htoken⟩ := hgeneration.served hsecond
    obtain ⟨digest, data, now, hdigest, rfl, rfl, hdecodes, hname, hnow, rfl⟩ := hstore.served hthird
    have hfinal : sessionDigest environment token = some digest := hdigest
    refine ⟨hdirty, hdestroy, rfl, rfl, hname, rfl, ?_, ?_, ?_, ?_, ?_, by simp, ?_⟩
    · rw [← hclock, ← hclock']
      exact hnow
    · exact ⟨digest, _, hdigest, Function.update_self .., hdecodes, rfl⟩
    · intro other hother hkept
      have hne : other ≠ digest := fun heq => hother (heq ▸ hdigest)
      dsimp only
      rw [tableReplace, Function.update_of_ne hne, htable]
      exact hothers other hkept
    · intro hregenerate other hother hdifferent
      have hne : other ≠ digest := fun heq => hdifferent (heq ▸ hdigest)
      dsimp only
      rw [tableReplace, Function.update_of_ne hne, htable]
      exact hremoved hregenerate other hother
    · rcases htoken with ⟨-, hsame, hsome, hregenerate, hissued'⟩ | ⟨rfl, hfresh, hissued'⟩
      · exact .inl ⟨hsame, hsame ▸ hsome, hregenerate, hissued'.trans hissued⟩
      · rw [hissued] at hfresh hissued'
        exact .inr ⟨by simp [committedContext, tokenContext], hfresh, hissued'⟩
    · intro other data' now' expiresAt hmem
      rcases List.mem_append.mp hmem with hbefore | hmem
      · exact absurd hbefore (hnoReplace _ _ _ _)
      rcases List.mem_append.mp hmem with hbefore | hmem
      · rcases htoken with ⟨rfl, -⟩ | ⟨rfl, -⟩
        · cases hbefore
        · simp at hbefore
      · obtain ⟨rfl, -⟩ : other = digest ∧ _ := by simpa using hmem
        exact hdigest

end Ceasy.Sessions
