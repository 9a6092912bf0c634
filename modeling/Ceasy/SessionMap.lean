import Ceasy.SessionStore

set_option autoImplicit false

/-!
# A map from tokens to sessions

What the sessions table is for: it maps the tokens of cookies to sessions that
expire. A request gives up the token of a session that it renews or ends, and
what it commits is found under the token of its cookie. Serial runs of requests
refine this map, in which a token that was given up never returns.
-/
namespace Ceasy.Sessions
open StringView Collection Dialogue

abbrev SessionMap := Bytes → Option (SessionContents × ℤ)

structure Turn where
  request : RequestParse.Request
  operations : List SessionOperation
  answers : List SessionAnswer
  events : List SessionEvent
  /-- What the handler has come to before it commits. -/
  working : Context
  committing : List SessionEvent
  final : Context

/-- The token of a renewed session is given up. -/
def giveUp (session : Session) (sessions : SessionMap) : SessionMap :=
  if session.regenerate then Function.update sessions session.token none else sessions

def Turn.effect (turn : Turn) (sessions : SessionMap) : SessionMap :=
  match turn.committing with
  | [] => giveUp turn.working.session sessions
  | _ :: _ => Function.update (giveUp turn.working.session sessions) turn.final.session.token
      (some (turn.final.session.values.contents, turn.final.session.expiresAt))

def sessionsAfter (turns : List Turn) (sessions : SessionMap) : SessionMap :=
  turns.foldl (fun sessions turn => turn.effect sessions) sessions

/-- A row and the session it stands for; an expired one may have been dropped. -/
inductive Entry (clock : ℤ) : Option SessionRow → Option (SessionContents × ℤ) → Prop where
  | absent : Entry clock none none
  | stored {row : SessionRow} {contents : SessionContents} (h : Decodes row.data contents) :
    Entry clock (some row) (some (contents, row.expiresAt))
  | dropped {contents : SessionContents} {expiresAt : ℤ} (h : expiresAt ≤ clock) :
    Entry clock none (some (contents, expiresAt))

structure Represents (environment : Environment) (world : SerialWorld) (sessions : SessionMap) : Prop where
  entry : ∀ token digest, sessionDigest environment token = some digest →
    Entry world.clock (world.table digest) (sessions token)
  issued : ∀ token, sessions token ≠ none → token ∈ world.issued

theorem Entry.later {clock later : ℤ} {row : Option SessionRow} {session : Option (SessionContents × ℤ)}
    (h : Entry clock row session) (hlater : clock ≤ later) : Entry later row session := by
  cases h with
  | absent => exact .absent
  | stored h => exact .stored h
  | dropped h => exact .dropped (h.trans hlater)

variable {environment : Environment} {start world next : SerialWorld} {turn : Turn} {turns : List Turn}
  {sessions : SessionMap} {token digest : Bytes}

structure Turn.Takes (environment : Environment) (turn : Turn) (world next : SerialWorld) : Prop where
  uncommitted : Uncommitted turn.operations
  performs : Leads (sessionPerformAll environment turn.operations { request := turn.request }) turn.events
    (.done (turn.answers, turn.working))
  commits : Leads (sessionCommit environment turn.working) turn.committing (.done (true, turn.final))
  served : ServesAll world (turn.events ++ turn.committing) next

inductive SerialRun (environment : Environment) : SerialWorld → List Turn → SerialWorld → Prop where
  | nil (world : SerialWorld) : SerialRun environment world [] world
  | cons {world next last : SerialWorld} {turn : Turn} {turns : List Turn}
    (h : turn.Takes environment world next) (hrest : SerialRun environment next turns last) :
    SerialRun environment world (turn :: turns) last

theorem serialRun_append {first second : List Turn} (h : SerialRun environment start (first ++ second) world) :
    ∃ middle, SerialRun environment start first middle ∧ SerialRun environment middle second world := by
  induction first generalizing start with
  | nil => exact ⟨start, .nil start, h⟩
  | cons turn first ih =>
    cases h with
    | cons hturn hrest =>
      obtain ⟨middle, hfirst, hsecond⟩ := ih hrest
      exact ⟨middle, .cons hturn hfirst, hsecond⟩

theorem Represents.rowDecodes (h : Represents environment world sessions)
    (request : RequestParse.Request) : RowDecodes environment request world := by
  intro digest row hdigest hrow
  have hentry := h.entry _ digest hdigest
  rw [hrow] at hentry
  generalize sessions (presentedToken environment request) = session at hentry
  cases hentry with
  | stored hdecodes => exact ⟨_, hdecodes⟩

theorem Represents.issued_of_row (h : Represents environment world sessions) {row : SessionRow}
    (hdigest : sessionDigest environment token = some digest) (hrow : world.table digest = some row) :
    token ∈ world.issued := by
  apply h.issued
  have hentry := h.entry token digest hdigest
  rw [hrow] at hentry
  intro hnone
  rw [hnone] at hentry
  cases hentry

/-- What a request has come to before it commits, and what the commit has done. -/
theorem Turn.Takes.phases (h : turn.Takes environment world next)
    (hsessions : Represents environment world sessions) :
    ∃ middle, Keeping environment turn.request world middle ∧
      Phase environment turn.request world middle turn.working ∧
      ((turn.committing = [] ∧ turn.final = turn.working ∧ next = middle ∧
          (turn.working.session.loaded = false ∨ turn.working.session.dirty = false ∨
            turn.working.session.destroy = true)) ∨
        Storing environment turn.working turn.final turn.committing middle next) := by
  obtain ⟨middle, hevents, hcommitting⟩ := serves_append.mp h.served
  have hphase := (sessionPerformAll_phase h.uncommitted (hsessions.rowDecodes _)).leads h.performs
  have hkeeps : Keeps (fun _ _ => True) _ [] (sessionCommit environment turn.working) :=
    sessionCommit_keeps (fun _ _ _ => trivial) [] fun _ _ _ _ _ _ _ _ _ _ => trivial
  have hcommit := hkeeps.leads h.commits
  obtain ⟨events, hsame, hcommit⟩ := hcommit
  rw [List.nil_append, List.nil_append] at hsame
  subst hsame
  obtain ⟨hkeeping, hphase⟩ := hphase middle hevents
  exact ⟨middle, hkeeping, hphase, hcommit.served hcommitting⟩

theorem giveUp_kept {session : Session} (h : session.regenerate = true → token ≠ session.token) :
    giveUp session sessions token = sessions token := by
  unfold giveUp
  split_ifs with hregenerate
  · exact Function.update_of_ne (h hregenerate) ..
  · rfl

theorem giveUp_token {session : Session} (h : session.regenerate = true) :
    giveUp session sessions session.token = none := by
  rw [giveUp, if_pos h, Function.update_self]

theorem giveUp_some {session : Session} (h : giveUp session sessions token ≠ none) :
    sessions token ≠ none := by
  by_cases hkept : session.regenerate = true → token ≠ session.token
  · rw [giveUp_kept hkept] at h
    exact h
  · obtain ⟨hregenerate, htoken⟩ := Classical.not_imp.mp hkept
    rw [not_not.mp htoken, giveUp_token hregenerate] at h
    exact absurd rfl h

theorem Turn.effect_idle (h : turn.committing = []) :
    turn.effect sessions = giveUp turn.working.session sessions := by
  unfold Turn.effect
  rw [h]

theorem Turn.effect_stored (h : turn.committing ≠ []) :
    turn.effect sessions = Function.update (giveUp turn.working.session sessions)
      turn.final.session.token
      (some (turn.final.session.values.contents, turn.final.session.expiresAt)) := by
  unfold Turn.effect
  cases hevents : turn.committing with
  | nil => exact absurd hevents h
  | cons => rfl

section Phases

variable {request : RequestParse.Request} {middle : SerialWorld} {context : Context}

theorem entry_unlisted {sent : Bytes} (hsessions : Represents environment world sessions)
    (hsent : presentedToken environment request = sent)
    (hdigest : sessionDigest environment sent = some digest)
    (hexpired : Expired environment request world middle) (hclock : world.clock ≤ middle.clock) :
    Entry middle.clock none (sessions sent) := by
  have hentry := hsessions.entry sent digest hdigest
  generalize hsession : sessions sent = session at hentry
  generalize hrow : world.table digest = row at hentry
  cases hentry with
  | absent => exact .absent
  | stored =>
    rw [← hsent] at hdigest
    exact .dropped (hexpired _ _ hdigest hrow)
  | dropped h => exact .dropped (h.trans hclock)

/-- Up to the commit the map is as it was, but for the session that the request gives up. -/
theorem Phase.entry (hinjective : DigestInjective environment)
    (h : Phase environment request world middle context) (hkeeping : Keeping environment request world middle)
    (hsessions : Represents environment world sessions)
    (hdigest : sessionDigest environment token = some digest)
    (hkept : context.session.regenerate = true → token ≠ context.session.token) :
    Entry middle.clock (middle.table digest) (sessions token) := by
  have hbefore := (hsessions.entry token digest hdigest).later hkeeping.clock
  by_cases hsent : token = presentedToken environment request
  · subst hsent
    cases h with
    | fresh h =>
      rw [h]
      exact hsessions.entry _ digest hdigest
    | found _ _ htable =>
      rw [htable]
      exact hbefore
    | created _ _ _ _ hunlisted hexpired =>
      rw [hunlisted digest hdigest]
      exact entry_unlisted hsessions rfl hdigest hexpired hkeeping.clock
    | ended _ _ hregenerate _ hunlisted htoken hexpired =>
      rw [hunlisted digest hdigest]
      have hnone : context.session.token = [] := by
        by_contra hsome
        exact hkept hregenerate (htoken hsome).1.symm
      exact entry_unlisted hsessions rfl hdigest (hexpired hnone) hkeeping.clock
  · rw [hkeeping.others digest fun hother => hsent (hinjective _ _ _ hdigest hother)]
    exact hbefore

theorem Phase.idle_renewed (h : Phase environment request world middle context)
    (hidle : context.session.loaded = false ∨ context.session.dirty = false ∨
      context.session.destroy = true) (hregenerate : context.session.regenerate = true) :
    Unlisted environment request middle ∧
      (cookieToken environment.sessionCookieName = true → context.responseHeaders ≠ []) := by
  have hclean : ∀ session : Session, session.loaded = true → session.destroy = false →
      RenewsDirty session → session.regenerate = true →
        ¬ (session.loaded = false ∨ session.dirty = false ∨ session.destroy = true) := by
    intro session hloaded hdestroy hrenews hregenerate
    rw [hloaded, hdestroy, hrenews hregenerate]
    simp
  cases h with
  | fresh => cases hregenerate
  | found h => exact absurd hidle (hclean _ h.loaded h.destroy h.renews hregenerate)
  | created hloaded hdestroy hrenews =>
    exact absurd hidle (hclean _ hloaded hdestroy hrenews hregenerate)
  | ended _ _ _ _ hunlisted _ _ hcookie => exact ⟨hunlisted, hcookie⟩

end Phases

section Commits

variable {request : RequestParse.Request} {middle : SerialWorld} {working final : Context}
  {events : List SessionEvent}

/-- A commit that stores nothing leaves what the request has not given up. -/
theorem Phase.represents_idle (hinjective : DigestInjective environment)
    (h : Phase environment request world middle working) (hkeeping : Keeping environment request world middle)
    (hsessions : Represents environment world sessions)
    (hidle : working.session.loaded = false ∨ working.session.dirty = false ∨
      working.session.destroy = true) :
    Represents environment middle (giveUp working.session sessions) := by
  constructor
  · intro token digest hdigest
    by_cases hkept : working.session.regenerate = true → token ≠ working.session.token
    · rw [giveUp_kept hkept]
      exact h.entry hinjective hkeeping hsessions hdigest hkept
    · obtain ⟨hregenerate, htoken⟩ := Classical.not_imp.mp hkept
      obtain rfl : token = working.session.token := not_not.mp htoken
      rw [giveUp_token hregenerate]
      rw [(h.token (token_ne_nil hdigest)).1] at hdigest
      rw [(h.idle_renewed hidle hregenerate).1 digest hdigest]
      exact .absent
  · intro token hsome
    rw [hkeeping.issued]
    exact hsessions.issued token (giveUp_some hsome)

theorem Storing.issued (h : Storing environment working final events middle next)
    (hphase : Phase environment request world middle working)
    (hkeeping : Keeping environment request world middle)
    (hsessions : Represents environment world sessions) : final.session.token ∈ next.issued := by
  rcases h.token with ⟨hsame, hsome, -, hissued⟩ | ⟨-, -, hissued⟩
  · obtain ⟨htoken, digest, row, hdigest, hrow⟩ := hphase.token hsome
    rw [hissued, hkeeping.issued, hsame, htoken]
    exact hsessions.issued_of_row hdigest hrow
  · rw [hissued]
    exact List.mem_cons_self

theorem Storing.issued_mono (h : Storing environment working final events middle next)
    (hissued : token ∈ middle.issued) : token ∈ next.issued := by
  rcases h.token with ⟨-, -, -, hsame⟩ | ⟨-, -, hnew⟩
  · rw [hsame]
    exact hissued
  · rw [hnew]
    exact List.mem_cons_of_mem _ hissued

theorem Storing.represents (hinjective : DigestInjective environment)
    (h : Storing environment working final events middle next)
    (hphase : Phase environment request world middle working)
    (hkeeping : Keeping environment request world middle)
    (hsessions : Represents environment world sessions) :
    Represents environment next (Function.update (giveUp working.session sessions) final.session.token
      (some (final.session.values.contents, final.session.expiresAt))) := by
  obtain ⟨stored, row, hstored, hrow, hdecodes, hexpires⟩ := h.row
  constructor
  · intro token digest hdigest
    by_cases hfinal : token = final.session.token
    · subst hfinal
      cases hdigest.symm.trans hstored
      rw [Function.update_self, hrow, ← hexpires]
      exact .stored hdecodes
    rw [Function.update_of_ne hfinal]
    have hother : sessionDigest environment final.session.token ≠ some digest :=
      fun h => hfinal (hinjective _ _ _ hdigest h)
    by_cases hkept : working.session.regenerate = true → token ≠ working.session.token
    · rw [giveUp_kept hkept, h.others digest hother fun hregenerate hgiven =>
        hkept hregenerate (hinjective _ _ _ hdigest hgiven)]
      exact (hphase.entry hinjective hkeeping hsessions hdigest hkept).later h.clock
    · obtain ⟨hregenerate, htoken⟩ := Classical.not_imp.mp hkept
      obtain rfl : token = working.session.token := not_not.mp htoken
      rw [giveUp_token hregenerate, h.removed hregenerate digest hdigest hother]
      exact .absent
  · intro token hsome
    by_cases hfinal : token = final.session.token
    · rw [hfinal]
      exact h.issued hphase hkeeping hsessions
    · rw [Function.update_of_ne hfinal] at hsome
      apply h.issued_mono
      rw [hkeeping.issued]
      exact hsessions.issued token (giveUp_some hsome)

end Commits

theorem Turn.Takes.represents (hinjective : DigestInjective environment)
    (h : turn.Takes environment world next) (hsessions : Represents environment world sessions) :
    Represents environment next (turn.effect sessions) := by
  obtain ⟨middle, hkeeping, hphase, hcommit⟩ := h.phases hsessions
  rcases hcommit with ⟨hcommitting, -, rfl, hidle⟩ | hstoring
  · rw [Turn.effect_idle hcommitting]
    exact hphase.represents_idle hinjective hkeeping hsessions hidle
  · rw [Turn.effect_stored hstoring.called]
    exact hstoring.represents hinjective hphase hkeeping hsessions

theorem SerialRun.represents (hinjective : DigestInjective environment)
    (h : SerialRun environment start turns world) (hsessions : Represents environment start sessions) :
    Represents environment world (sessionsAfter turns sessions) := by
  induction h generalizing sessions with
  | nil => exact hsessions
  | cons hturn _ ih => exact ih (hturn.represents hinjective hsessions)

theorem Turn.Takes.clock (h : turn.Takes environment world next)
    (hsessions : Represents environment world sessions) : world.clock ≤ next.clock := by
  obtain ⟨middle, hkeeping, -, hcommit⟩ := h.phases hsessions
  rcases hcommit with ⟨-, -, rfl, -⟩ | hstoring
  · exact hkeeping.clock
  · exact hkeeping.clock.trans hstoring.clock

theorem Turn.Takes.issued (h : turn.Takes environment world next)
    (hsessions : Represents environment world sessions) (hissued : token ∈ world.issued) :
    token ∈ next.issued := by
  obtain ⟨middle, hkeeping, -, hcommit⟩ := h.phases hsessions
  rw [← hkeeping.issued] at hissued
  rcases hcommit with ⟨-, -, rfl, -⟩ | hstoring
  · exact hissued
  · exact hstoring.issued_mono hissued

theorem SerialRun.clock (hinjective : DigestInjective environment)
    (h : SerialRun environment start turns world) (hsessions : Represents environment start sessions) :
    start.clock ≤ world.clock := by
  induction h generalizing sessions with
  | nil => exact le_refl _
  | cons hturn _ ih =>
    exact (hturn.clock hsessions).trans (ih (hturn.represents hinjective hsessions))

/-- The response to a request that was sent the token sets no cookie. -/
def Turn.Silent (environment : Environment) (token : Bytes) (turn : Turn) : Prop :=
  presentedToken environment turn.request = token → turn.final.responseHeaders = []

section Silence

variable {request : RequestParse.Request} {middle : SerialWorld} {context : Context}
  {contents : SessionContents} {expiresAt : ℤ}

/-- A session that is in the map and has not expired has its row. -/
theorem Represents.row (hsessions : Represents environment world sessions)
    (hdigest : sessionDigest environment token = some digest)
    (hsession : sessions token = some (contents, expiresAt)) (hclock : world.clock < expiresAt) :
    ∃ row, world.table digest = some row ∧ Decodes row.data contents ∧ row.expiresAt = expiresAt := by
  have hentry := hsessions.entry token digest hdigest
  rw [hsession] at hentry
  generalize world.table digest = row at hentry ⊢
  cases hentry with
  | @stored row _ hdecodes => exact ⟨row, rfl, hdecodes, rfl⟩
  | dropped h => exact absurd (lt_of_lt_of_le hclock h) (lt_irrefl _)

/-- What a request that neither ends nor stores its session has loaded. -/
theorem Phase.idle_contents (h : Phase environment request world middle context)
    (hsessions : Represents environment world sessions)
    (hdigest : sessionDigest environment (presentedToken environment request) = some digest)
    (hsession : sessions (presentedToken environment request) = some (contents, expiresAt))
    (hkeeping : Keeping environment request world middle) (hclock : middle.clock < expiresAt)
    (hidle : context.session.loaded = false ∨ context.session.dirty = false ∨
      context.session.destroy = true) (hkept : context.session.regenerate = false)
    (hloaded : context.session.loaded = true) : context.session.values.contents = contents := by
  obtain ⟨row, hrow, hdecodes, hexpires⟩ := hsessions.row hdigest hsession (lt_of_le_of_lt hkeeping.clock hclock)
  cases h with
  | fresh => cases hloaded
  | @found session h =>
    obtain ⟨other, found, original, hother, hfound, horiginal, hclean⟩ := h.row
    cases hdigest.symm.trans hother
    cases hrow.symm.trans hfound
    rw [decodes_unique hdecodes horiginal]
    apply hclean
    rcases hidle with hnot | hdirty | hended
    · exact absurd (h.loaded.symm.trans hnot) (by simp)
    · exact hdirty
    · exact absurd (h.destroy.symm.trans hended) (by simp)
  | created _ _ _ _ _ hexpired =>
    have hlate := hexpired digest row hdigest hrow
    rw [hexpires] at hlate
    exact absurd (lt_of_lt_of_le hclock hlate) (lt_irrefl _)
  | ended _ _ hregenerate => exact absurd (hkept.symm.trans hregenerate) (by simp)

/-- A request whose response sets no cookie leaves the session of its token as it is, and
    ends with the values it had found. -/
theorem Turn.Takes.keeps_session (hname : cookieToken environment.sessionCookieName = true)
    (h : turn.Takes environment world next) (hsessions : Represents environment world sessions)
    (hdigest : sessionDigest environment token = some digest)
    (hsession : sessions token = some (contents, expiresAt)) (hclock : next.clock < expiresAt)
    (hsilent : turn.Silent environment token) :
    turn.effect sessions token = some (contents, expiresAt) ∧
      (presentedToken environment turn.request = token → turn.final.session.loaded = true →
        turn.final.session.values.contents = contents) := by
  obtain ⟨middle, hkeeping, hphase, hcommit⟩ := h.phases hsessions
  rcases hcommit with ⟨hcommitting, hfinal, rfl, hidle⟩ | hstoring
  · have hkept : presentedToken environment turn.request = token →
        turn.working.session.regenerate = false := by
      intro hsent
      have hheaders := hsilent hsent
      rw [hfinal] at hheaders
      rw [← Bool.not_eq_true]
      intro hregenerate
      exact (hphase.idle_renewed hidle hregenerate).2 hname hheaders
    constructor
    · rw [Turn.effect_idle hcommitting, giveUp_kept, hsession]
      intro hregenerate hgiven
      have hsent := (hphase.token (hgiven ▸ token_ne_nil hdigest)).1
      exact absurd ((hkept (hsent.symm.trans hgiven.symm)).symm.trans hregenerate) (by simp)
    · intro hsent hloaded
      have hregenerate := hkept hsent
      subst hsent
      rw [hfinal] at hloaded ⊢
      exact hphase.idle_contents hsessions hdigest hsession hkeeping hclock hidle hregenerate hloaded
  · have hother : presentedToken environment turn.request ≠ token := by
      intro hsent
      have hheaders := hsilent hsent
      rw [hstoring.headers] at hheaders
      simp at hheaders
    have hworking : token ≠ turn.working.session.token := by
      intro hsame
      exact hother ((hphase.token (hsame ▸ token_ne_nil hdigest)).1.symm.trans hsame.symm)
    have hfinal : token ≠ turn.final.session.token := by
      rcases hstoring.token with ⟨hsame, -⟩ | ⟨-, hnew, -⟩
      · rw [hsame]
        exact hworking
      · rw [hkeeping.issued] at hnew
        intro hsame
        rw [← hsame] at hnew
        exact hnew (hsessions.issued token (by simp [hsession]))
    refine ⟨?_, fun hsent => absurd hsent hother⟩
    rw [Turn.effect_stored hstoring.called, Function.update_of_ne hfinal, giveUp_kept fun _ => hworking,
      hsession]

theorem SerialRun.keeps_session (hinjective : DigestInjective environment)
    (hname : cookieToken environment.sessionCookieName = true)
    (h : SerialRun environment start turns world) (hsessions : Represents environment start sessions)
    (hdigest : sessionDigest environment token = some digest)
    (hsession : sessions token = some (contents, expiresAt)) (hclock : world.clock < expiresAt)
    (hsilent : ∀ turn ∈ turns, turn.Silent environment token) :
    sessionsAfter turns sessions token = some (contents, expiresAt) ∧
      ∀ turn ∈ turns, presentedToken environment turn.request = token → turn.final.session.loaded = true →
        turn.final.session.values.contents = contents := by
  induction h generalizing sessions with
  | nil => exact ⟨hsession, fun turn hmem => absurd hmem List.not_mem_nil⟩
  | @cons world next last turn turns hturn hrest ih =>
    have hnext := hturn.represents hinjective hsessions
    obtain ⟨hkept, hsame⟩ := hturn.keeps_session hname hsessions hdigest hsession
      (lt_of_le_of_lt (hrest.clock hinjective hnext) hclock) (hsilent turn List.mem_cons_self)
    obtain ⟨hfinal, hall⟩ := ih hnext hkept hclock fun other hmem =>
      hsilent other (List.mem_cons_of_mem _ hmem)
    refine ⟨hfinal, ?_⟩
    intro other hmem
    rcases List.mem_cons.mp hmem with rfl | hlater
    · exact hsame
    · exact hall other hlater

/-- What a load with the token finds, if the clock is before the session's expiry. -/
def LoadsContents (environment : Environment) (world : SerialWorld) (token : Bytes)
    (contents : SessionContents) (expiresAt : ℤ) : Prop :=
  ∀ request, presentedToken environment request = token → ∀ events result next,
    Leads (sessionLoad environment { request := request }) events (.done result) →
      ServesAll world events next → next.clock < expiresAt →
        result.1 = true ∧ result.2.session.token = token ∧ result.2.session.values.contents = contents

def LoadsNothing (environment : Environment) (world : SerialWorld) (token : Bytes) : Prop :=
  ∀ request, presentedToken environment request = token → ∀ events result next,
    Leads (sessionLoad environment { request := request }) events (.done result) →
      ServesAll world events next → result.2.session = { loaded := true }

theorem sessionLoad_result {events : List SessionEvent} {result : Bool × Context}
    (h : Leads (sessionLoad environment { request := request }) events (.done result)) :
    LoadResult environment { request := request } (presentedToken environment request) events result := by
  have hkeeps : Keeps (fun _ _ => True) _ [] (sessionLoad environment { request := request }) :=
    sessionLoad_keeps (fun _ _ _ => trivial) []
  obtain ⟨later, hsame, hresult⟩ := hkeeps.leads h
  rw [List.nil_append, List.nil_append] at hsame
  rw [hsame]
  exact hresult

theorem servesAll_select {found : Option SessionRow} {events : List SessionEvent}
    (h : ServesAll world (⟨.select digest, some found⟩ :: events) next) :
    found = world.table digest ∧ ServesAll world events next := by
  obtain ⟨middle, hselect, hrest⟩ := serves_cons.mp h
  obtain ⟨hfound, rfl⟩ := hselect.select_inv
  exact ⟨Option.some.inj hfound, hrest⟩

theorem Represents.loadsContents (hsessions : Represents environment world sessions)
    (hdigest : sessionDigest environment token = some digest)
    (hsession : sessions token = some (contents, expiresAt)) :
    LoadsContents environment world token contents expiresAt := by
  intro request hsent events result next hleads hserves hclock
  have hload := sessionLoad_result hleads
  obtain ⟨-, hkeeping, -⟩ := hload.served hserves (hsessions.rowDecodes request)
  obtain ⟨row, hrow, hdecodes, hexpires⟩ := hsessions.row hdigest hsession
    (lt_of_le_of_lt hkeeping.clock hclock)
  rw [hsent] at hload
  cases hload with
  | noCookie hnone =>
    rw [hdigest] at hnone
    cases hnone
  | failed =>
    obtain ⟨middle, hselect, -⟩ := serves_cons.mp hserves
    exact absurd hselect.select_inv.1 (by simp)
  | absent hother =>
    cases hdigest.symm.trans hother
    exact absurd ((servesAll_select hserves).1.trans hrow) (by simp)
  | @expired _ found now deleted hother hexpired =>
    cases hdigest.symm.trans hother
    obtain ⟨hfound, hrest⟩ := servesAll_select hserves
    obtain rfl := Option.some.inj (hfound.trans hrow)
    obtain ⟨third, htime, hrest⟩ := serves_cons.mp hrest
    obtain ⟨-, rfl⟩ := htime.time_inv
    obtain ⟨last, hdelete, hrest⟩ := serves_cons.mp hrest
    obtain ⟨-, rfl⟩ := hdelete.delete_inv
    obtain rfl := serves_nil.mp hrest
    rw [hexpires] at hexpired
    exact absurd (lt_of_lt_of_le hclock hexpired) (lt_irrefl _)
  | undecoded _ _ hother hvalues =>
    cases hdigest.symm.trans hother
    obtain rfl := Option.some.inj ((servesAll_select hserves).1.trans hrow)
    obtain ⟨values, hdecoded, -⟩ := hdecodes
    rw [hdecoded] at hvalues
    cases hvalues
  | found hother _ hvalues =>
    cases hdigest.symm.trans hother
    obtain rfl := Option.some.inj ((servesAll_select hserves).1.trans hrow)
    exact ⟨rfl, rfl, decodes_unique ⟨_, hvalues, rfl⟩ hdecodes⟩

theorem Represents.loadsNothing (hsessions : Represents environment world sessions)
    (hsession : sessions token = none) : LoadsNothing environment world token := by
  intro request hsent events result next hleads hserves
  have hload := sessionLoad_result hleads
  have habsent : ∀ digest, sessionDigest environment (presentedToken environment request) = some digest →
      world.table digest = none := by
    intro digest hdigest
    have hentry := hsessions.entry _ digest hdigest
    rw [hsent, hsession] at hentry
    generalize world.table digest = row at hentry
    cases hentry
    rfl
  cases hload with
  | noCookie => rfl
  | failed => rfl
  | absent => rfl
  | expired _ hdigest => exact absurd ((servesAll_select hserves).1.trans (habsent _ hdigest)) (by simp)
  | undecoded _ _ hdigest => exact absurd ((servesAll_select hserves).1.trans (habsent _ hdigest)) (by simp)
  | found hdigest => exact absurd ((servesAll_select hserves).1.trans (habsent _ hdigest)) (by simp)

end Silence

/-- A token that was issued and is not in the map never comes back. -/
theorem Turn.Takes.keeps_absent (h : turn.Takes environment world next)
    (hsessions : Represents environment world sessions) (hsession : sessions token = none)
    (hissued : token ∈ world.issued) : turn.effect sessions token = none := by
  obtain ⟨middle, hkeeping, hphase, hcommit⟩ := h.phases hsessions
  have hkept : giveUp turn.working.session sessions token = none := by
    by_contra hsome
    exact giveUp_some hsome hsession
  rcases hcommit with ⟨hcommitting, -, -, -⟩ | hstoring
  · rw [Turn.effect_idle hcommitting]
    exact hkept
  · rw [Turn.effect_stored hstoring.called, Function.update_of_ne, hkept]
    intro hfinal
    rcases hstoring.token with ⟨hsame, hsome, -⟩ | ⟨-, hnew, -⟩
    · obtain ⟨hsent, digest, row, hdigest, hrow⟩ := hphase.token hsome
      have hentry := hsessions.entry _ digest hdigest
      rw [hrow, ← hsent, ← hsame, ← hfinal, hsession] at hentry
      cases hentry
    · rw [← hfinal, hkeeping.issued] at hnew
      exact hnew hissued

theorem SerialRun.keeps_absent (hinjective : DigestInjective environment)
    (h : SerialRun environment start turns world) (hsessions : Represents environment start sessions)
    (hsession : sessions token = none) (hissued : token ∈ start.issued) :
    sessionsAfter turns sessions token = none := by
  induction h generalizing sessions with
  | nil => exact hsession
  | cons hturn _ ih =>
    exact ih (hturn.represents hinjective hsessions) (hturn.keeps_absent hsessions hsession hissued)
      (hturn.issued hsessions hissued)

/-- A request that renews or ends its session gives up the token it had. -/
theorem Turn.Takes.gives_up (h : turn.Takes environment world next)
    (hsessions : Represents environment world sessions)
    (hregenerate : turn.working.session.regenerate = true) (hsome : turn.working.session.token ≠ []) :
    turn.effect sessions turn.working.session.token = none ∧
      turn.working.session.token ∈ next.issued := by
  obtain ⟨middle, hkeeping, hphase, hcommit⟩ := h.phases hsessions
  obtain ⟨hsent, digest, row, hdigest, hrow⟩ := hphase.token hsome
  rw [← hsent] at hdigest
  have hissued := hsessions.issued_of_row hdigest hrow
  refine ⟨?_, h.issued hsessions hissued⟩
  rcases hcommit with ⟨hcommitting, -, -, -⟩ | hstoring
  · rw [Turn.effect_idle hcommitting, giveUp_token hregenerate]
  · rw [Turn.effect_stored hstoring.called, Function.update_of_ne, giveUp_token hregenerate]
    intro hfinal
    rcases hstoring.token with ⟨-, -, hkept, -⟩ | ⟨-, hnew, -⟩
    · exact absurd (hkept.symm.trans hregenerate) (by simp)
    · rw [← hfinal, hkeeping.issued] at hnew
      exact hnew hissued

theorem Turn.Takes.renewed (h : turn.Takes environment world next)
    (hrenewed : RenewedBy turn.operations turn.answers) : turn.working.session.regenerate = true := by
  have hkeeps := (sessionPerformAll_renewed h.uncommitted []).leads h.performs
  exact hkeeps (.inr hrenewed)

/-- A request that has given up its token stores only under one that its commit is issued. -/
theorem Turn.Takes.stores_new (h : turn.Takes environment world next)
    (hsessions : Represents environment world sessions)
    (hregenerate : turn.working.session.regenerate = true) {data : Bytes} {now expiresAt : ℤ}
    (hstored : (⟨.replace digest data now expiresAt, true⟩ : SessionEvent) ∈
      turn.events ++ turn.committing) :
    ∃ token, (⟨.randomToken, some token⟩ : SessionEvent) ∈ turn.committing ∧
      token ∉ world.issued ∧ sessionDigest environment token = some digest := by
  obtain ⟨middle, hkeeping, hphase, hcommit⟩ := h.phases hsessions
  have hcommitting : (⟨.replace digest data now expiresAt, true⟩ : SessionEvent) ∈ turn.committing := by
    rcases List.mem_append.mp hstored with hbefore | hafter
    · obtain ⟨_, hnoStore⟩ := (sessionPerformAll_noStore h.uncommitted []).allows h.performs hbefore
      exact absurd rfl (hnoStore digest data now expiresAt)
    · exact hafter
  rcases hcommit with ⟨hnothing, -, -, -⟩ | hstoring
  · rw [hnothing] at hcommitting
    cases hcommitting
  · rcases hstoring.token with ⟨-, -, hkept, -⟩ | ⟨hnew, hfresh, -⟩
    · exact absurd (hkept.symm.trans hregenerate) (by simp)
    · rw [hkeeping.issued] at hfresh
      exact ⟨_, hnew, hfresh, hstoring.replaces _ _ _ _ hcommitting⟩

theorem Served.issued_mono {c : SessionCall} {answer : SessionReply c}
    (h : Served world c answer next) (hissued : token ∈ world.issued) : token ∈ next.issued := by
  cases h with
  | token => exact List.mem_cons_of_mem _ hissued
  | _ => exact hissued

theorem servesAll_issued {events : List SessionEvent} (h : ServesAll world events next) :
    (token ∈ world.issued → token ∈ next.issued) ∧
      ((⟨.randomToken, some token⟩ : SessionEvent) ∈ events → token ∈ next.issued) := by
  induction h with
  | nil => exact ⟨id, fun hmem => absurd hmem List.not_mem_nil⟩
  | @cons world middle next event events hanswer _ ih =>
    refine ⟨fun hissued => ih.1 (hanswer.issued_mono hissued), ?_⟩
    intro hmem
    rcases List.mem_cons.mp hmem with heq | hlater
    · subst heq
      obtain ⟨other, hother, -, rfl⟩ := hanswer.token_inv
      obtain rfl : token = other := Option.some.inj hother
      exact ih.1 List.mem_cons_self
    · exact ih.2 hlater

theorem SerialRun.issued (h : SerialRun environment start turns world) :
    (token ∈ start.issued → token ∈ world.issued) ∧
      ∀ turn ∈ turns, (⟨.randomToken, some token⟩ : SessionEvent) ∈ turn.events ++ turn.committing →
        token ∈ world.issued := by
  induction h with
  | nil => exact ⟨id, fun turn hmem => absurd hmem List.not_mem_nil⟩
  | cons hturn _ ih =>
    have hissued := @servesAll_issued _ _ token _ hturn.served
    refine ⟨fun h => ih.1 (hissued.1 h), ?_⟩
    intro other hmem hevent
    rcases List.mem_cons.mp hmem with rfl | hlater
    · exact ih.1 (hissued.2 hevent)
    · exact ih.2 other hlater hevent

/-- The commit of a request sets the session's cookie to a token. -/
def Turn.SetsCookie (environment : Environment) (token : Bytes) (turn : Turn) : Prop :=
  turn.final.responseHeaders = turn.working.responseHeaders ++ [⟨sv "Set-Cookie",
    cookieText environment.sessionCookieName token (sessionStoreOptions environment)⟩]

theorem cookieText_injective {name first second : Bytes} {options : CookieOptions}
    (h : cookieText name first options = cookieText name second options) : first = second := by
  unfold cookieText at h
  simpa using h

theorem Turn.Takes.sets_cookie (h : turn.Takes environment world next)
    (hsessions : Represents environment world sessions) (hset : turn.SetsCookie environment token) :
    cookieToken environment.sessionCookieName = true ∧
      (∃ digest, sessionDigest environment token = some digest) ∧
      turn.effect sessions token =
        some (turn.final.session.values.contents, turn.final.session.expiresAt) := by
  obtain ⟨middle, -, -, hcommit⟩ := h.phases hsessions
  unfold Turn.SetsCookie at hset
  rcases hcommit with ⟨-, hfinal, -, -⟩ | hstoring
  · rw [hfinal] at hset
    simp at hset
  · rw [hstoring.headers, List.append_right_inj, List.cons.injEq, ResponseHeader.mk.injEq] at hset
    obtain rfl : turn.final.session.token = token := cookieText_injective hset.1.2
    obtain ⟨digest, -, hdigest, -⟩ := hstoring.row
    refine ⟨hstoring.name, ⟨digest, hdigest⟩, ?_⟩
    rw [Turn.effect_stored hstoring.called, Function.update_self]

theorem represents_empty (hempty : ∀ digest, start.table digest = none) :
    Represents environment start fun _ => none := by
  constructor
  · intro token digest _
    rw [hempty]
    exact .absent
  · intro token hsome
    exact absurd rfl hsome

/-- In every serial run from an empty table the table is a map from tokens to sessions.
    The token of a cookie finds the values of the commit that set it, until a request
    that was sent it sets another or it expires; a token that was given up finds nothing;
    and a session that was ended is stored again only under a token of its own. -/
theorem serialRun_sessions (hinjective : DigestInjective environment)
    (hempty : ∀ digest, start.table digest = none) (hrun : SerialRun environment start turns world) :
    Represents environment world (sessionsAfter turns fun _ => none) ∧
      ∀ before turn after, turns = before ++ turn :: after →
        (∀ token, turn.SetsCookie environment token →
          (∀ later ∈ after, later.Silent environment token) →
          world.clock < turn.final.session.expiresAt →
            LoadsContents environment world token turn.final.session.values.contents
              turn.final.session.expiresAt ∧
            ∀ later ∈ after, presentedToken environment later.request = token →
              later.final.session.loaded = true →
                later.final.session.values.contents = turn.final.session.values.contents) ∧
        (RenewedBy turn.operations turn.answers → turn.working.session.regenerate = true) ∧
        (turn.working.session.regenerate = true → turn.working.session.token ≠ [] →
          LoadsNothing environment world turn.working.session.token) ∧
        ((.destroy, .done true) ∈ turn.operations.zip turn.answers ∨
            (.logout, .done true) ∈ turn.operations.zip turn.answers →
          ∀ digest data now expiresAt, (⟨.replace digest data now expiresAt, true⟩ : SessionEvent) ∈
              turn.events ++ turn.committing →
            ∃ token, (⟨.randomToken, some token⟩ : SessionEvent) ∈ turn.committing ∧
              sessionDigest environment token = some digest ∧ token ∉ start.issued ∧
              ∀ earlier ∈ before, (⟨.randomToken, some token⟩ : SessionEvent) ∉
                earlier.events ++ earlier.committing) := by
  refine ⟨hrun.represents hinjective (represents_empty hempty), ?_⟩
  rintro before turn after rfl
  obtain ⟨sent, hbefore, hrest⟩ := serialRun_append hrun
  have hsent := hbefore.represents hinjective (represents_empty hempty)
  cases hrest with
  | @cons _ next _ _ _ hturn hafter =>
    have hnext := hturn.represents hinjective hsent
    have hlast := hafter.represents hinjective hnext
    refine ⟨?_, hturn.renewed, ?_, ?_⟩
    · intro token hset hsilent hclock
      obtain ⟨hname, ⟨digest, hdigest⟩, hsession⟩ := hturn.sets_cookie hsent hset
      obtain ⟨hkept, hsame⟩ := hafter.keeps_session hinjective hname hnext hdigest hsession hclock hsilent
      exact ⟨hlast.loadsContents hdigest hkept, hsame⟩
    · intro hregenerate hsome
      obtain ⟨hnone, hissued⟩ := hturn.gives_up hsent hregenerate hsome
      exact hlast.loadsNothing (hafter.keeps_absent hinjective hnext hnone hissued)
    · intro hended digest data now expiresAt hstored
      have hregenerate : turn.working.session.regenerate = true := by
        apply hturn.renewed
        rcases hended with hdestroy | hlogout
        · exact ⟨.destroy, trivial, hdestroy⟩
        · exact ⟨.logout, trivial, hlogout⟩
      obtain ⟨token, hnew, hfresh, hdigest⟩ := hturn.stores_new hsent hregenerate hstored
      exact ⟨token, hnew, hdigest, fun h => hfresh (hbefore.issued.1 h),
        fun earlier hmem h => hfresh (hbefore.issued.2 earlier hmem h)⟩

/-! A visitor's first request is issued a token and sets a boolean, the second reads it, and the third
renews the session. -/

def visitorWorld : SerialWorld where
  table _ := none
  issued := []
  clock := 0

def visitorWorking : Context where
  request := {}
  session :=
    { values := (SessionValues.empty.setValue (sv "a") (smBool true)).2, loaded := true, dirty := true }

def visitorTurn : Turn where
  request := {}
  operations := [.setBool (sv "a") true]
  answers := [.done true]
  events := []
  working := visitorWorking
  committing := [⟨.randomToken, some sampleToken⟩, ⟨.time, (1 : ℤ)⟩,
    ⟨.replace sampleToken [1, 0, 1, 0, 1, 97, 3, 1] 1 61, true⟩]
  final := committedContext sampleEnvironment (tokenContext visitorWorking sampleToken) 61

def visitorRow : SessionRow := ⟨[1, 0, 1, 0, 1, 97, 3, 1], 1, 1, 61⟩

def readValues : SessionValues := (sessionDeserialize .empty visitorRow.data).2

def readerFound : Context := foundContext { request := sampleRequest } sampleToken visitorRow readValues

def readerTurn : Turn where
  request := sampleRequest
  operations := [.getBool (sv "a")]
  answers := [.bool (readValues.getBool (sv "a"))]
  events := [⟨.select sampleToken, some (some visitorRow)⟩, ⟨.time, (2 : ℤ)⟩]
  working := readerFound
  committing := []
  final := readerFound

def renewerWorking : Context :=
  { readerFound with session := { readerFound.session with regenerate := true, dirty := true } }

def renewerTurn : Turn where
  request := sampleRequest
  operations := [.regenerate]
  answers := [.done true]
  events := [⟨.select sampleToken, some (some visitorRow)⟩, ⟨.time, (3 : ℤ)⟩]
  working := renewerWorking
  committing := [⟨.delete sampleToken, true⟩, ⟨.randomToken, some (sv "U")⟩, ⟨.time, (4 : ℤ)⟩,
    ⟨.replace (sv "U") visitorRow.data 4 64, true⟩]
  final := committedContext sampleEnvironment (tokenContext renewerWorking (sv "U")) 64

theorem visitor_sent : presentedToken sampleEnvironment {} = [] := by
  cbv

def visitedWorld (clock : ℤ) : SerialWorld where
  table := tableReplace (fun _ => none) sampleToken visitorRow.data 1 61
  issued := [sampleToken]
  clock := clock

theorem visitor_takes : visitorTurn.Takes sampleEnvironment visitorWorld (visitedWorld 1) := by
  obtain ⟨hset, hdata⟩ := sample_data (sv "a") (.inl rfl)
  have hload : Leads (sessionEnsure sampleEnvironment { request := {} }) []
      (.done (true, loadedContext { request := {} })) := by
    have hdigest : sessionDigest sampleEnvironment (contextCookie { request := {} }
        sampleEnvironment.sessionCookieName) = none := by
      change sessionDigest sampleEnvironment (presentedToken sampleEnvironment {}) = none
      rw [visitor_sent]
      rfl
    change Leads (sessionLoad sampleEnvironment { request := {} }) _ _
    rw [sessionLoad_eq, hdigest]
    exact .nil _
  have hperform : Leads (sessionPerform sampleEnvironment { request := {} } (.setBool (sv "a") true)) _ _ :=
    sessionWith_leads hload
  have hset' : sessionSet (loadedContext { request := {} })
      (SessionValues.empty.setValue (sv "a") (smBool true)) = (true, visitorWorking) := by
    unfold sessionSet
    rw [hset]
    rfl
  have hperforms : Leads (sessionPerformAll sampleEnvironment visitorTurn.operations { request := {} }) []
      (.done ([.done true], visitorWorking)) := by
    have hall : Leads (sessionPerformAll sampleEnvironment visitorTurn.operations { request := {} })
      _ _ := sessionPerformAll_leads hperform (.nil _)
    change Leads _ [] (.done ([SessionAnswer.done (sessionSet (loadedContext { request := {} })
      (SessionValues.empty.setValue (sv "a") (smBool true))).1], (sessionSet (loadedContext { request := {} })
      (SessionValues.empty.setValue (sv "a") (smBool true))).2)) at hall
    rw [hset'] at hall
    exact hall
  have hbytes : [1, 0, 1, 0, 1] ++ sv "a" ++ [3, 1] = ([1, 0, 1, 0, 1, 97, 3, 1] : Bytes) := by decide
  rw [hbytes] at hdata
  have hstore : Leads (sessionStore sampleEnvironment (tokenContext visitorWorking sampleToken))
      [⟨.time, (1 : ℤ)⟩, ⟨.replace sampleToken [1, 0, 1, 0, 1, 97, 3, 1] 1 61, true⟩]
      (.done (true, visitorTurn.final)) :=
    sessionStore_leads hdata (by decide) sample_digest 1 (sample_cookie _ rfl)
  have hcommits : Leads (sessionCommit sampleEnvironment visitorWorking) visitorTurn.committing
      (.done (true, visitorTurn.final)) := sessionCommit_leads_issued rfl rfl rfl rfl hstore
  have hfresh : sampleToken ∉ visitorWorld.issued := List.not_mem_nil
  have hserved : ServesAll visitorWorld visitorTurn.committing (visitedWorld 1) :=
    .cons (.token hfresh) (.cons (.time (show (0 : ℤ) ≤ 1 by decide)) (.cons (.replace ..) (.nil _)))
  have hoperations : Uncommitted visitorTurn.operations := by
    unfold Uncommitted
    decide
  exact ⟨hoperations, hperforms, hcommits, hserved⟩

theorem visited_select (clock : ℤ) :
    Served (visitedWorld clock) (.select sampleToken) (some (some visitorRow)) (visitedWorld clock) := by
  have hrow : (visitedWorld clock).table sampleToken = some visitorRow := by
    simp [visitedWorld, tableReplace, visitorRow]
  rw [← hrow]
  exact .select sampleToken

theorem visited_ensure {now : ℤ} (hnow : now < 61) :
    Leads (sessionEnsure sampleEnvironment { request := sampleRequest })
      [⟨.select sampleToken, some (some visitorRow)⟩, ⟨.time, now⟩] (.done (true, readerFound)) := by
  have hvalues : sessionDeserialize .empty visitorRow.data = (true, readValues) :=
    Prod.ext (by decide) rfl
  exact sessionEnsure_leads rfl (sessionLoad_leads sample_sent sample_digest hnow hvalues)

theorem reader_takes : readerTurn.Takes sampleEnvironment (visitedWorld 1) (visitedWorld 2) := by
  have hperform : Leads (sessionPerform sampleEnvironment { request := sampleRequest } (.getBool (sv "a")))
      _ _ := sessionWith_leads (visited_ensure (show (2 : ℤ) < 61 by decide))
  have hall : Leads (sessionPerformAll sampleEnvironment readerTurn.operations { request := sampleRequest })
    _ _ := sessionPerformAll_leads hperform (.nil _)
  have hcommits : Leads (sessionCommit sampleEnvironment readerFound) [] (.done (true, readerFound)) :=
    .nil _
  have hserved : ServesAll (visitedWorld 1) (readerTurn.events ++ []) (visitedWorld 2) :=
    .cons (visited_select 1) (.cons (.time (show (1 : ℤ) ≤ 2 by decide)) (.nil _))
  exact ⟨by unfold Uncommitted; decide, hall, hcommits, hserved⟩

theorem renewer_takes : ∃ world, renewerTurn.Takes sampleEnvironment (visitedWorld 2) world := by
  have hperform : Leads (sessionPerform sampleEnvironment { request := sampleRequest } .regenerate) _ _ :=
    sessionWith_leads (visited_ensure (show (3 : ℤ) < 61 by decide))
  have hall : Leads (sessionPerformAll sampleEnvironment renewerTurn.operations { request := sampleRequest })
    _ _ := sessionPerformAll_leads hperform (.nil _)
  have hdata : sessionSerialize readValues = some visitorRow.data := by
    unfold sessionSerialize
    rw [smIterate_entries]
    decide
  have hdigest : sessionDigest sampleEnvironment (sv "U") = some (sv "U") := rfl
  have hcookie : (contextSetCookie (expiryContext (tokenContext renewerWorking (sv "U")) 64)
      sampleEnvironment.sessionCookieName (sv "U") (sessionStoreOptions sampleEnvironment)).1 = true := by
    decide +kernel
  have hstore : Leads (sessionStore sampleEnvironment (tokenContext renewerWorking (sv "U")))
      [⟨.time, (4 : ℤ)⟩, ⟨.replace (sv "U") visitorRow.data 4 64, true⟩] (.done (true, renewerTurn.final)) :=
    sessionStore_leads hdata (by decide) hdigest 4 hcookie
  have hcommits : Leads (sessionCommit sampleEnvironment renewerWorking) renewerTurn.committing
      (.done (true, renewerTurn.final)) :=
    sessionCommit_leads_renewed rfl rfl rfl rfl sample_digest hstore
  have hfresh : sv "U" ∉ (visitedWorld 3).issued := by decide
  have hserved : ServesAll (visitedWorld 2) (renewerTurn.events ++ renewerTurn.committing) _ :=
    .cons (visited_select 2) (.cons (.time (show (2 : ℤ) ≤ 3 by decide)) (.cons (.delete sampleToken)
      (.cons (.token hfresh) (.cons (.time (show (3 : ℤ) ≤ 4 by decide)) (.cons (.replace ..) (.nil _))))))
  exact ⟨_, by unfold Uncommitted; decide, hall, hcommits, hserved⟩

/-- The second request has the values that the first has set, and after the third nothing is found
under their token. -/
theorem serialRun_sessions_renewed : ∃ world,
    SerialRun sampleEnvironment visitorWorld [visitorTurn, readerTurn, renewerTurn] world ∧
    Represents sampleEnvironment world (sessionsAfter [visitorTurn, readerTurn, renewerTurn] fun _ => none) ∧
    readValues.contents = visitorTurn.final.session.values.contents ∧
    LoadsNothing sampleEnvironment world sampleToken := by
  obtain ⟨world, hrenewed⟩ := renewer_takes
  have hread : SerialRun sampleEnvironment visitorWorld [visitorTurn, readerTurn] (visitedWorld 2) :=
    .cons visitor_takes (.cons reader_takes (.nil _))
  have hrun : SerialRun sampleEnvironment visitorWorld [visitorTurn, readerTurn, renewerTurn] world :=
    .cons visitor_takes (.cons reader_takes (.cons hrenewed (.nil world)))
  obtain ⟨-, hreads⟩ := serialRun_sessions sample_injective (fun _ => rfl) hread
  obtain ⟨hrepresents, hturns⟩ := serialRun_sessions sample_injective (fun _ => rfl) hrun
  have hsilent : ∀ later ∈ [readerTurn], later.Silent sampleEnvironment sampleToken :=
    List.forall_mem_singleton.mpr fun _ => rfl
  have hvalues := ((hreads [] visitorTurn [readerTurn] rfl).1 sampleToken rfl hsilent
    (show (2 : ℤ) < 61 by decide)).2 readerTurn List.mem_cons_self sample_sent rfl
  exact ⟨world, hrun, hrepresents, hvalues,
    (hturns [visitorTurn, readerTurn] renewerTurn [] rfl).2.2.1 rfl (by decide)⟩

end Ceasy.Sessions
