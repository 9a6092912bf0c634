import Ceasy.SessionStore
import Ceasy.GeneratorFiles

set_option autoImplicit false

/-!
# Cleaning up sessions

`ceasy sessions:cleanup` deletes the rows that have expired while requests are being
served. A request that looks for such a row finds it gone, where without the cleanup
it would have found it expired and deleted it itself. So no request can tell: whatever
requests do in a run with cleanups, they do in a run without.
-/
namespace Ceasy.Sessions
open StringView Collection Dialogue
open GeneratorFiles (CeasyProject projectPath PATH_MAX)

/-- What the command asks for: the time, which is -1 when it cannot be had, the
    variable `CEASY_DATABASE_PATH`, and whether each step of its statement succeeds. -/
structure CleanupHost where
  time : ℤ
  getenv : Option Bytes
  databaseOpen : Bytes → Bool
  databasePrepare : Bool
  databaseBindInt64 : Bool
  databaseExecute : Bool

/-- `DELETE FROM ceasy_sessions WHERE expires_at <= ?` -/
def tableCleanup (table : Bytes → Option SessionRow) (now : ℤ) : Bytes → Option SessionRow :=
  fun digest => (table digest).filter fun row => now < row.expiresAt

/-- The configured path is not used when the time cannot be had. -/
def sessionsCleanupPath (project : CeasyProject) (host : CleanupHost) : Option Bytes :=
  let configured := if host.time = -1 ∨ host.getenv = some [] then none else host.getenv
  match configured with
  | some path => if path.length < PATH_MAX then some path else none
  | none => projectPath project (sv "db/development.sqlite3") PATH_MAX

def sessionsCleanup (project : CeasyProject) (host : CleanupHost)
    (table : Bytes → Option SessionRow) : Bool × (Bytes → Option SessionRow) :=
  match sessionsCleanupPath project host with
  | none => (false, table)
  | some path =>
    if !host.databaseOpen path then (false, table)
    else if host.databasePrepare && host.databaseBindInt64 && host.databaseExecute then
      (true, tableCleanup table host.time)
    else (false, table)

theorem sessionsCleanup_table (project : CeasyProject) (host : CleanupHost)
    (table : Bytes → Option SessionRow) :
    (sessionsCleanup project host table).2 = table ∨
      (sessionsCleanup project host table).2 = tableCleanup table host.time := by
  unfold sessionsCleanup
  cases sessionsCleanupPath project host with
  | none => exact .inl rfl
  | some path =>
    dsimp only
    split_ifs
    · exact .inl rfl
    · exact .inr rfl
    · exact .inl rfl

variable {R S : Type}

/-- A dialogue that finds a row which has expired deletes it and goes on as if it had
    found none; of a row it reads only the data and the time of its expiry. -/
def Forgets : SessionDialogue R → Prop
  | .done _ => True
  | .call c next => (∀ answer, Forgets (next answer)) ∧
      ∀ digest (h : c = .select digest),
        (∀ row now, row.expiresAt ≤ now →
          Leads (next (h ▸ some (some row))) [⟨.time, now⟩, ⟨.delete digest, true⟩]
            (next (h ▸ some none))) ∧
        ∀ row other : SessionRow, row.data = other.data → row.expiresAt = other.expiresAt →
          next (h ▸ some (some row)) = next (h ▸ some (some other))

@[simp]
theorem forgets_done (result : R) : Forgets (.done result : SessionDialogue R) := trivial

theorem forgets_call {c : SessionCall} {next : SessionReply c → SessionDialogue R}
    (hc : ∀ digest, c ≠ .select digest) (hnext : ∀ answer, Forgets (next answer)) :
    Forgets (.call c next) :=
  ⟨hnext, fun digest h => absurd h (hc digest)⟩

theorem forgets_select {digest : Bytes} {next : SessionReply (.select digest) → SessionDialogue R}
    (hnext : ∀ answer, Forgets (next answer))
    (hexpired : ∀ row now, row.expiresAt ≤ now →
      Leads (next (some (some row))) [⟨.time, now⟩, ⟨.delete digest, true⟩] (next (some none)))
    (hreads : ∀ row other : SessionRow, row.data = other.data → row.expiresAt = other.expiresAt →
      next (some (some row)) = next (some (some other))) : Forgets (.call (.select digest) next) := by
  refine ⟨hnext, ?_⟩
  intro selected h
  cases h
  exact ⟨hexpired, hreads⟩

theorem Forgets.bind {d : SessionDialogue R} {f : R → SessionDialogue S} (h : Forgets d)
    (hf : ∀ result, Forgets (f result)) : Forgets (d.bind f) := by
  induction d with
  | done result => exact hf result
  | call c next ih =>
    refine ⟨fun answer => ih answer (h.1 answer), ?_⟩
    intro digest hc
    cases hc
    obtain ⟨hexpired, hreads⟩ := h.2 digest rfl
    constructor
    · intro row now hnow
      exact (hexpired row now hnow).followed f
    · intro row other hdata hexpires
      exact congrArg (·.bind f) (hreads row other hdata hexpires)

variable {environment : Environment} {context : Context}

theorem sessionDeleteDigest_forgets (token : Bytes) :
    Forgets (sessionDeleteDigest environment token) := by
  unfold sessionDeleteDigest
  cases sessionDigest environment token with
  | none => trivial
  | some digest => exact forgets_call (by simp) fun _ => trivial

theorem sessionLoadRow_forgets (cookie : Bytes) (row : SessionRow) :
    Forgets (sessionLoadRow environment context cookie row) := by
  apply forgets_call (by simp)
  intro now
  split_ifs
  · exact (sessionDeleteDigest_forgets cookie).bind fun _ => trivial
  · cases sessionDeserialize context.session.values row.data with
    | mk decoded values =>
      cases decoded with
      | true => trivial
      | false => exact (sessionDeleteDigest_forgets cookie).bind fun _ => trivial

theorem sessionLoad_forgets : Forgets (sessionLoad environment context) := by
  rw [sessionLoad_eq]
  cases hdigest : sessionDigest environment (contextCookie context environment.sessionCookieName) with
  | none => trivial
  | some digest =>
    apply forgets_select
    · intro answer
      cases answer with
      | none => trivial
      | some found =>
        cases found with
        | none => trivial
        | some row => exact sessionLoadRow_forgets _ row
    · intro row now hexpired
      apply Leads.cons
      dsimp only
      rw [if_pos hexpired, sessionDeleteDigest_eq hdigest]
      exact .cons (.nil _)
    · intro row other hdata hexpires
      dsimp only
      unfold sessionLoadRow
      rw [hdata, hexpires]

theorem sessionEnsure_forgets : Forgets (sessionEnsure environment context) := by
  unfold sessionEnsure
  split_ifs
  · trivial
  · exact sessionLoad_forgets

theorem sessionWith_forgets (refused : R) (operation : Context → R × Context) :
    Forgets (sessionWith environment context refused operation) :=
  sessionEnsure_forgets.bind fun _ => trivial

theorem sessionDestroy_forgets : Forgets (sessionDestroy environment context) := by
  apply sessionEnsure_forgets.bind
  intro loaded
  split_ifs
  · trivial
  · exact (sessionDeleteDigest_forgets _).bind fun _ => trivial
  · trivial

theorem sessionStore_forgets : Forgets (sessionStore environment context) := by
  unfold sessionStore
  cases sessionSerialize context.session.values with
  | none => trivial
  | some data =>
    dsimp only
    split_ifs
    · trivial
    cases sessionDigest environment context.session.token with
    | none => trivial
    | some digest =>
      apply forgets_call (by simp)
      intro now
      apply forgets_call (by simp)
      intro success
      split_ifs <;> trivial

theorem sessionGenerateToken_forgets : Forgets (sessionGenerateToken context) := by
  apply forgets_call (by simp)
  intro encoded
  cases encoded <;> trivial

theorem forgets_ite {P : Prop} [Decidable P] {first second : SessionDialogue R} (hfirst : Forgets first)
    (hsecond : Forgets second) : Forgets (if P then first else second) := by
  split_ifs
  · exact hfirst
  · exact hsecond

theorem sessionCommit_forgets : Forgets (sessionCommit environment context) := by
  unfold sessionCommit
  apply forgets_ite (forgets_done _)
  apply forgets_ite (forgets_done _)
  apply (forgets_ite (sessionDeleteDigest_forgets _) (forgets_done _)).bind
  intro deleted
  apply forgets_ite (forgets_done _)
  apply (forgets_ite sessionGenerateToken_forgets (forgets_done _)).bind
  intro generated
  exact forgets_ite (forgets_done _) sessionStore_forgets

theorem answered_forgets {answer : R → SessionAnswer} {d : SessionDialogue (R × Context)}
    (h : Forgets d) : Forgets (answered answer d) := h.bind fun _ => trivial

theorem sessionPerform_forgets (operation : SessionOperation) :
    Forgets (sessionPerform environment context operation) := by
  cases operation with
  | destroy => exact answered_forgets sessionDestroy_forgets
  | logout => exact answered_forgets sessionDestroy_forgets
  | commit => exact answered_forgets sessionCommit_forgets
  | login userId =>
    apply answered_forgets
    apply forgets_ite (forgets_done _)
    apply (sessionWith_forgets _ _).bind
    intro regenerated
    exact forgets_ite (forgets_done _) (sessionWith_forgets _ _)
  | userId => exact answered_forgets ((sessionWith_forgets _ _).bind fun _ => forgets_done _)
  | signedIn =>
    apply answered_forgets
    apply Forgets.bind _ fun _ => forgets_done _
    exact (sessionWith_forgets _ _).bind fun _ => forgets_done _
  | _ => exact answered_forgets (sessionWith_forgets _ _)

theorem sessionPerformAll_forgets (operations : List SessionOperation) :
    Forgets (sessionPerformAll environment operations context) := by
  induction operations generalizing context with
  | nil => trivial
  | cons operation operations ih =>
    apply (sessionPerform_forgets operation).bind
    intro first
    exact ih.bind fun _ => trivial

/-- The table, the generator and a clock that does not go back. -/
inductive TimedAnswers (world : SerialWorld) :
    (c : SessionCall) → SessionReply c → SerialWorld → Prop where
  | time {now : ℤ} (h : world.clock ≤ now) : TimedAnswers world .time now { world with clock := now }
  | table {c : SessionCall} {answer : SessionReply c} {next : SessionWorld} (hc : c ≠ .time)
    (h : SessionAnswers world.toSessionWorld c answer next) :
    TimedAnswers world c answer ⟨next, world.clock⟩

section Runs

variable {ι : Type*} [DecidableEq ι]

abbrev TimedPool (ι : Type*) := Pool ι SessionCall SessionReply Outcomes SerialWorld

abbrev TimedRun (start : TimedPool ι) (trace : List (ι × SessionEvent)) (pool : TimedPool ι) : Prop :=
  Run (fun world _ => TimedAnswers world) start trace pool

/-- Requests take turns, and between their calls time passes and the command runs. -/
inductive CleanedRun (start : TimedPool ι) : TimedPool ι → Prop where
  | refl : CleanedRun start start
  | step {pool : TimedPool ι} {i : ι} {c : SessionCall}
    {next : SessionReply c → SessionDialogue Outcomes} {answer : SessionReply c} {world : SerialWorld}
    (h : CleanedRun start pool) (hcall : pool.parties i = .call c next)
    (hanswer : TimedAnswers pool.world c answer world) :
    CleanedRun start (pool.advance i (next answer) world)
  | tick {pool : TimedPool ι} {now : ℤ} (h : CleanedRun start pool) (hnow : pool.world.clock ≤ now) :
    CleanedRun start { pool with world := { pool.world with clock := now } }
  | cleanup {pool : TimedPool ι} (h : CleanedRun start pool) (project : CeasyProject)
    (host : CleanupHost) (htime : host.time ≤ pool.world.clock) :
    CleanedRun start { pool with world := { pool.world with
      table := (sessionsCleanup project host pool.world.table).2 } }

inductive RowCleaned (clock : ℤ) : Option SessionRow → Option SessionRow → Prop where
  | absent : RowCleaned clock none none
  | removed {row : SessionRow} (h : row.expiresAt ≤ clock) : RowCleaned clock none (some row)
  | kept {row other : SessionRow} (hdata : row.data = other.data)
    (hupdated : row.updatedAt = other.updatedAt) (hexpires : row.expiresAt = other.expiresAt) :
    RowCleaned clock (some row) (some other)

/-- The pool of a run with cleanups and that of a run without. -/
structure Alike (cleaned plain : TimedPool ι) : Prop where
  parties : plain.parties = cleaned.parties
  issued : plain.world.issued = cleaned.world.issued
  clock : plain.world.clock ≤ cleaned.world.clock
  rows : ∀ digest, RowCleaned cleaned.world.clock (cleaned.world.table digest) (plain.world.table digest)
  forgets : ∀ i, Forgets (cleaned.parties i)

theorem RowCleaned.refl (clock : ℤ) (row : Option SessionRow) : RowCleaned clock row row := by
  cases row with
  | none => exact .absent
  | some row => exact .kept rfl rfl rfl

theorem RowCleaned.later {clock now : ℤ} {row other : Option SessionRow}
    (h : RowCleaned clock row other) (hnow : clock ≤ now) : RowCleaned now row other := by
  cases h with
  | absent => exact .absent
  | removed hexpired => exact .removed (hexpired.trans hnow)
  | kept hdata hupdated hexpires => exact .kept hdata hupdated hexpires

theorem RowCleaned.cleanup {clock now : ℤ} {table : Bytes → Option SessionRow} {digest : Bytes}
    {other : Option SessionRow} (h : RowCleaned clock (table digest) other) (hnow : now ≤ clock) :
    RowCleaned clock (tableCleanup table now digest) other := by
  unfold tableCleanup
  generalize table digest = row at h
  cases h with
  | absent => exact .absent
  | removed hexpired => exact .removed hexpired
  | @kept row other hdata hupdated hexpires =>
    by_cases hkeeps : now < row.expiresAt
    · rw [Option.filter_some_pos (by simpa using hkeeps)]
      exact .kept hdata hupdated hexpires
    · rw [Option.filter_some_neg (by simpa using hkeeps)]
      exact .removed (hexpires ▸ (Int.not_lt.mp hkeeps).trans hnow)

theorem RowCleaned.delete {clock : ℤ} {first second : Bytes → Option SessionRow}
    (h : ∀ digest, RowCleaned clock (first digest) (second digest)) (deleted digest : Bytes) :
    RowCleaned clock (tableDelete first deleted digest) (tableDelete second deleted digest) := by
  unfold tableDelete
  by_cases hsame : digest = deleted
  · rw [hsame, Function.update_self, Function.update_self]
    exact .absent
  · rw [Function.update_of_ne hsame, Function.update_of_ne hsame]
    exact h digest

theorem RowCleaned.replace {clock : ℤ} {first second : Bytes → Option SessionRow}
    (h : ∀ digest, RowCleaned clock (first digest) (second digest)) (stored data : Bytes)
    (now expiresAt : ℤ) (digest : Bytes) :
    RowCleaned clock (tableReplace first stored data now expiresAt digest)
      (tableReplace second stored data now expiresAt digest) := by
  unfold tableReplace
  by_cases hsame : digest = stored
  · rw [hsame, Function.update_self, Function.update_self]
    exact .kept rfl rfl rfl
  · rw [Function.update_of_ne hsame, Function.update_of_ne hsame]
    exact h digest

variable {cleaned plain : TimedPool ι}

theorem Alike.advance (h : Alike cleaned plain) {i : ι} {left : SessionDialogue Outcomes}
    {world other : SerialWorld} (hforgets : Forgets left) (hissued : other.issued = world.issued)
    (hclock : other.clock ≤ world.clock)
    (hrows : ∀ digest, RowCleaned world.clock (world.table digest) (other.table digest)) :
    Alike (cleaned.advance i left world) (plain.advance i left other) := by
  refine ⟨?_, hissued, hclock, hrows, ?_⟩
  · unfold Pool.advance
    rw [h.parties]
  · intro j
    by_cases hij : j = i
    · subst hij
      rw [Pool.advance_self]
      exact hforgets
    · rw [Pool.advance_of_ne _ hij]
      exact h.forgets j

/-- What the plain run does for one call: the same call, or, for a row that a cleanup has
    removed, finding it expired and deleting it. -/
theorem alike_step (h : Alike cleaned plain) {i : ι} {c : SessionCall}
    {next : SessionReply c → SessionDialogue Outcomes} (hcall : cleaned.parties i = .call c next)
    {answer : SessionReply c} {world : SerialWorld} (hanswer : TimedAnswers cleaned.world c answer world) :
    ∃ events other, Leads (plain.parties i) events (next answer) ∧
      Serves TimedAnswers plain.world events other ∧
      Alike (cleaned.advance i (next answer) world) (plain.advance i (next answer) other) := by
  have hforgets := h.forgets i
  rw [hcall] at hforgets
  have hparty : plain.parties i = .call c next := by rw [h.parties, hcall]
  rw [hparty]
  have hsame : ∀ {other : SerialWorld}, TimedAnswers plain.world c answer other →
      other.issued = world.issued → other.clock ≤ world.clock →
      (∀ digest, RowCleaned world.clock (world.table digest) (other.table digest)) →
      ∃ events other, Leads (.call c next) events (next answer) ∧
        Serves TimedAnswers plain.world events other ∧
        Alike (cleaned.advance i (next answer) world) (plain.advance i (next answer) other) :=
    fun hother hissued hclock hrows => ⟨[⟨c, answer⟩], _, .cons (.nil _), .cons hother (.nil _),
      h.advance (hforgets.1 answer) hissued hclock hrows⟩
  cases hanswer with
  | time hnow =>
    exact hsame (.time (h.clock.trans hnow)) h.issued le_rfl fun digest => (h.rows digest).later hnow
  | table hc hanswer =>
    cases hanswer with
    | select digest =>
      obtain ⟨hexpired, hreads⟩ := hforgets.2 digest rfl
      have hselect : TimedAnswers plain.world (.select digest) (some (plain.world.table digest)) plain.world :=
        .table hc (.select digest)
      have hrow := h.rows digest
      generalize hcleaned : cleaned.world.table digest = row at hrow hforgets hsame ⊢
      generalize hplain : plain.world.table digest = other at hrow hselect
      cases hrow with
      | absent => exact hsame hselect h.issued h.clock h.rows
      | @removed row hgone =>
        refine ⟨⟨.select digest, some (some row)⟩ :: [⟨.time, cleaned.world.clock⟩, ⟨.delete digest, true⟩],
          ⟨{ plain.world.toSessionWorld with table := tableDelete plain.world.table digest },
            cleaned.world.clock⟩, .cons (hexpired row _ hgone), ?_, ?_⟩
        · refine .cons hselect (.cons (.time h.clock) (.cons (.table (by simp) ?_) (.nil _)))
          exact .delete digest
        · refine h.advance (hforgets.1 _) h.issued le_rfl ?_
          intro other
          dsimp only
          by_cases hother : other = digest
          · rw [hother, hcleaned, tableDelete, Function.update_self]
            exact .absent
          · rw [tableDelete, Function.update_of_ne hother]
            exact h.rows other
      | @kept row other hdata _ hexpires =>
        refine ⟨[⟨.select digest, some (some other)⟩], plain.world, ?_, .cons hselect (.nil _),
          h.advance (hforgets.1 _) h.issued h.clock h.rows⟩
        rw [show next (some (some row)) = next (some (some other)) from hreads row other hdata hexpires]
        exact .cons (.nil _)
    | selectFailed digest => exact hsame (.table hc (.selectFailed digest)) h.issued h.clock h.rows
    | delete digest =>
      exact hsame (.table hc (.delete digest)) h.issued h.clock (RowCleaned.delete h.rows digest)
    | deleteFailed digest => exact hsame (.table hc (.deleteFailed digest)) h.issued h.clock h.rows
    | replace digest data now expiresAt =>
      exact hsame (.table hc (.replace digest data now expiresAt)) h.issued h.clock
        (RowCleaned.replace h.rows digest data now expiresAt)
    | replaceFailed digest data now expiresAt =>
      exact hsame (.table hc (.replaceFailed digest data now expiresAt)) h.issued h.clock h.rows
    | time now => exact absurd rfl hc
    | @token token hfresh =>
      have hunissued : token ∉ plain.world.issued := by
        rw [h.issued]
        exact hfresh
      exact hsame (.table hc (.token hunissued)) (congrArg (token :: ·) h.issued) h.clock h.rows
    | tokenFailed => exact hsame (.table hc .tokenFailed) h.issued h.clock h.rows

def AtStart (environment : Environment) (requests : ι → RequestParse.Request)
    (operations : ι → List SessionOperation) (pool : TimedPool ι) : Prop :=
  ∀ i, pool.parties i = sessionPerformAll environment (operations i) { request := requests i }

theorem alike_run {requests : ι → RequestParse.Request} {operations : ι → List SessionOperation}
    {start pool : TimedPool ι} (hstart : AtStart environment requests operations start)
    (hrun : CleanedRun start pool) : ∃ trace plain, TimedRun start trace plain ∧ Alike pool plain := by
  induction hrun with
  | refl =>
    refine ⟨[], start, .refl start, rfl, rfl, le_rfl, fun digest => .refl _ _, ?_⟩
    intro i
    rw [hstart i]
    exact sessionPerformAll_forgets _
  | step _ hcall hanswer ih =>
    obtain ⟨trace, plain, hplain, halike⟩ := ih
    obtain ⟨events, other, hleads, hserves, hnext⟩ := alike_step halike hcall hanswer
    exact ⟨_, _, hplain.lead hleads hserves, hnext⟩
  | tick _ hnow ih =>
    obtain ⟨trace, plain, hplain, halike⟩ := ih
    exact ⟨trace, plain, hplain, halike.parties, halike.issued, halike.clock.trans hnow,
      fun digest => (halike.rows digest).later hnow, halike.forgets⟩
  | @cleanup pool _ project host htime ih =>
    obtain ⟨trace, plain, hplain, halike⟩ := ih
    refine ⟨trace, plain, hplain, halike.parties, halike.issued, halike.clock, ?_, halike.forgets⟩
    intro digest
    dsimp only
    rcases sessionsCleanup_table project host pool.world.table with h | h
    · rw [h]
      exact halike.rows digest
    · rw [h]
      exact (halike.rows digest).cleanup htime

/-- Whatever requests do while the command runs, any number of times and at any moment,
    they do in a run without it; the rows that are left differ only in those that have
    expired, and in when a row was created. -/
theorem cleanup_unseen {requests : ι → RequestParse.Request} {operations : ι → List SessionOperation}
    {start pool : TimedPool ι} (hstart : AtStart environment requests operations start)
    (hrun : CleanedRun start pool) :
    ∃ trace plain, TimedRun start trace plain ∧ plain.parties = pool.parties ∧
      plain.world.issued = pool.world.issued ∧
      ∀ digest, RowCleaned pool.world.clock (pool.world.table digest) (plain.world.table digest) := by
  obtain ⟨trace, plain, hplain, halike⟩ := alike_run hstart hrun
  exact ⟨trace, plain, hplain, halike.parties, halike.issued, halike.rows⟩

/-- A row that expires at time 100, and a request that comes after it. -/
def expiredStart : TimedPool Unit where
  parties _ := sessionPerformAll sampleEnvironment [.userId] { request := sampleRequest }
  world := { sampleWorld with clock := 0 }

def sampleProject : CeasyProject := ⟨sv "/app", rfl, by decide⟩

/-- The command succeeds at time 150. -/
def cleanupHost : CleanupHost := ⟨150, none, fun _ => true, true, true, true⟩

def cleanedWorld : SerialWorld where
  table := (sessionsCleanup sampleProject cleanupHost expiredStart.world.table).2
  issued := [sampleToken]
  clock := 200

/-- The request looks for its session, finds no row, and is told of no user. -/
theorem expired_visit : ∃ final,
    Leads (sessionPerformAll sampleEnvironment [.userId] { request := sampleRequest })
      [⟨.select sampleToken, some none⟩] (.done ([.int64 none], final)) := by
  have hload : Leads (sessionEnsure sampleEnvironment { request := sampleRequest })
      [⟨.select sampleToken, some none⟩] (.done (true, loadedContext { request := sampleRequest })) := by
    refine sessionEnsure_leads rfl ?_
    rw [sessionLoad_eq, show sessionDigest sampleEnvironment (contextCookie { request := sampleRequest }
      sampleEnvironment.sessionCookieName) = some sampleToken from sample_sent ▸ sample_digest]
    exact .cons (.nil _)
  have huser : Leads (sessionPerform sampleEnvironment { request := sampleRequest } .userId)
      [⟨.select sampleToken, some none⟩]
      (.done (.int64 none, loadedContext { request := sampleRequest })) := by
    rw [sessionPerform, authUserId, answered_bind]
    exact sessionWith_leads hload
  have hall : Leads (sessionPerformAll sampleEnvironment [.userId] { request := sampleRequest }) _ _ :=
    sessionPerformAll_leads huser (.nil _)
  exact ⟨_, hall⟩

/-- The row is cleaned up before the request looks for it. -/
theorem cleanup_unseen_expired : ∃ trace plain final, TimedRun expiredStart trace plain ∧
    plain.parties () = .done ([.int64 none], final) ∧ plain.world.issued = [sampleToken] ∧
    ∀ digest, RowCleaned 200 (cleanedWorld.table digest) (plain.world.table digest) := by
  obtain ⟨final, hvisit⟩ := expired_visit
  generalize hrequest : sessionPerformAll sampleEnvironment [.userId] { request := sampleRequest } = request
    at hvisit
  have hstart : AtStart sampleEnvironment (fun _ => sampleRequest) (fun _ => [.userId]) expiredStart :=
    fun _ => rfl
  have hticked : CleanedRun expiredStart { expiredStart with
      world := { expiredStart.world with clock := 200 } } :=
    .tick .refl (show (0 : ℤ) ≤ 200 by decide)
  have hcleaned : CleanedRun expiredStart { expiredStart with world := cleanedWorld } :=
    hticked.cleanup sampleProject cleanupHost (show (150 : ℤ) ≤ 200 by decide)
  have hgone : cleanedWorld.table sampleToken = none := by decide +kernel
  have hselect : TimedAnswers cleanedWorld (.select sampleToken) (some none) cleanedWorld := by
    rw [← hgone]
    exact .table (by simp) (.select sampleToken)
  cases hvisit with
  | cons hdone =>
    rw [leads_nil_iff] at hdone
    have hrun := @CleanedRun.step _ _ _ _ () _ _ _ _ hcleaned hrequest hselect
    obtain ⟨trace, plain, hplain, hparties, hissued, hrows⟩ := cleanup_unseen hstart hrun
    refine ⟨trace, plain, final, hplain, ?_, hissued, hrows⟩
    rw [hparties, hdone]
    exact Function.update_self () _ expiredStart.parties

end Runs

end Ceasy.Sessions
