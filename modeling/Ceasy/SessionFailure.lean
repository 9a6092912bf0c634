import Ceasy.Csrf
import Ceasy.SessionAtomicity
import Ceasy.SessionRejection

set_option autoImplicit false

/-!
# Sessions that could not be loaded

`session_load` marks the session as loaded before it asks for the row. When the query
fails the operation that asked is refused, and every later one works on an empty
session that passes for the client's own.
-/
namespace Ceasy.Sessions
open StringView Collection Dialogue

variable {environment : Environment} {request : RequestParse.Request} {context : Context}
  {history : List SessionEvent}

def GetsOrSets : RequestOperation → Prop
  | .session (.setString _ _) | .session (.setInt64 _ _) | .session (.setBool _ _) => True
  | .session (.login _) | .csrfToken | .flashSet _ _ | .flashGet _ => True
  | .session operation => Reads operation

def SessionAnswer.Fails : SessionAnswer → Prop
  | .done ok => ok = false
  | .string value => value = none
  | .int64 value => value = none
  | .bool value => value = none

/-- The query of `session_load` has failed. -/
def LoadFails (events : List SessionEvent) : Prop :=
  ∃ digest, (⟨.select digest, none⟩ : SessionEvent) ∈ events

/-- A getter or a setter fails; a commit writes no row and sends no cookie. -/
structure StepFails (operation : RequestOperation) (context : Context) (events : List SessionEvent)
    (result : SessionAnswer × Context) : Prop where
  fails : GetsOrSets operation → result.1.Fails
  writes : operation = .session .commit → ∀ digest data now expiresAt,
    (⟨.replace digest data now expiresAt, true⟩ : SessionEvent) ∉ events
  sends : operation = .session .commit → result.2.responseHeaders = context.responseHeaders

/-- Once the session could not be loaded, the operations of the request fail. -/
def StaysFailed (environment : Environment) (request : RequestParse.Request)
    (headers : List ResponseHeader) (operations : List RequestOperation) : Prop :=
  ∀ before operation after, operations = before ++ operation :: after →
    ∀ history answers context,
      Leads (requestPerformAll environment before { request := request, responseHeaders := headers })
        history (.done (answers, context)) →
      ∀ events result, Leads (requestPerform environment context operation) events (.done result) →
        (∀ event ∈ history ++ events, Generated event.call event.answer) →
        LoadFails (history ++ events) → StepFails operation context events result

/-- What has become of the session: nothing has asked for it, it could not be loaded, it has
since been marked for a commit, or it has been ended. -/
inductive Standing where
  | unloaded | failed | changed | ended
deriving DecidableEq, Repr

/-- The operation asks for the session. -/
def loads : RequestOperation → Bool
  | .session .commit => false
  | .session (.login userId) => decide (0 < userId)
  | .flashSet key _ | .flashGet key => (flashKey key).isSome
  | _ => true

def Standing.next : Standing → RequestOperation → Standing
  | .unloaded, operation => if loads operation then .failed else .unloaded
  | _, .session .destroy | _, .session .logout => .ended
  | .failed, .session .clear | .failed, .session .regenerate => .changed
  | standing, _ => standing

/-- The operation stores a value wherever there is a session to store it in. -/
def StoresValue : RequestOperation → Prop
  | .session (.setString key value) => key ≠ [] ∧ value ≠ none
  | .session (.setInt64 _ _) | .session (.setBool _ _) | .csrfToken => True
  | .session (.login userId) => 0 < userId
  | .flashSet key message => flashKey key ≠ none ∧ message ≠ none
  | _ => False

/-- The operation takes the empty session for the client's. -/
def Breaks : Standing → RequestOperation → Prop
  | .unloaded, operation => operation = .csrfToken
  | .changed, .session .commit => True
  | _, operation => StoresValue operation

def Harmless : Standing → List RequestOperation → Prop
  | _, [] => True
  | standing, operation :: operations =>
    ¬ Breaks standing operation ∧ Harmless (standing.next operation) operations

/-- libsodium has a digest for the tokens it makes. -/
def DigestsTokens (environment : Environment) : Prop :=
  ∃ token digest, TokenText token ∧ sessionDigest environment token = some digest

/-- The sessions of a request whose load has failed. -/
inductive Stands : Standing → Session → Prop where
  | unloaded : Stands .unloaded {}
  | failed : Stands .failed { loaded := true }
  | changed (regenerate : Bool) :
    Stands .changed { loaded := true, dirty := true, regenerate := regenerate }
  | ended (dirty : Bool) :
    Stands .ended { loaded := true, dirty := dirty, regenerate := true, destroy := true }

theorem Stands.values {standing : Standing} {session : Session} (h : Stands standing session) :
    session.values = .empty := by
  cases h <;> rfl

theorem Stands.token {standing : Standing} {session : Session} (h : Stands standing session) :
    session.token = [] := by
  cases h <;> rfl

theorem Stands.loaded {standing : Standing} {session : Session} (h : Stands standing session)
    (hstanding : standing ≠ .unloaded) : session.loaded = true := by
  cases h with
  | unloaded => exact absurd rfl hstanding
  | _ => rfl

theorem Stands.eq_empty {session : Session} (h : Stands .unloaded session) : session = {} := by
  cases h
  rfl

theorem Stands.load (h : Stands .unloaded context.session) :
    Stands .failed (loadedContext context).session := by
  rw [loadedContext, h.eq_empty]
  exact .failed

theorem empty_contents (key : Bytes) : SessionValues.empty.contents key = none := by
  rw [SessionValues.contents_empty]

theorem empty_not_atLimit : ¬ AtLimit SessionValues.empty.map :=
  @SessionValues.not_atLimit .empty [] compact_empty
    (fun key hkey => by rw [empty_contents] at hkey; cases hkey) (by decide)

theorem empty_setStringView (key value : Bytes) :
    (SessionValues.empty.setStringView key value).1 = true :=
  (SessionValues.empty.setStringView_stored key value).served empty_not_atLimit

theorem empty_setValue (key : Bytes) {value : StringMapValue Unit}
    (hvalid : stringMapValueInvalid value = false) : (SessionValues.empty.setValue key value).1 = true :=
  (SessionValues.empty.setValue_stored key value hvalid).served empty_not_atLimit

theorem SessionValues.getString_of_contents {values : SessionValues} {key value : Bytes}
    (h : values.contents key = some (.string value)) : values.getString key = some value := by
  have hget := smGet_spec values.invariant key
  rw [show mapContents values.map key = some (.string value) from h] at hget
  unfold SessionValues.getString
  cases hfound : smGet values.map key with
  | none =>
    rw [hfound] at hget
    cases hget
  | some found =>
    rw [hfound] at hget
    obtain ⟨data, pinned, valid⟩ := found
    cases hget
    rfl

theorem empty_getString (key : Bytes) : SessionValues.empty.getString key = none := by
  rw [SessionValues.getString, smGet_absent (empty_contents key)]

theorem sessionGetString_empty (hloaded : context.session.loaded = true)
    (hvalues : context.session.values = .empty) (key : Bytes) :
    sessionGetString environment context key = .done (none, context) := by
  rw [sessionGetString, sessionWith_loaded hloaded, hvalues, empty_getString]

theorem flashGet_empty (hloaded : context.session.loaded = true)
    (hvalues : context.session.values = .empty) (key : Bytes) :
    flashGet environment context key = .done (none, context) := by
  unfold flashGet
  cases flashKey key with
  | none => rfl
  | some fullKey =>
    dsimp only
    rw [sessionGetString_empty hloaded hvalues]
    rfl

theorem sessionSetString_refused (hloaded : context.session.loaded = true) {key : Bytes}
    {value : Option Bytes} (h : ¬ (key ≠ [] ∧ value ≠ none)) :
    sessionSetString environment context key value = .done (false, context) := by
  rw [sessionSetString, sessionWith_loaded hloaded]
  cases value with
  | none => rfl
  | some value =>
    have hkey : key.length = 0 := by
      by_contra hkey
      exact h ⟨fun hnil => hkey (List.length_eq_zero_iff.mpr hnil), by simp⟩
    dsimp only
    rw [if_pos hkey]

theorem sessionSetString_loaded (hloaded : context.session.loaded = true) {key : Bytes} (hkey : key ≠ [])
    (value : Bytes) : sessionSetString environment context key (some value) =
      .done (sessionSet context (context.session.values.setStringView key value)) := by
  rw [sessionSetString, sessionWith_loaded hloaded]
  dsimp only
  rw [if_neg (mt List.length_eq_zero_iff.mp hkey)]

theorem authLogin_refused {userId : Int64} (h : ¬ 0 < userId) :
    authLogin environment context userId = .done (false, context) := by
  rw [authLogin, if_pos (Int64.not_lt.mp h)]

section Quiet

variable {standing : Standing} {operation : RequestOperation}

/-- What an operation on a session that could not be loaded has come to. -/
structure QuietStep (environment : Environment) (context : Context) (standing : Standing)
    (operation : RequestOperation) (result : SessionAnswer × Context) : Prop where
  done : requestPerform environment context operation = .done result
  stands : Stands (standing.next operation) result.2.session
  sent : result.2.request = context.request
  fails : GetsOrSets operation → result.1.Fails
  sends : operation = .session .commit → result.2.responseHeaders = context.responseHeaders

theorem QuietStep.unchanged {answer : SessionAnswer} (h : Stands standing context.session)
    (hnext : standing.next operation = standing)
    (hdone : requestPerform environment context operation = .done (answer, context))
    (hfails : GetsOrSets operation → answer.Fails) :
    QuietStep environment context standing operation (answer, context) :=
  ⟨hdone, by rwa [hnext], rfl, hfails, fun _ => rfl⟩

/-- Getters and setters leave the standing, once the session has been asked for. -/
theorem next_of_getsOrSets (h : GetsOrSets operation) (hstanding : standing ≠ .unloaded) :
    standing.next operation = standing := by
  cases operation with
  | session operation =>
    cases standing with
    | unloaded => exact absurd rfl hstanding
    | failed => cases operation <;> first | rfl | exact h.elim
    | changed => cases operation <;> first | rfl | exact h.elim
    | ended => cases operation <;> rfl
  | _ => cases standing <;> first | rfl | exact absurd rfl hstanding

theorem stores_of_quiet (hquiet : ¬ Breaks standing operation) (hstanding : standing ≠ .unloaded) :
    ¬ StoresValue operation := by
  intro hstores
  apply hquiet
  cases standing with
  | unloaded => exact absurd rfl hstanding
  | failed => exact hstores
  | ended => exact hstores
  | changed =>
    cases operation with
    | session operation => cases operation <;> first | exact hstores | trivial
    | _ => exact hstores

theorem requestPerform_getsOrSets (h : Stands standing context.session) (hstanding : standing ≠ .unloaded)
    (hgets : GetsOrSets operation) (hstores : ¬ StoresValue operation) :
    ∃ answer : SessionAnswer, requestPerform environment context operation = .done (answer, context) ∧
      answer.Fails := by
  have hloaded := h.loaded hstanding
  have hvalues := h.values
  have habsent : ∀ key, context.session.values.contents key = none := by
    rw [hvalues]
    exact empty_contents
  cases operation with
  | session operation =>
    cases operation with
    | setString key value =>
      refine ⟨.done false, ?_, rfl⟩
      rw [requestPerform, sessionPerform, sessionSetString_refused hloaded hstores]
      rfl
    | login userId =>
      refine ⟨.done false, ?_, rfl⟩
      rw [requestPerform, sessionPerform, authLogin_refused hstores]
      rfl
    | setInt64 => exact absurd trivial hstores
    | setBool => exact absurd trivial hstores
    | getString key => exact ⟨_, sessionPerform_absent hloaded habsent (show Reads (.getString key) from trivial), rfl⟩
    | getInt64 key => exact ⟨_, sessionPerform_absent hloaded habsent (show Reads (.getInt64 key) from trivial), rfl⟩
    | getBool key => exact ⟨_, sessionPerform_absent hloaded habsent (show Reads (.getBool key) from trivial), rfl⟩
    | userId => exact ⟨_, sessionPerform_absent hloaded habsent (show Reads .userId from trivial), rfl⟩
    | signedIn => exact ⟨_, sessionPerform_absent hloaded habsent (show Reads .signedIn from trivial), rfl⟩
    | _ => exact hgets.elim
  | csrfToken => exact absurd trivial hstores
  | flashSet key message =>
    refine ⟨.done false, ?_, rfl⟩
    rw [requestPerform, flashSet]
    cases hkey : flashKey key with
    | none => rfl
    | some fullKey =>
      have hmessage : ¬ (fullKey ≠ [] ∧ message ≠ none) :=
        fun hboth => hstores ⟨by rw [hkey]; simp, hboth.2⟩
      dsimp only
      rw [sessionSetString_refused hloaded hmessage]
      rfl
  | flashGet key =>
    refine ⟨.string none, ?_, rfl⟩
    rw [requestPerform, flashGet_empty hloaded hvalues]
    rfl

/-- An operation that does not take the empty session for the client's. -/
theorem requestPerform_quiet (h : Stands standing context.session) (hstanding : standing ≠ .unloaded)
    (hquiet : ¬ Breaks standing operation) :
    ∃ result, QuietStep environment context standing operation result := by
  by_cases hgets : GetsOrSets operation
  · obtain ⟨answer, hdone, hfails⟩ := requestPerform_getsOrSets h hstanding hgets
      (stores_of_quiet hquiet hstanding)
    exact ⟨_, .unchanged h (next_of_getsOrSets hgets hstanding) hdone fun _ => hfails⟩
  obtain ⟨request, headers, session⟩ := context
  cases operation with
  | session operation =>
    have hended : ∀ ending, ending = SessionOperation.destroy ∨ ending = .logout →
        ∃ result, QuietStep environment ⟨request, headers, session⟩ standing (.session ending) result := by
      intro ending hending
      obtain ⟨hrequest, hsession⟩ := sessionEnd_session environment ⟨request, headers, session⟩
      have hnext : standing.next (.session ending) = .ended := by
        cases standing with
        | unloaded => exact absurd rfl hstanding
        | _ => rcases hending with rfl | rfl <;> rfl
      refine ⟨(.done true, sessionEnd environment ⟨request, headers, session⟩), ?_, ?_, hrequest,
        ?_, ?_⟩
      · rcases hending with rfl | rfl <;> cases h <;> first | rfl | exact absurd rfl hstanding
      · rw [hnext, hsession]
        cases h with
        | unloaded => exact absurd rfl hstanding
        | _ => exact .ended false
      · rcases hending with rfl | rfl <;> exact fun hno => hno.elim
      · rintro hnext
        rcases hending with rfl | rfl <;> cases hnext
    cases operation with
    | destroy => exact hended _ (.inl rfl)
    | logout => exact hended _ (.inr rfl)
    | delete key =>
      cases h with
      | unloaded => exact absurd rfl hstanding
      | failed => exact ⟨_, rfl, .failed, rfl, fun hno => hno.elim, fun _ => rfl⟩
      | changed regenerate => exact ⟨_, rfl, .changed regenerate, rfl, fun hno => hno.elim, fun _ => rfl⟩
      | ended dirty =>
        refine ⟨_, rfl, ?_, rfl, fun hno => hno.elim, fun _ => rfl⟩
        exact .ended (dirty || false)
    | clear =>
      cases h with
      | unloaded => exact absurd rfl hstanding
      | failed => exact ⟨_, rfl, .changed false, rfl, fun hno => hno.elim, fun _ => rfl⟩
      | changed regenerate => exact ⟨_, rfl, .changed regenerate, rfl, fun hno => hno.elim, fun _ => rfl⟩
      | ended => exact ⟨_, rfl, .ended true, rfl, fun hno => hno.elim, fun _ => rfl⟩
    | regenerate =>
      cases h with
      | unloaded => exact absurd rfl hstanding
      | failed => exact ⟨_, rfl, .changed true, rfl, fun hno => hno.elim, fun _ => rfl⟩
      | changed => exact ⟨_, rfl, .changed true, rfl, fun hno => hno.elim, fun _ => rfl⟩
      | ended => exact ⟨_, rfl, .ended true, rfl, fun hno => hno.elim, fun _ => rfl⟩
    | commit =>
      cases h with
      | unloaded => exact absurd rfl hstanding
      | failed => exact ⟨_, rfl, .failed, rfl, fun hno => hno.elim, fun _ => rfl⟩
      | changed => exact absurd trivial hquiet
      | ended dirty =>
        refine ⟨(.done true, _), .unchanged (.ended dirty) rfl ?_ fun hno => hno.elim⟩
        rw [requestPerform, sessionPerform, sessionCommit_idle (.inr (.inr rfl))]
        rfl
    | _ => exact absurd trivial hgets
  | _ => exact absurd trivial hgets

end Quiet

theorem loadFails_append {first second : List SessionEvent} :
    LoadFails (first ++ second) ↔ LoadFails first ∨ LoadFails second := by
  unfold LoadFails
  simp only [List.mem_append, exists_or]

structure Passed (events : List SessionEvent) (result : SessionAnswer × Context) : Prop where
  loaded : result.2.session.loaded = true
  answered : ¬ LoadFails events

/-- What is done with the session after an operation has asked for it. -/
structure Asks (environment : Environment) (operation : RequestOperation) (refused : SessionAnswer)
    (rest : Bool × Context → SessionDialogue (SessionAnswer × Context)) : Prop where
  ensures : ∀ context, requestPerform environment context operation =
    (sessionEnsure environment context).bind rest
  refuses : ∀ context, rest (false, context) = .done (refused, context)
  fails : refused.Fails

theorem sessionWith_asks {R : Type} {operation : RequestOperation} {answer : R → SessionAnswer}
    {refused : R} {work : Context → R × Context}
    (h : ∀ context, requestPerform environment context operation =
      answered answer (sessionWith environment context refused work))
    (hfails : (answer refused).Fails) :
    ∃ rest, Asks environment operation (answer refused) rest := by
  refine ⟨fun loaded => .done (answer (if loaded.1 then work loaded.2 else (refused, loaded.2)).1,
    (if loaded.1 then work loaded.2 else (refused, loaded.2)).2), fun context => ?_, fun context => rfl,
    hfails⟩
  rw [h, answered, sessionWith, bind_assoc]
  rfl

def regeneratingContext (context : Context) : Context :=
  { context with session := { context.session with regenerate := true, dirty := true } }

theorem requestPerform_asks {operation : RequestOperation} (hoperation : operation ≠ .csrfToken)
    (hloads : loads operation = true) : ∃ refused rest, Asks environment operation refused rest := by
  cases operation with
  | session operation =>
    cases operation with
    | setString key value => exact ⟨_, sessionWith_asks (fun context => rfl) rfl⟩
    | setInt64 key value => exact ⟨_, sessionWith_asks (fun context => rfl) rfl⟩
    | setBool key value => exact ⟨_, sessionWith_asks (fun context => rfl) rfl⟩
    | getString key => exact ⟨_, sessionWith_asks (fun context => rfl) rfl⟩
    | getInt64 key => exact ⟨_, sessionWith_asks (fun context => rfl) rfl⟩
    | getBool key => exact ⟨_, sessionWith_asks (fun context => rfl) rfl⟩
    | delete key => exact ⟨_, sessionWith_asks (fun context => rfl) rfl⟩
    | clear => exact ⟨_, sessionWith_asks (fun context => rfl) rfl⟩
    | regenerate => exact ⟨_, sessionWith_asks (fun context => rfl) rfl⟩
    | userId =>
      have hasks : ∀ context, requestPerform environment context (.session .userId) =
          answered (fun found => .int64 (found.filter fun userId => 0 < userId))
            (sessionGetInt64 environment context AUTH_USER_KEY) := fun context => answered_bind _ _ _
      exact ⟨_, sessionWith_asks hasks rfl⟩
    | signedIn =>
      have hasks : ∀ context, requestPerform environment context (.session .signedIn) =
          answered (fun found => .done (found.filter fun userId => 0 < userId).isSome)
            (sessionGetInt64 environment context AUTH_USER_KEY) := by
        intro context
        rw [requestPerform, sessionPerform, authSignedIn, answered_bind, authUserId, answered_bind]
      exact ⟨_, sessionWith_asks hasks rfl⟩
    | login userId =>
      have huser : ¬ userId ≤ 0 := Int64.not_le.mpr (of_decide_eq_true hloads)
      refine ⟨.done false, fun loaded => answered .done (if loaded.1 then
        sessionSetInt64 environment (regeneratingContext loaded.2) AUTH_USER_KEY userId
        else .done (false, loaded.2)), fun context => ?_, fun context => rfl, rfl⟩
      rw [requestPerform, sessionPerform, answered, authLogin, if_neg huser, sessionRegenerate,
        sessionWith, bind_assoc, bind_assoc]
      congr 1
      funext loaded
      cases hok : loaded.1 <;> rfl
    | destroy =>
      exact ⟨.done false, _, fun context => bind_assoc (sessionEnsure environment context) _ _,
        fun context => rfl, rfl⟩
    | logout =>
      exact ⟨.done false, _, fun context => bind_assoc (sessionEnsure environment context) _ _,
        fun context => rfl, rfl⟩
    | commit => cases hloads
  | csrfToken => exact absurd rfl hoperation
  | flashSet key message =>
    obtain ⟨fullKey, hkey⟩ := Option.isSome_iff_exists.mp hloads
    have hasks : ∀ context, requestPerform environment context (.flashSet key message) =
        answered .done (sessionSetString environment context fullKey message) := by
      intro context
      rw [requestPerform, flashSet, hkey]
    exact ⟨_, sessionWith_asks hasks rfl⟩
  | flashGet key =>
    obtain ⟨fullKey, hkey⟩ := Option.isSome_iff_exists.mp hloads
    refine ⟨.string none, fun loaded => answered .string (Dialogue.bind (.done (if loaded.1 then
      (loaded.2.session.values.getString fullKey, loaded.2) else (none, loaded.2))) fun found =>
        flashTake environment fullKey found), fun context => ?_, fun context => rfl, rfl⟩
    rw [requestPerform, answered, flashGet, hkey]
    dsimp only
    rw [sessionGetString, sessionWith, bind_assoc, bind_assoc]
    rfl

theorem not_loadFails_nil : ¬ LoadFails [] := by
  rintro ⟨digest, hmem⟩
  cases hmem

theorem EnsureResult.of_loaded {events : List SessionEvent} {result : Bool × Context}
    (h : EnsureResult environment context events result) (hloaded : context.session.loaded = true) :
    events = [] ∧ result = (true, context) := by
  cases h with
  | already => exact ⟨rfl, rfl⟩
  | load hnot => exact absurd (hloaded.symm.trans hnot) (by decide)

theorem DeleteResult.answered {token : Bytes} {events : List SessionEvent} {deleted : Bool}
    (h : DeleteResult environment token events deleted) : ¬ LoadFails events := by
  cases h <;> simp [LoadFails]

theorem RemovalResult.answered {events : List SessionEvent} {deleted : Bool}
    (h : RemovalResult environment context events deleted) : ¬ LoadFails events := by
  cases h with
  | kept => exact not_loadFails_nil
  | removed _ hdelete => exact hdelete.answered

theorem GenerationResult.answered {events : List SessionEvent} {result : Bool × Context}
    (h : GenerationResult context events result) :
    result.2.session.loaded = context.session.loaded ∧ ¬ LoadFails events := by
  cases h <;> exact ⟨rfl, by simp [LoadFails]⟩

theorem StoreResult.answered {events : List SessionEvent} {result : Bool × Context}
    (h : StoreResult environment context events result) :
    result.2.session.loaded = context.session.loaded ∧ ¬ LoadFails events := by
  cases h <;> exact ⟨rfl, by simp [LoadFails]⟩

theorem DestroyResult.passed {events : List SessionEvent} {result : Bool × Context}
    (h : DestroyResult environment context events result) (hloaded : context.session.loaded = true) :
    result.2.session.loaded = true ∧ ¬ LoadFails events := by
  have hended : (sessionEnd environment context).session.loaded = true := by
    rw [(sessionEnd_session environment context).2]
    exact hloaded
  cases h with
  | notLoaded hensure => cases (hensure.of_loaded hloaded).2
  | noToken hensure =>
    obtain ⟨rfl, heq⟩ := hensure.of_loaded hloaded
    cases heq
    exact ⟨hended, not_loadFails_nil⟩
  | refused hensure hdelete =>
    obtain ⟨rfl, heq⟩ := hensure.of_loaded hloaded
    cases heq
    exact ⟨hloaded, hdelete.answered⟩
  | removed hensure hdelete =>
    obtain ⟨rfl, heq⟩ := hensure.of_loaded hloaded
    cases heq
    exact ⟨hended, hdelete.answered⟩

theorem CommitResult.passed {events : List SessionEvent} {result : Bool × Context}
    (h : CommitResult environment context events result) :
    result.2.session.loaded = context.session.loaded ∧ ¬ LoadFails events := by
  cases h with
  | idle => exact ⟨rfl, not_loadFails_nil⟩
  | notRemoved hremoval => exact ⟨rfl, hremoval.answered⟩
  | notIssued hremoval hgeneration =>
    rw [loadFails_append, not_or]
    exact ⟨hgeneration.answered.1, hremoval.answered, hgeneration.answered.2⟩
  | ended _ _ hremoval hgeneration hstore =>
    rw [loadFails_append, loadFails_append, not_or, not_or]
    exact ⟨hstore.answered.1.trans hgeneration.answered.1, hremoval.answered,
      hgeneration.answered.2, hstore.answered.2⟩

theorem PerformResult.passed {operation : SessionOperation} {events : List SessionEvent}
    {result : SessionAnswer × Context}
    (h : PerformResult environment context operation events result)
    (hloaded : context.session.loaded = true) : Passed events result := by
  cases h with
  | memory hmemory =>
    cases hmemory with
    | update hensure hupdate =>
      obtain ⟨rfl, heq⟩ := hensure.of_loaded hloaded
      cases heq
      exact ⟨hupdate.loaded.trans hloaded, not_loadFails_nil⟩
    | notLoaded hensure => cases (hensure.of_loaded hloaded).2
    | noUser => exact ⟨hloaded, not_loadFails_nil⟩
  | destroy _ hdestroy =>
    obtain ⟨hkept, hanswered⟩ := hdestroy.passed hloaded
    exact ⟨hkept, hanswered⟩
  | commit _ hcommit => exact ⟨hcommit.passed.1.trans hloaded, hcommit.passed.2⟩

theorem csrfToken_passed (hloaded : context.session.loaded = true) (history : List SessionEvent) :
    Keeps (fun _ _ => True) (After history Passed) history
      (answered .string (csrfToken environment context)) := by
  rw [csrfToken, sessionGetString, sessionWith_loaded hloaded, done_bind]
  dsimp only
  cases context.session.values.getString CSRF_KEY with
  | some token => exact keeps_after_done ⟨hloaded, not_loadFails_nil⟩
  | none =>
    dsimp only
    unfold csrfMake
    refine ⟨trivial, fun encoded => ?_⟩
    have hevents : ¬ LoadFails [⟨.randomToken, encoded⟩] := by simp [LoadFails]
    cases encoded with
    | none => exact ⟨_, rfl, hloaded, hevents⟩
    | some encoded =>
      dsimp only
      rw [sessionSetString_loaded hloaded (by decide), done_bind]
      obtain ⟨session, hsession, hupdate⟩ := @sessionSet_update context (.setString CSRF_KEY (some encoded))
        CSRF_KEY (.string encoded) _ rfl (context.session.values.setStringView_stored CSRF_KEY encoded)
      have hkept : session.loaded = true := hupdate.loaded.trans hloaded
      rw [hsession]
      split_ifs
      · exact ⟨_, rfl, hkept, hevents⟩
      · rw [sessionGetString, sessionWith_loaded hkept]
        exact ⟨_, rfl, hkept, hevents⟩

theorem requestPerform_passed {operation : RequestOperation}
    (hloaded : context.session.loaded = true) (history : List SessionEvent) :
    Keeps (fun _ _ => True) (After history Passed) history
      (requestPerform environment context operation) := by
  have hsession : ∀ operation, Keeps (fun _ _ => True) (After history Passed) history
      (sessionPerform environment context operation) := by
    intro operation
    apply (sessionPerform_keeps (fun _ _ _ => trivial) history operation
      fun _ _ _ _ _ _ _ _ _ _ => trivial).after_mono
    intro events result hresult
    exact hresult.passed hloaded
  have hdone : ∀ answer, Keeps (fun _ _ => True) (After history Passed) history
      (.done (answer, context) : SessionDialogue (SessionAnswer × Context)) :=
    fun answer => keeps_after_done ⟨hloaded, not_loadFails_nil⟩
  cases operation with
  | session operation => exact hsession operation
  | csrfToken => exact csrfToken_passed hloaded history
  | flashSet key message =>
    rw [requestPerform, flashSet]
    cases flashKey key with
    | none => exact hdone (.done false)
    | some fullKey => exact hsession (.setString fullKey message)
  | flashGet key =>
    rw [requestPerform, flashGet]
    cases flashKey key with
    | none => exact hdone (.string none)
    | some fullKey =>
      dsimp only
      rw [sessionGetString, sessionWith_loaded hloaded, done_bind, flashTake]
      cases context.session.values.getString fullKey with
      | none => exact hdone (.string none)
      | some message =>
        dsimp only
        split_ifs
        · exact hdone (.string none)
        · rw [sessionDelete, sessionWith_loaded hloaded]
          exact keeps_after_done ⟨hloaded, not_loadFails_nil⟩

theorem LoadResult.split {cookie : Bytes} {events : List SessionEvent} {result : Bool × Context}
    (h : LoadResult environment context cookie events result) :
    result = (false, loadedContext context) ∨ result.1 = true ∧ ¬ LoadFails events := by
  cases h with
  | failed => exact .inl rfl
  | _ => exact .inr ⟨rfl, by simp [LoadFails]⟩

section Course

variable {standing : Standing} {operation : RequestOperation}

/-- A request whose operations do no harm: where the load has failed, or may still fail, its
session is the empty one. -/
inductive Course (request : RequestParse.Request) (standing : Standing) (history : List SessionEvent)
    (context : Context) : Prop where
  | stands (h : Stands standing context.session) (hsent : context.request = request)
    (hhistory : standing = .unloaded → ¬ LoadFails history) : Course request standing history context
  | there (hloaded : context.session.loaded = true) (hhistory : ¬ LoadFails history) :
    Course request standing history context

structure CourseStep (request : RequestParse.Request) (standing : Standing) (history : List SessionEvent)
    (context : Context) (operation : RequestOperation) (events : List SessionEvent)
    (result : SessionAnswer × Context) : Prop where
  course : Course request (standing.next operation) (history ++ events) result.2
  fails : LoadFails (history ++ events) → StepFails operation context events result

theorem breaks_csrfToken (standing : Standing) : Breaks standing .csrfToken := by
  cases standing with
  | unloaded => rfl
  | _ => trivial

theorem Passed.courseStep {events : List SessionEvent} {result : SessionAnswer × Context}
    (h : Passed events result) (hhistory : ¬ LoadFails history) :
    CourseStep request standing history context operation events result := by
  have hlater : ¬ LoadFails (history ++ events) := by
    rw [loadFails_append, not_or]
    exact ⟨hhistory, h.answered⟩
  exact ⟨.there h.loaded hlater, fun hfails => absurd hfails hlater⟩

theorem QuietStep.courseStep {result : SessionAnswer × Context}
    (h : QuietStep environment context standing operation result) (hsent : context.request = request)
    (hhistory : standing.next operation = .unloaded → ¬ LoadFails history) :
    CourseStep request standing history context operation [] result :=
  ⟨.stands h.stands (h.sent.trans hsent) (by rwa [List.append_nil]),
    fun _ => ⟨h.fails, fun _ _ _ _ _ => List.not_mem_nil, h.sends⟩⟩

theorem requestPerform_unasked (h : Stands .unloaded context.session) (hloads : loads operation = false) :
    ∃ answer, QuietStep environment context .unloaded operation (answer, context) := by
  have hnext : Standing.next .unloaded operation = .unloaded := by
    rw [Standing.next, hloads]
    rfl
  cases operation with
  | session operation =>
    cases operation with
    | login userId =>
      have huser : ¬ 0 < userId := of_decide_eq_false hloads
      refine ⟨.done false, .unchanged h hnext ?_ fun _ => rfl⟩
      rw [requestPerform, sessionPerform, authLogin_refused huser]
      rfl
    | commit =>
      have hidle : Idle context.session := by
        rw [h.eq_empty]
        exact .inl rfl
      refine ⟨.done true, .unchanged h hnext ?_ fun hno => hno.elim⟩
      rw [requestPerform, sessionPerform, sessionCommit_idle hidle]
      rfl
    | _ => cases hloads
  | csrfToken => cases hloads
  | flashSet key message =>
    have hkey : flashKey key = none := Option.isSome_eq_false_iff.mp hloads |> Option.isNone_iff_eq_none.mp
    refine ⟨.done false, .unchanged h hnext ?_ fun _ => rfl⟩
    rw [requestPerform, flashSet, hkey]
    rfl
  | flashGet key =>
    have hkey : flashKey key = none := Option.isSome_eq_false_iff.mp hloads |> Option.isNone_iff_eq_none.mp
    refine ⟨.string none, .unchanged h hnext ?_ fun _ => rfl⟩
    rw [requestPerform, flashGet, hkey]
    rfl

theorem requestPerform_course (h : Course request standing history context)
    (hquiet : ¬ Breaks standing operation) :
    Keeps (fun _ _ => True)
      (After history (CourseStep request standing history context operation)) history
      (requestPerform environment context operation) := by
  have hoperation : operation ≠ .csrfToken := by
    rintro rfl
    exact hquiet (breaks_csrfToken standing)
  cases h with
  | there hloaded hhistory =>
    apply (requestPerform_passed hloaded history).after_mono
    intro events result hpassed
    exact hpassed.courseStep hhistory
  | stands hstands hsent hhistory =>
    by_cases hstanding : standing = .unloaded
    · subst hstanding
      have hunloaded : context.session.loaded = false := by rw [hstands.eq_empty]
      cases hloads : loads operation with
      | false =>
        obtain ⟨answer, hquietStep⟩ := @requestPerform_unasked environment _ _ hstands hloads
        rw [hquietStep.done]
        exact keeps_after_done (hquietStep.courseStep hsent fun _ => hhistory rfl)
      | true =>
        obtain ⟨refused, rest, hasks⟩ := @requestPerform_asks environment _ hoperation hloads
        rw [hasks.ensures]
        apply (sessionEnsure_keeps (fun _ _ _ => trivial) history).after_bind
        intro events loaded hensure
        have hnow := hensure.loaded
        cases hensure with
        | already h => cases hunloaded.symm.trans h
        | load _ hload =>
          rcases hload.split with hfailed | ⟨hok, hanswered⟩
          · rw [hfailed, hasks.refuses]
            apply keeps_after_done
            rw [List.append_nil]
            refine ⟨.stands ?_ hsent ?_, fun _ => ⟨fun _ => hasks.fails, ?_, ?_⟩⟩
            · rw [Standing.next, hloads]
              exact hstands.load
            · rw [Standing.next, hloads]
              rintro ⟨⟩
            · rintro rfl
              cases hloads
            · rintro rfl
              cases hloads
          · obtain ⟨ok, loaded⟩ := loaded
            obtain rfl : ok = true := hok
            have hagain : rest (true, loaded) = requestPerform environment loaded operation := by
              rw [hasks.ensures, sessionEnsure, if_pos hnow, done_bind]
            rw [hagain]
            apply (requestPerform_passed hnow _).after_mono
            intro more result hpassed
            refine Passed.courseStep ⟨hpassed.loaded, ?_⟩ (hhistory rfl)
            rw [loadFails_append, not_or]
            exact ⟨hanswered, hpassed.answered⟩
    · obtain ⟨result, hquietStep⟩ :=
        @requestPerform_quiet environment _ _ _ hstands hstanding hquiet
      have hnext : standing.next operation ≠ .unloaded := by
        cases standing with
        | unloaded => exact absurd rfl hstanding
        | _ => unfold Standing.next; split <;> simp_all
      rw [hquietStep.done]
      exact keeps_after_done (hquietStep.courseStep hsent fun hno => absurd hno hnext)

end Course

section Runs

variable {standing : Standing} {operation : RequestOperation}

/-- A run of a request whose load fails as soon as something asks for the session. -/
structure FailedRun (request : RequestParse.Request) (standing next : Standing)
    (events : List SessionEvent) (context : Context) : Prop where
  stands : Stands next context.session
  sent : context.request = request
  generated : ∀ event ∈ events, Generated event.call event.answer
  failed : next ≠ .unloaded → standing ≠ .unloaded ∨ LoadFails events

theorem sessionEnsure_fails {digest : Bytes} (hstands : Stands .unloaded context.session)
    (hdigest : sessionDigest environment (contextCookie context environment.sessionCookieName) =
      some digest) :
    Leads (sessionEnsure environment context) [⟨.select digest, none⟩]
      (.done (false, loadedContext context)) := by
  have hunloaded : context.session.loaded = false := by rw [hstands.eq_empty]
  apply sessionEnsure_leads hunloaded
  rw [sessionLoad_eq, hdigest]
  exact .cons (.nil _)

theorem generated_select (digest : Bytes) :
    ∀ event ∈ [(⟨.select digest, none⟩ : SessionEvent)], Generated event.call event.answer := by
  intro event hmem
  cases List.mem_singleton.mp hmem
  trivial

theorem requestPerform_run {digest : Bytes} (hstands : Stands standing context.session)
    (hsent : context.request = request) (hquiet : ¬ Breaks standing operation)
    (hdigest : sessionDigest environment (presentedToken environment request) = some digest) :
    ∃ events result, Leads (requestPerform environment context operation) events (.done result) ∧
      FailedRun request standing (standing.next operation) events result.2 := by
  have hquietRun : ∀ result, QuietStep environment context standing operation result →
      (standing.next operation ≠ .unloaded → standing ≠ .unloaded) →
      ∃ events result, Leads (requestPerform environment context operation) events (.done result) ∧
        FailedRun request standing (standing.next operation) events result.2 := by
    intro result hstep hfailed
    refine ⟨[], result, ?_, hstep.stands, hstep.sent.trans hsent, fun _ hmem => absurd hmem List.not_mem_nil,
      fun hnext => .inl (hfailed hnext)⟩
    rw [hstep.done]
    exact .nil _
  by_cases hstanding : standing = .unloaded
  · subst hstanding
    have hoperation : operation ≠ .csrfToken := hquiet
    cases hloads : loads operation with
    | false =>
      obtain ⟨answer, hstep⟩ := @requestPerform_unasked environment _ _ hstands hloads
      refine hquietRun _ hstep fun hnext => ?_
      rw [Standing.next, hloads] at hnext
      exact absurd rfl hnext
    | true =>
      obtain ⟨refused, rest, hasks⟩ := @requestPerform_asks environment _ hoperation hloads
      rw [← hsent] at hdigest
      refine ⟨[⟨.select digest, none⟩], (refused, loadedContext context), ?_, ?_, hsent,
        generated_select digest, fun _ => .inr ⟨digest, List.mem_singleton.mpr rfl⟩⟩
      · rw [hasks.ensures, ← List.append_nil [_]]
        apply (sessionEnsure_fails hstands hdigest).bind
        rw [hasks.refuses]
        exact .nil _
      · rw [Standing.next, hloads]
        exact hstands.load
  · obtain ⟨result, hstep⟩ := @requestPerform_quiet environment _ _ _ hstands hstanding hquiet
    exact hquietRun _ hstep fun _ => hstanding

theorem requestPerformAll_run {operations : List RequestOperation} {digest : Bytes}
    (hstands : Stands standing context.session) (hsent : context.request = request)
    (hquiet : Harmless standing operations)
    (hdigest : sessionDigest environment (presentedToken environment request) = some digest) :
    ∃ events answers final,
      Leads (requestPerformAll environment operations context) events (.done (answers, final)) ∧
        FailedRun request standing (operations.foldl Standing.next standing) events final := by
  induction operations generalizing standing context with
  | nil =>
    exact ⟨[], [], context, .nil _, hstands, hsent, fun _ hmem => absurd hmem List.not_mem_nil,
      fun hnext => .inl hnext⟩
  | cons operation operations ih =>
    obtain ⟨events, result, hleads, hrun⟩ := requestPerform_run hstands hsent hquiet.1 hdigest
    obtain ⟨more, answers, final, hmore, hrest⟩ := ih hrun.stands hrun.sent hquiet.2
    refine ⟨events ++ more, result.1 :: answers, final, ?_, hrest.stands, hrest.sent, ?_, ?_⟩
    · apply hleads.bind
      rw [← List.append_nil more]
      exact hmore.bind (.nil _)
    · intro event hmem
      exact (List.mem_append.mp hmem).elim (hrun.generated event) (hrest.generated event)
    · intro hnext
      rw [loadFails_append]
      rcases hrest.failed hnext with hmiddle | hfails
      · exact (hrun.failed hmiddle).imp_right .inl
      · exact .inr (.inr hfails)

/-- A run of one operation that takes the empty session for the client's. -/
structure BreakingRun (environment : Environment) (context : Context) (standing : Standing)
    (operation : RequestOperation) (events : List SessionEvent) (result : SessionAnswer × Context) :
    Prop where
  leads : Leads (requestPerform environment context operation) events (.done result)
  generated : ∀ event ∈ events, Generated event.call event.answer
  failed : standing ≠ .unloaded ∨ LoadFails events
  breaks : ¬ StepFails operation context events result

theorem sessionSet_fst (result : Bool × SessionValues) : (sessionSet context result).1 = result.1 := by
  unfold sessionSet
  cases h : result.1 <;> rfl

theorem csrfMake_leads (hloaded : context.session.loaded = true)
    (hvalues : context.session.values = .empty) (token : Bytes) :
    ∃ final, Leads (csrfMake environment context) [⟨.randomToken, some token⟩]
      (.done (some token, final)) := by
  have hset : (sessionSet context (context.session.values.setStringView CSRF_KEY token)).1 = true := by
    rw [sessionSet_fst, hvalues, empty_setStringView]
  have hstored := context.session.values.setStringView_stored CSRF_KEY token
  have hkept : (sessionSet context (context.session.values.setStringView CSRF_KEY
      token)).2.session.loaded = true := by
    unfold sessionSet
    split_ifs <;> exact hloaded
  have hfound : (sessionSet context (context.session.values.setStringView CSRF_KEY
      token)).2.session.values.getString CSRF_KEY = some token := by
    have hok := hset
    rw [sessionSet_fst] at hok
    apply SessionValues.getString_of_contents
    rw [sessionSet, if_pos hok]
    dsimp only
    rw [hstored.done hok, Function.update_self]
  refine ⟨(sessionSet context (context.session.values.setStringView CSRF_KEY token)).2, ?_⟩
  unfold csrfMake
  apply Leads.cons
  dsimp only
  rw [sessionSetString_loaded hloaded (by decide), done_bind, hset, Bool.not_true, if_neg (by decide),
    sessionGetString, sessionWith_loaded hkept, hfound]
  exact .nil _

theorem generated_token {token : Bytes} (htoken : TokenText token) :
    ∀ event ∈ [(⟨.randomToken, some token⟩ : SessionEvent)], Generated event.call event.answer := by
  intro event hmem
  cases List.mem_singleton.mp hmem
  exact htoken

/-- The load fails in `csrf_token` itself, which then goes on. -/
theorem csrfToken_unloaded {token digest : Bytes} (hstands : Stands .unloaded context.session)
    (hdigest : sessionDigest environment (contextCookie context environment.sessionCookieName) =
      some digest) (htoken : TokenText token) :
    ∃ events result, BreakingRun environment context .unloaded .csrfToken events result := by
  have hfailed := hstands.load
  obtain ⟨final, hmake⟩ := @csrfMake_leads environment (loadedContext context)
    (hfailed.loaded (by decide)) hfailed.values token
  have hget : Leads (sessionGetString environment context CSRF_KEY) [⟨.select digest, none⟩]
      (.done (none, loadedContext context)) := by
    rw [sessionGetString, sessionWith, ← List.append_nil [_]]
    exact (sessionEnsure_fails hstands hdigest).bind (.nil _)
  refine ⟨[⟨.select digest, none⟩] ++ [⟨.randomToken, some token⟩], (.string (some token), final),
    ?_, ?_, .inr ⟨digest, List.mem_cons_self⟩,
    fun hsteps => Option.some_ne_none token (hsteps.fails trivial)⟩
  · rw [requestPerform, answered, csrfToken, ← List.append_nil ([_] ++ [_])]
    exact (hget.bind hmake).bind (.nil _)
  · intro event hmem
    exact (List.mem_append.mp hmem).elim (generated_select digest event) (generated_token htoken event)

theorem sessionSetString_breaks {fullKey value : Bytes} (hloaded : context.session.loaded = true)
    (hvalues : context.session.values = .empty) (hkey : fullKey ≠ []) :
    ∃ final, answered .done (sessionSetString environment context fullKey (some value)) =
      .done (.done true, final) := by
  refine ⟨(sessionSet context (context.session.values.setStringView fullKey value)).2, ?_⟩
  rw [answered, sessionSetString_loaded hloaded hkey, done_bind, sessionSet_fst, hvalues,
    empty_setStringView]

theorem authLogin_breaks {userId : Int64} (hloaded : context.session.loaded = true)
    (hvalues : context.session.values = .empty) (huser : 0 < userId) :
    ∃ final, answered .done (authLogin environment context userId) = .done (.done true, final) := by
  have hset : (sessionSet (regeneratingContext context) ((regeneratingContext
      context).session.values.setValue AUTH_USER_KEY (smInt userId))).1 = true := by
    have hkept : (regeneratingContext context).session.values = .empty := hvalues
    rw [sessionSet_fst, hkept, empty_setValue _ rfl]
  refine ⟨(sessionSet (regeneratingContext context) ((regeneratingContext
    context).session.values.setValue AUTH_USER_KEY (smInt userId))).2, ?_⟩
  have hagain : (regeneratingContext context).session.loaded = true := hloaded
  rw [answered, authLogin, if_neg (Int64.not_le.mpr huser), sessionRegenerate,
    sessionWith_loaded hloaded, done_bind]
  change ((sessionSetInt64 environment (regeneratingContext context) AUTH_USER_KEY userId).bind _) = _
  rw [sessionSetInt64, sessionWith_loaded hagain, done_bind, hset]

theorem requestPerform_stores {token : Bytes} (hstands : Stands standing context.session)
    (hstanding : standing ≠ .unloaded) (hstores : StoresValue operation) (htoken : TokenText token) :
    ∃ events result, BreakingRun environment context standing operation events result := by
  have hloaded := hstands.loaded hstanding
  have hvalues := hstands.values
  have hdone : ∀ final, GetsOrSets operation →
      requestPerform environment context operation = .done (.done true, final) →
      ∃ events result, BreakingRun environment context standing operation events result := by
    intro final hgets hfinal
    refine ⟨[], (.done true, final), ?_, fun _ hmem => absurd hmem List.not_mem_nil, .inl hstanding,
      fun hsteps => Bool.false_ne_true (hsteps.fails hgets).symm⟩
    rw [hfinal]
    exact .nil _
  cases operation with
  | session operation =>
    cases operation with
    | setString key value =>
      obtain ⟨hkey, hvalue⟩ := hstores
      obtain ⟨value, rfl⟩ := Option.ne_none_iff_exists'.mp hvalue
      obtain ⟨final, hfinal⟩ := sessionSetString_breaks hloaded hvalues hkey
      exact hdone final trivial hfinal
    | setInt64 key value =>
      refine hdone (sessionSet context (context.session.values.setValue key (smInt value))).2 trivial ?_
      rw [requestPerform, sessionPerform, answered, sessionSetInt64, sessionWith_loaded hloaded,
        done_bind, sessionSet_fst, hvalues, empty_setValue _ rfl]
    | setBool key value =>
      refine hdone (sessionSet context (context.session.values.setValue key (smBool value))).2 trivial ?_
      rw [requestPerform, sessionPerform, answered, sessionSetBool, sessionWith_loaded hloaded,
        done_bind, sessionSet_fst, hvalues, empty_setValue _ rfl]
    | login userId =>
      obtain ⟨final, hfinal⟩ := authLogin_breaks hloaded hvalues hstores
      exact hdone final trivial hfinal
    | _ => exact hstores.elim
  | csrfToken =>
    obtain ⟨final, hmake⟩ := @csrfMake_leads environment context hloaded hvalues token
    refine ⟨[⟨.randomToken, some token⟩], (.string (some token), final), ?_, generated_token htoken,
      .inl hstanding, fun hsteps => Option.some_ne_none token (hsteps.fails trivial)⟩
    rw [requestPerform, answered, csrfToken, sessionGetString_empty hloaded hvalues,
      ← List.append_nil [_]]
    exact hmake.bind (.nil _)
  | flashSet key message =>
    obtain ⟨hkey, hmessage⟩ := hstores
    obtain ⟨message, rfl⟩ := Option.ne_none_iff_exists'.mp hmessage
    obtain ⟨fullKey, hfull⟩ := Option.ne_none_iff_exists'.mp hkey
    have hne : fullKey ≠ [] := by
      unfold flashKey at hfull
      split_ifs at hfull
      cases hfull
      exact List.append_ne_nil_of_left_ne_nil (by decide) _
    obtain ⟨final, hfinal⟩ := sessionSetString_breaks hloaded hvalues hne
    refine hdone final trivial ?_
    rw [requestPerform, flashSet, hfull]
    exact hfinal
  | flashGet key => exact hstores.elim

theorem empty_serialised : sessionSerialize SessionValues.empty = some [1, 0, 0] := by
  unfold sessionSerialize
  rw [smIterate_entries]
  decide

/-- Storing writes the row, whether or not its cookie can be set. -/
theorem sessionStore_writes {data digest : Bytes} (hdata : sessionSerialize context.session.values = some data)
    (hshort : data.length ≤ SESSION_MAX_BYTES)
    (hdigest : sessionDigest environment context.session.token = some digest) (now : ℤ) :
    ∃ result, Leads (sessionStore environment context)
      [⟨.time, now⟩, ⟨.replace digest data now (now + environment.sessionTtlSeconds), true⟩]
      (.done result) := by
  cases hcookie : (contextSetCookie context environment.sessionCookieName context.session.token
    (sessionStoreOptions environment)).1 with
  | true =>
    rw [← @expiryContext_cookie context (now + environment.sessionTtlSeconds)] at hcookie
    exact ⟨_, sessionStore_leads hdata hshort hdigest now hcookie⟩
  | false => exact ⟨_, sessionStore_leads_refused hdata hshort hdigest hcookie now⟩

theorem sessionCommit_breaks {token digest : Bytes} (hstands : Stands .changed context.session)
    (htoken : TokenText token) (hdigest : sessionDigest environment token = some digest) :
    ∃ events result,
      BreakingRun environment context .changed (.session .commit) events result := by
  have hpending : ¬ Idle context.session := by
    generalize context.session = session at hstands
    cases hstands
    simp [Idle]
  have hkept : ¬ GivesUp context.session := fun hgives => hgives.2 hstands.token
  have hissued : ¬ (context.session.token ≠ [] ∧ context.session.regenerate = false) :=
    fun hboth => hboth.1 hstands.token
  have hvalues : (tokenContext context token).session.values = .empty := hstands.values
  obtain ⟨result, hstore⟩ := @sessionStore_writes environment (tokenContext context token) [1, 0, 0]
    digest (by rw [hvalues, empty_serialised]) (by decide) hdigest 0
  refine ⟨[⟨.randomToken, some token⟩] ++ [⟨.time, (0 : ℤ)⟩,
    ⟨.replace digest [1, 0, 0] 0 (0 + environment.sessionTtlSeconds), true⟩],
    (.done result.1, result.2), ?_, ?_, .inl (by decide), fun hsteps => ?_⟩
  · rw [requestPerform, sessionPerform, answered, sessionCommit_kept hpending hkept,
      sessionRenew_issued hissued, ← List.append_nil ([_] ++ _)]
    exact Leads.bind (.cons hstore) (.nil _)
  · intro event hmem
    rcases List.mem_append.mp hmem with htokenEvent | hrest
    · exact generated_token htoken event htokenEvent
    · rcases List.mem_cons.mp hrest with rfl | hreplace
      · trivial
      · cases List.mem_singleton.mp hreplace
        trivial
  · exact hsteps.writes rfl _ _ _ _ (List.mem_append_right _ (List.mem_cons_of_mem _ List.mem_cons_self))

theorem requestPerform_breaks {digest : Bytes} (hstands : Stands standing context.session)
    (hdigest : sessionDigest environment (contextCookie context environment.sessionCookieName) =
      some digest) (htokens : DigestsTokens environment) (hbreaks : Breaks standing operation) :
    ∃ events result, BreakingRun environment context standing operation events result := by
  obtain ⟨token, tokenDigest, htoken, htokenDigest⟩ := htokens
  by_cases hcommit : standing = .changed ∧ operation = .session .commit
  · obtain ⟨rfl, rfl⟩ := hcommit
    exact sessionCommit_breaks hstands htoken htokenDigest
  by_cases hstanding : standing = .unloaded
  · subst hstanding
    obtain rfl : operation = .csrfToken := hbreaks
    exact csrfToken_unloaded hstands hdigest htoken
  · apply requestPerform_stores hstands hstanding _ htoken
    cases standing with
    | unloaded => exact absurd rfl hstanding
    | failed => exact hbreaks
    | ended => exact hbreaks
    | changed =>
      unfold Breaks at hbreaks
      split at hbreaks <;> simp_all

end Runs

theorem harmless_append {standing : Standing} {first second : List RequestOperation} :
    Harmless standing (first ++ second) ↔
      Harmless standing first ∧ Harmless (first.foldl Standing.next standing) second := by
  induction first generalizing standing with
  | nil => exact (and_iff_right trivial).symm
  | cons operation first ih =>
    rw [List.cons_append, Harmless, Harmless, ih, List.foldl_cons, and_assoc]

theorem requestPerformAll_course {standing : Standing} {operations : List RequestOperation}
    (h : Course request standing history context) (hquiet : Harmless standing operations) :
    Keeps (fun _ _ => True)
      (fun later result => Course request (operations.foldl Standing.next standing) later result.2)
      history (requestPerformAll environment operations context) := by
  induction operations generalizing standing history context with
  | nil => exact h
  | cons operation operations ih =>
    apply (requestPerform_course h hquiet.1).bind
    intro later result hresult
    obtain ⟨events, rfl, hstep⟩ := hresult
    apply (ih hstep.course hquiet.2).bind
    intro last rest hrest
    exact hrest

theorem Harmless.staysFailed {headers : List ResponseHeader} {operations : List RequestOperation}
    (h : Harmless .unloaded operations) : StaysFailed environment request headers operations := by
  intro before operation after hoperations history answers context hhistory events result hevents _ hfails
  rw [hoperations, harmless_append] at h
  have hstart : Course request .unloaded [] { request := request, responseHeaders := headers } :=
    .stands .unloaded rfl fun _ => not_loadFails_nil
  have hcourse := (@requestPerformAll_course environment _ _ _ _ _ hstart h.1).leads hhistory
  rw [List.nil_append] at hcourse
  obtain ⟨more, hmore, hstep⟩ := (requestPerform_course hcourse h.2.1).leads hevents
  cases List.append_cancel_left hmore
  exact hstep.fails hfails

/-- The first operation that does harm has a run in which it does. -/
theorem StaysFailed.harmless {headers : List ResponseHeader} {operations : List RequestOperation}
    {digest : Bytes} (h : StaysFailed environment request headers operations)
    (htokens : DigestsTokens environment)
    (hdigest : sessionDigest environment (presentedToken environment request) = some digest) :
    Harmless .unloaded operations := by
  have hprefix : ∀ before after, operations = before ++ after → Harmless .unloaded before := by
    intro before
    induction before using List.reverseRecOn with
    | nil => exact fun _ _ => trivial
    | append_singleton before operation ih =>
      intro after hoperations
      rw [List.append_assoc, List.singleton_append] at hoperations
      have hbefore := ih _ hoperations
      refine harmless_append.mpr ⟨hbefore, fun hbreaks => ?_, trivial⟩
      obtain ⟨history, answers, context, hhistory, hrun⟩ :=
        @requestPerformAll_run environment request { request := request, responseHeaders := headers } _ _ _
          .unloaded rfl hbefore hdigest
      have hpresented : sessionDigest environment
          (contextCookie context environment.sessionCookieName) = some digest := by
        rw [← hdigest, presentedToken, ← hrun.sent]
        rfl
      obtain ⟨events, result, hbreaking⟩ := requestPerform_breaks hrun.stands hpresented htokens hbreaks
      refine hbreaking.breaks (h before operation after hoperations history answers context hhistory
        events result hbreaking.leads ?_ ?_)
      · intro event hmem
        exact (List.mem_append.mp hmem).elim (hrun.generated event) (hbreaking.generated event)
      · rw [loadFails_append]
        rcases hbreaking.failed with hasked | hfails
        · exact .inl ((hrun.failed hasked).resolve_left fun hno => hno rfl)
        · exact .inr hfails
  exact hprefix operations [] (List.append_nil operations).symm

theorem sessionEnsure_cookieless (hloaded : context.session.loaded = false)
    (hnone : sessionDigest environment (contextCookie context environment.sessionCookieName) = none) :
    sessionEnsure environment context = sessionEnsure environment (loadedContext context) := by
  rw [sessionEnsure, hloaded, if_neg (by decide), sessionLoad_eq, hnone, sessionEnsure]
  exact (if_pos rfl).symm

theorem requestPerform_cookieless {operation : RequestOperation} (hloaded : context.session.loaded = false)
    (hloads : loads operation = true)
    (hnone : sessionDigest environment (contextCookie context environment.sessionCookieName) = none) :
    requestPerform environment context operation =
      requestPerform environment (loadedContext context) operation := by
  by_cases hoperation : operation = .csrfToken
  · subst hoperation
    rw [requestPerform, requestPerform, csrfToken, csrfToken, sessionGetString, sessionGetString,
      sessionWith, sessionWith, sessionEnsure_cookieless hloaded hnone]
  · obtain ⟨refused, rest, hasks⟩ := @requestPerform_asks environment _ hoperation hloads
    rw [hasks.ensures, hasks.ensures, sessionEnsure_cookieless hloaded hnone]

theorem Course.answered (h : Course request .unloaded history context) : ¬ LoadFails history := by
  cases h with
  | stands _ _ hhistory => exact hhistory rfl
  | there _ hhistory => exact hhistory

theorem requestPerform_sessionless {operation : RequestOperation}
    (hnone : sessionDigest environment (presentedToken environment request) = none)
    (h : Course request .unloaded history context) :
    Keeps (fun _ _ => True) (fun later result => Course request .unloaded later result.2) history
      (requestPerform environment context operation) := by
  have hhistory := h.answered
  have hthere : ∀ events result, Passed events result →
      Course request .unloaded (history ++ events) result.2 := by
    intro events result hpassed
    refine .there hpassed.loaded ?_
    rw [loadFails_append, not_or]
    exact ⟨hhistory, hpassed.answered⟩
  have hpasses : ∀ loaded : Context, loaded.session.loaded = true →
      Keeps (fun _ _ => True) (fun later result => Course request .unloaded later result.2) history
        (requestPerform environment loaded operation) := by
    intro loaded hloaded
    apply (requestPerform_passed hloaded history).mono
    intro later result hresult
    obtain ⟨events, rfl, hpassed⟩ := hresult
    exact hthere events result hpassed
  cases h with
  | there hloaded => exact hpasses context hloaded
  | stands hstands hsent =>
    have hunloaded : context.session.loaded = false := by rw [hstands.eq_empty]
    rw [presentedToken, ← hsent] at hnone
    cases hloads : loads operation with
    | false =>
      obtain ⟨answer, hstep⟩ := @requestPerform_unasked environment _ _ hstands hloads
      rw [hstep.done]
      exact .stands hstands hsent fun _ => hhistory
    | true =>
      rw [requestPerform_cookieless hunloaded hloads hnone]
      exact hpasses (loadedContext context) rfl

theorem requestPerformAll_sessionless {operations : List RequestOperation}
    (hnone : sessionDigest environment (presentedToken environment request) = none)
    (h : Course request .unloaded history context) :
    Keeps (fun _ _ => True) (fun later result => Course request .unloaded later result.2) history
      (requestPerformAll environment operations context) := by
  induction operations generalizing history context with
  | nil => exact h
  | cons operation operations ih =>
    apply (requestPerform_sessionless hnone h).bind
    intro later result hresult
    apply (ih hresult).bind
    intro last rest hrest
    exact hrest

theorem staysFailed_sessionless {headers : List ResponseHeader} {operations : List RequestOperation}
    (hnone : sessionDigest environment (presentedToken environment request) = none) :
    StaysFailed environment request headers operations := by
  intro before operation after _ history answers context hhistory events result hevents _ hfails
  have hstart : Course request .unloaded [] { request := request, responseHeaders := headers } :=
    .stands .unloaded rfl fun _ => not_loadFails_nil
  have hcourse := (@requestPerformAll_sessionless environment _ _ _ _ hnone hstart).leads hhistory
  exact absurd hfails ((requestPerform_sessionless hnone hcourse).leads hevents).answered

/-- A load that has failed stays failed exactly in the requests that do no harm: that do not
store, neither make a token nor sign in, and do not commit what they have only marked. -/
theorem sessionLoad_staysFailed (environment : Environment) (request : RequestParse.Request)
    (headers : List ResponseHeader) (operations : List RequestOperation)
    (htokens : DigestsTokens environment) :
    StaysFailed environment request headers operations ↔
      sessionDigest environment (presentedToken environment request) = none ∨
        Harmless .unloaded operations := by
  constructor
  · intro h
    cases hdigest : sessionDigest environment (presentedToken environment request) with
    | none => exact .inl rfl
    | some digest => exact .inr (h.harmless htokens hdigest)
  · rintro (hnone | hharmless)
    · exact staysFailed_sessionless hnone
    · exact hharmless.staysFailed

theorem sample_digestsTokens : DigestsTokens sampleEnvironment :=
  ⟨_, _, ⟨List.replicate 32 0, rfl, rfl⟩, rfl⟩

def failedOperations : List RequestOperation :=
  [.session (.getString (sv "a")), .session (.setBool (sv "a") true)]

theorem sessionLoad_staysFailed_sample :
    StaysFailed sampleEnvironment sampleRequest [] failedOperations ↔
      sessionDigest sampleEnvironment (presentedToken sampleEnvironment sampleRequest) = none ∨
        Harmless .unloaded failedOperations :=
  sessionLoad_staysFailed sampleEnvironment sampleRequest [] failedOperations sample_digestsTokens

/-- The getter reports that the load has failed, and the setter is served. -/
theorem sessionLoad_forgets_failure :
    ¬ StaysFailed sampleEnvironment sampleRequest [] failedOperations := by
  intro h
  have hdigest : sessionDigest sampleEnvironment (presentedToken sampleEnvironment sampleRequest) =
      some sampleToken := by rw [sample_sent, sample_digest]
  exact (h.harmless sample_digestsTokens hdigest).2.1 trivial

end Ceasy.Sessions
