import Ceasy.SessionDecoder
import Ceasy.SessionStore

set_option autoImplicit false

/-!
# A row that is not accepted

An expired row is not decoded. A row that does not decode is: the entries before
the failure have been set in the session of the request by then, and stay there.
-/
namespace Ceasy.Sessions
open StringView Collection Dialogue BigEndian

variable {environment : Environment} {context : Context}

/-- The session with the values that the decoder has left in it. -/
def undecodedContext (context : Context) (row : SessionRow) : Context :=
  { loadedContext context with session := { (loadedContext context).session with
    values := (sessionDeserialize context.session.values row.data).2 } }

theorem sessionLoadRow_leads {cookie digest : Bytes} {row : SessionRow} {now : ℤ}
    {events : List SessionEvent} {final : Bool × Context}
    (hdigest : sessionDigest environment cookie = some digest)
    (h : Leads (sessionLoadRow environment (loadedContext context) cookie row)
      (⟨.time, now⟩ :: events) (.done final)) :
    (row.expiresAt ≤ now → final.2 = loadedContext context) ∧
      (now < row.expiresAt → (sessionDeserialize context.session.values row.data).1 = false →
        final.2 = undecodedContext context row) := by
  unfold sessionLoadRow at h
  rw [sessionDeleteDigest_eq hdigest] at h
  cases h with
  | cons h =>
    dsimp only at h
    constructor
    · intro hexpired
      rw [if_pos hexpired] at h
      cases h with
      | cons h =>
        cases h
        rfl
    · intro hexpires hfailed
      have hvalues : sessionDeserialize (loadedContext context).session.values row.data =
          (false, (sessionDeserialize context.session.values row.data).2) := Prod.ext hfailed rfl
      rw [if_neg (Int.not_le.mpr hexpires), hvalues] at h
      cases h with
      | cons h =>
        cases h
        rfl

theorem sessionLoad_leads_row {digest : Bytes} {row : SessionRow} {now : ℤ}
    {events : List SessionEvent} {final : Bool × Context}
    (hdigest : sessionDigest environment
      (contextCookie context environment.sessionCookieName) = some digest)
    (h : Leads (sessionLoad environment context)
      (⟨.select digest, some (some row)⟩ :: ⟨.time, now⟩ :: events) (.done final)) :
    (row.expiresAt ≤ now → final.2 = loadedContext context) ∧
      (now < row.expiresAt → (sessionDeserialize context.session.values row.data).1 = false →
        final.2 = undecodedContext context row) := by
  rw [sessionLoad_eq, hdigest] at h
  cases h with
  | cons h => exact sessionLoadRow_leads hdigest h

/-- Behind a well-formed header that announces entries there is a well-formed entry. -/
def StoresEntry (data : Bytes) : Prop :=
  ∃ count rest, SessionHeader data count rest ∧ 0 < count ∧ BeginsEntry rest

theorem setEntries_isSome {contents : SessionContents} {key : Bytes}
    (entries : List (Bytes × StringMapData Unit)) (h : (contents key).isSome) :
    (setEntries contents entries key).isSome := by
  induction entries generalizing contents with
  | nil => exact h
  | cons entry entries ih =>
    rw [setEntries_cons]
    apply ih
    by_cases hkey : key = entry.1
    · rw [hkey, Function.update_self]
      rfl
    · rwa [Function.update_of_ne hkey]

theorem SessionHeader.unique {data rest other : Bytes} {count number : ℕ}
    (h : SessionHeader data count rest) (hother : SessionHeader data number other) :
    count = number ∧ rest = other := by
  have hlayout := h.layout.symm.trans hother.layout
  obtain ⟨hcount, hrest⟩ := List.append_inj (List.cons.inj hlayout).2
    (by rw [encode_length, encode_length])
  refine ⟨?_, hrest⟩
  have hdecoded := congrArg decode hcount
  rwa [decode_encode (show count < 256 ^ 2 from Nat.lt_succ_of_le h.few),
    decode_encode (show number < 256 ^ 2 from Nat.lt_succ_of_le hother.few)] at hdecoded

theorem sessionDeserialize_empty_iff (data : Bytes) :
    (∀ key, (sessionDeserialize .empty data).2.contents key = none) ↔ ¬ StoresEntry data := by
  by_cases hheader : ∃ count rest, SessionHeader data count rest
  · obtain ⟨count, rest, hheader⟩ := hheader
    obtain ⟨entries, encoded, after, decoded, hdecoded, hencoded, rfl, hcontents, hcount, hstop⟩ :=
      sessionDeserialize_header hheader
    rw [hdecoded]
    dsimp only
    rw [hcontents]
    cases hencoded with
    | nil =>
      refine iff_of_true (fun _ => rfl) ?_
      rintro ⟨number, other, hother, hpositive, hbegins⟩
      obtain ⟨rfl, rfl⟩ := hheader.unique hother
      exact hstop hpositive hbegins
    | @cons key value kind entries bytes hkey hvalue hrest =>
      refine iff_of_false (fun hnone => ?_) (not_not_intro ⟨_, _, hheader, ?_, ?_⟩)
      · have hsome : (setEntries (fun _ => none) ((key, kind) :: entries) key).isSome := by
          rw [setEntries_cons]
          apply setEntries_isSome
          rw [Function.update_self]
          rfl
        rw [hnone key] at hsome
        cases hsome
      · exact Nat.lt_of_lt_of_le (Nat.succ_pos _) hcount
      · have hencoded := EncodedEntries.cons hkey hvalue .nil
        rw [List.append_nil] at hencoded
        exact ⟨_, _, bytes ++ after, hencoded, List.append_assoc _ _ _⟩
  · rw [sessionDeserialize_no_header .empty fun count rest h => hheader ⟨count, rest, h⟩]
    refine iff_of_true (fun key => by rw [SessionValues.contents_empty]) ?_
    rintro ⟨count, rest, h, -⟩
    exact hheader ⟨count, rest, h⟩

theorem smGet_absent {values : SessionValues} {key : Bytes} (h : values.contents key = none) :
    smGet values.map key = none := by
  have hget := smGet_spec values.invariant key
  rw [show mapContents values.map key = none from h] at hget
  exact Option.map_eq_none_iff.mp hget

theorem sessionWith_loaded {R : Type} (hloaded : context.session.loaded = true) (refused : R)
    (operation : Context → R × Context) :
    sessionWith environment context refused operation = .done (operation context) := by
  rw [sessionWith, sessionEnsure, if_pos hloaded, done_bind, if_pos rfl]

/-- In a session without values every getter reports that there is none. -/
theorem sessionPerform_absent (hloaded : context.session.loaded = true)
    (hvalues : ∀ key, context.session.values.contents key = none) {operation : SessionOperation}
    (h : Reads operation) :
    sessionPerform environment context operation = .done (refusal operation, context) := by
  have hget : ∀ key, smGet context.session.values.map key = none :=
    fun key => smGet_absent (hvalues key)
  cases operation with
  | getString key =>
    rw [sessionPerform, sessionGetString, sessionWith_loaded hloaded, SessionValues.getString, hget]
    rfl
  | getInt64 key =>
    rw [sessionPerform, sessionGetInt64, sessionWith_loaded hloaded, SessionValues.getInt, hget]
    rfl
  | getBool key =>
    rw [sessionPerform, sessionGetBool, sessionWith_loaded hloaded, SessionValues.getBool, hget]
    rfl
  | userId =>
    rw [sessionPerform, authUserId, sessionGetInt64, sessionWith_loaded hloaded,
      SessionValues.getInt, hget]
    rfl
  | signedIn =>
    rw [sessionPerform, authSignedIn, authUserId, sessionGetInt64, sessionWith_loaded hloaded,
      SessionValues.getInt, hget]
    rfl
  | _ => exact h.elim

def Sets (operation : SessionOperation) (key : Bytes) (value : StringMapData Unit) : Prop :=
  storedEntry operation = some (key, value) ∨
    ∃ userId, operation = .login userId ∧ key = AUTH_USER_KEY ∧ value = .int64 userId

def OnlySet (operations : List SessionOperation) (contents : SessionContents) : Prop :=
  ∀ key value, contents key = some value → ∃ operation ∈ operations, Sets operation key value

def StoresOnlySet (operations : List SessionOperation) (_ : List SessionEvent)
    (c : SessionCall) : Prop :=
  ∀ digest data now expiresAt, c = .replace digest data now expiresAt →
    ∀ contents, Decodes data contents → OnlySet operations contents

variable {operations : List SessionOperation}

theorem storesNothing_onlySet : StoresNothing (StoresOnlySet operations) :=
  fun _ _ h digest data now expiresAt hc => absurd hc (h digest data now expiresAt)

theorem OnlySet.update {contents : SessionContents} {operation : SessionOperation} {key : Bytes}
    {value : StringMapData Unit} (h : OnlySet operations contents) (hmem : operation ∈ operations)
    (hsets : Sets operation key value) :
    OnlySet operations (Function.update contents key (some value)) := by
  intro other data hdata
  by_cases hkey : other = key
  · subst hkey
    rw [Function.update_self] at hdata
    cases hdata
    exact ⟨operation, hmem, hsets⟩
  · rw [Function.update_of_ne hkey] at hdata
    exact h other data hdata

theorem OnlySet.none : OnlySet operations fun _ => none := fun _ _ h => by cases h

theorem SessionUpdate.onlySet {session next : Session} {operation : SessionOperation}
    {answer : SessionAnswer} (h : SessionUpdate session operation answer next)
    (hmem : operation ∈ operations) (hset : OnlySet operations session.values.contents) :
    OnlySet operations next.values.contents := by
  cases h with
  | set hentry hvalues =>
    dsimp only
    rw [hvalues]
    exact hset.update hmem (.inl hentry)
  | refused hvalues =>
    dsimp only
    rwa [hvalues]
  | read => exact hset
  | @delete key values hvalues =>
    dsimp only
    rw [hvalues]
    intro other data hdata
    by_cases hkey : other = key
    · rw [hkey, Function.update_self] at hdata
      cases hdata
    · rw [Function.update_of_ne hkey] at hdata
      exact hset other data hdata
  | clear =>
    dsimp only
    rw [SessionValues.clear_contents]
    exact .none
  | regenerate => exact hset
  | login hvalues =>
    dsimp only
    rw [hvalues]
    exact hset.update hmem (.inr ⟨_, rfl, rfl, rfl⟩)
  | loginRefused hvalues =>
    dsimp only
    rwa [hvalues]

/-- A loaded session that holds only what the request has set. -/
def Own (operations : List SessionOperation) (_ : List SessionEvent) (context : Context) : Prop :=
  context.session.loaded = true ∧ OnlySet operations context.session.values.contents

theorem EnsureResult.own {events later : List SessionEvent} {result : Bool × Context}
    (h : EnsureResult environment context events result) (hown : Own operations later context) :
    result.2 = context := by
  cases h with
  | already => rfl
  | load hnot => exact absurd (hown.1.symm.trans hnot) (by decide)

theorem sessionStore_own {history : List SessionEvent} (hown : Own operations history context) :
    Keeps (StoresOnlySet operations) (fun later result => Own operations later result.2) history
      (sessionStore environment context) := by
  unfold sessionStore
  cases hdata : sessionSerialize context.session.values with
  | none => exact hown
  | some data =>
    dsimp only
    split_ifs
    · exact hown
    cases sessionDigest environment context.session.token with
    | none => exact hown
    | some digest =>
      refine ⟨storesNothing_onlySet _ _ (by simp), fun now => ⟨?_, fun success => ?_⟩⟩
      · intro other stored later expiresAt hc contents hdecodes
        cases hc
        rw [decodes_unique hdecodes (sessionSerialize_decodes hdata)]
        exact hown.2
      · cases success with
        | false => exact hown
        | true =>
          dsimp only
          rw [Bool.not_true, if_neg (by simp)]
          rcases contextSetCookie_cases
            (expiryContext context (now + environment.sessionTtlSeconds))
            environment.sessionCookieName context.session.token
            (sessionStoreOptions environment) with hcookie | hcookie
          · unfold expiryContext at hcookie
            rw [hcookie]
            exact hown
          · unfold expiryContext at hcookie
            rw [hcookie]
            exact hown

theorem sessionCommit_own {history : List SessionEvent} (hown : Own operations history context) :
    Keeps (StoresOnlySet operations) (fun later result => Own operations later result.2) history
      (sessionCommit environment context) := by
  unfold sessionCommit
  dsimp only
  by_cases hidle : (!context.session.loaded || !context.session.dirty) = true
  · rw [if_pos hidle]
    exact hown
  rw [if_neg hidle]
  by_cases hdestroy : context.session.destroy = true
  · rw [if_pos hdestroy]
    exact hown
  rw [if_neg hdestroy]
  apply (sessionRemoval_keeps storesNothing_onlySet history).bind
  intro later deleted _
  cases deleted with
  | false => exact hown
  | true =>
    apply (sessionGeneration_keeps storesNothing_onlySet later).bind
    intro last generated hgeneration
    obtain ⟨events, rfl, hgeneration⟩ := hgeneration
    have hgenerated : Own operations [] generated.2 := by
      cases hgeneration <;> exact hown
    obtain ⟨ok, generated⟩ := generated
    cases ok with
    | false => exact hgenerated
    | true => exact sessionStore_own hgenerated

theorem DestroyResult.own {events later : List SessionEvent} {result : Bool × Context}
    (h : DestroyResult environment context events result) (hown : Own operations later context) :
    Own operations later result.2 := by
  have hended : Own operations later (sessionEnd environment context) := by
    unfold Own
    rw [(sessionEnd_session environment context).2]
    refine ⟨hown.1, ?_⟩
    rw [endedSession, SessionValues.clear_contents]
    exact .none
  cases h with
  | notLoaded hensure => rwa [← hensure.own hown] at hown
  | noToken hensure =>
    rw [← hensure.own hown] at hended
    exact hended
  | refused hensure => rwa [← hensure.own hown] at hown
  | removed hensure =>
    rw [← hensure.own hown] at hended
    exact hended

theorem sessionDestroy_own {history : List SessionEvent} (hown : Own operations history context) :
    Keeps (StoresOnlySet operations) (fun later result => Own operations later result.2) history
      (answered .done (sessionDestroy environment context)) := by
  apply (sessionDestroy_keeps storesNothing_onlySet history).bind
  intro later result hresult
  obtain ⟨events, rfl, hresult⟩ := hresult
  exact hresult.own hown

theorem sessionPerform_own {operation : SessionOperation} (hmem : operation ∈ operations)
    {history : List SessionEvent} (hown : Own operations history context) :
    Keeps (StoresOnlySet operations) (fun later result => Own operations later result.2) history
      (sessionPerform environment context operation) := by
  by_cases hmemory : InMemory operation
  · apply (sessionPerform_memory storesNothing_onlySet history hmemory).mono
    intro later result hresult
    obtain ⟨events, rfl, hresult⟩ := hresult
    cases hresult with
    | update hensure hupdate =>
      obtain rfl := hensure.own hown
      exact ⟨hupdate.loaded.trans hown.1, hupdate.onlySet hmem hown.2⟩
    | notLoaded hensure =>
      obtain rfl := hensure.own hown
      exact hown
    | noUser => exact hown
  cases operation with
  | destroy => exact sessionDestroy_own hown
  | logout => exact sessionDestroy_own hown
  | commit =>
    apply (sessionCommit_own hown).bind
    intro later result hresult
    exact hresult
  | _ => exact absurd trivial hmemory

/-- Whatever a request does next, a row that it stores holds only what it has set. -/
theorem sessionPerformAll_own (hloaded : context.session.loaded = true)
    (hvalues : ∀ key, context.session.values.contents key = none) {events : List SessionEvent}
    {left : SessionDialogue (List SessionAnswer × Context)}
    (h : Leads (sessionPerformAll environment operations context) events left)
    {digest data : Bytes} {now expiresAt : ℤ} {ok : Bool}
    (hmem : (⟨.replace digest data now expiresAt, ok⟩ : SessionEvent) ∈ events)
    {contents : SessionContents} (hdecodes : Decodes data contents) :
    OnlySet operations contents := by
  have hown : Own operations [] context :=
    ⟨hloaded, fun key value hvalue => absurd (hvalues key) (by rw [hvalue]; simp)⟩
  have hkeeps := sessionPerformAll_keeps
    (fun operation hmem history context hown =>
      @sessionPerform_own environment context operations operation hmem history hown) hown
  obtain ⟨earlier, hsafe⟩ := hkeeps.allows h hmem
  exact hsafe digest data now expiresAt rfl contents hdecodes

/-- Nothing of a session is left: not in its fields, not for a getter, not for a commit. -/
structure Traceless (environment : Environment) (context : Context) : Prop where
  values : ∀ key, context.session.values.contents key = none
  token : context.session.token = []
  existing : context.session.existing = false
  reads : ∀ operation, Reads operation →
    sessionPerform environment context operation = .done (refusal operation, context)
  stores : ∀ operations events left,
    Leads (sessionPerformAll environment operations context) events left →
    ∀ digest data now expiresAt ok,
      (⟨.replace digest data now expiresAt, ok⟩ : SessionEvent) ∈ events →
      ∀ contents, Decodes data contents → OnlySet operations contents

/-- For a request whose session has not been touched, a row that is not accepted leaves no
trace exactly when it has expired or the decoder comes to no entry of it. -/
theorem sessionLoad_traceless (environment : Environment) (context : Context)
    (hfresh : context.session = {}) (digest : Bytes) (row : SessionRow) (now : ℤ)
    (events : List SessionEvent) (final : Bool × Context)
    (hdigest : sessionDigest environment
      (contextCookie context environment.sessionCookieName) = some digest)
    (hload : Leads (sessionLoad environment context)
      (⟨.select digest, some (some row)⟩ :: ⟨.time, now⟩ :: events) (.done final))
    (hrejected : row.expiresAt ≤ now ∨ (sessionDeserialize .empty row.data).1 = false) :
    Traceless environment final.2 ↔ row.expiresAt ≤ now ∨ ¬ StoresEntry row.data := by
  obtain ⟨hexpired, hundecoded⟩ := sessionLoad_leads_row hdigest hload
  rw [hfresh] at hundecoded
  have hsession : final.2.session.loaded = true ∧ final.2.session.token = [] ∧
      final.2.session.existing = false ∧
      ((∀ key, final.2.session.values.contents key = none) ↔
        row.expiresAt ≤ now ∨ ¬ StoresEntry row.data) := by
    by_cases h : row.expiresAt ≤ now
    · rw [hexpired h, loadedContext, hfresh]
      exact ⟨rfl, rfl, rfl, iff_of_true (fun key => by rw [SessionValues.contents_empty]) (.inl h)⟩
    · rw [hundecoded (Int.not_le.mp h) (hrejected.resolve_left h), undecodedContext, loadedContext,
        hfresh]
      exact ⟨rfl, rfl, rfl, (sessionDeserialize_empty_iff row.data).trans
        (or_iff_right h).symm⟩
  obtain ⟨hloaded, htoken, hexisting, hvalues⟩ := hsession
  constructor
  · intro htraceless
    exact hvalues.mp htraceless.values
  · intro h
    have hnone := hvalues.mpr h
    exact ⟨hnone, htoken, hexisting, fun operation => sessionPerform_absent hloaded hnone,
      fun operations events left hleads digest data now expiresAt ok hmem contents hdecodes =>
        sessionPerformAll_own hloaded hnone hleads hmem hdecodes⟩

/-- A row that announces two entries and holds one. -/
def truncatedRow : SessionRow := ⟨[1, 0, 2, 0, 1, 97, 3, 1], 0, 0, 100⟩

def truncatedEvents : List SessionEvent :=
  [⟨.select sampleToken, some (some truncatedRow)⟩, ⟨.time, 1⟩, ⟨.delete sampleToken, true⟩]

theorem truncated_undecoded : (sessionDeserialize .empty truncatedRow.data).1 = false := by
  decide +kernel

theorem truncated_storesEntry : StoresEntry truncatedRow.data :=
  ⟨2, [0, 1, 97, 3, 1], ⟨by decide, by decide, rfl⟩, by decide, (sv "a", .bool true),
    [0, 1, 97, 3, 1], [], @EncodedEntries.cons (sv "a") _ _ [] [] (by decide) (.bool true) .nil, rfl⟩

theorem truncated_load :
    Leads (sessionLoad sampleEnvironment { request := sampleRequest }) truncatedEvents
      (.done (true, undecodedContext { request := sampleRequest } truncatedRow)) := by
  have hcookie : contextCookie { request := sampleRequest } sampleEnvironment.sessionCookieName =
      sampleToken := sample_sent
  rw [sessionLoad_eq, hcookie, sample_digest]
  apply Leads.cons
  apply Leads.cons
  have hvalues : sessionDeserialize (loadedContext { request := sampleRequest }).session.values
      truncatedRow.data = (false, (sessionDeserialize .empty truncatedRow.data).2) :=
    Prod.ext truncated_undecoded rfl
  dsimp only
  rw [if_neg (by decide), hvalues, sessionDeleteDigest_eq sample_digest]
  exact .cons (.nil _)

theorem sessionLoad_traceless_truncated :
    Traceless sampleEnvironment (undecodedContext { request := sampleRequest } truncatedRow) ↔
      truncatedRow.expiresAt ≤ 1 ∨ ¬ StoresEntry truncatedRow.data :=
  sessionLoad_traceless sampleEnvironment { request := sampleRequest } rfl sampleToken truncatedRow 1
    [⟨.delete sampleToken, true⟩] _ (by rw [show contextCookie _ _ = sampleToken from sample_sent]; rfl)
    truncated_load (.inr truncated_undecoded)

/-- The row is not accepted, and its entry is in the session of the request. -/
theorem sessionLoad_leaves_entry :
    ∃ final, Leads (sessionLoad sampleEnvironment { request := sampleRequest }) truncatedEvents
        (.done final) ∧
      (sessionDeserialize .empty truncatedRow.data).1 = false ∧
      ∃ key, final.2.session.values.contents key ≠ none := by
  refine ⟨_, truncated_load, truncated_undecoded, ?_⟩
  by_contra hnone
  refine (sessionDeserialize_empty_iff truncatedRow.data).mp (fun key => ?_) truncated_storesEntry
  by_contra hsome
  exact hnone ⟨key, hsome⟩

end Ceasy.Sessions
