import Ceasy.SessionRevocation

set_option autoImplicit false

/-!
# Two requests that update one session

A commit rewrites the whole row from the copy of the request that makes it. Of
two requests that have loaded one session, the row is that of the one which
stores last: its changes, applied to what it loaded. The other's changes are among
them exactly when they had been stored before it loaded.
-/
namespace Ceasy.Sessions
open StringView Collection Dialogue

variable {environment : Environment} {request : RequestParse.Request} {context : Context}
  {history : List SessionEvent}

def Updates : SessionOperation → Prop
  | .setString _ _ | .setInt64 _ _ | .setBool _ _ | .delete _ => True
  | operation => Reads operation

def sessionEffect (operation : SessionOperation) (answer : SessionAnswer)
    (contents : SessionContents) : SessionContents :=
  match answer with
  | .done true =>
    match operation with
    | .delete key => Function.update contents key none
    | .clear | .destroy | .logout => fun _ => none
    | .login userId => Function.update contents AUTH_USER_KEY (some (.int64 userId))
    | operation =>
      match storedEntry operation with
      | some (key, data) => Function.update contents key (some data)
      | none => contents
  | _ => contents

def sessionEffects : List SessionOperation → List SessionAnswer → SessionContents → SessionContents
  | operation :: operations, answer :: answers, contents =>
    sessionEffects operations answers (sessionEffect operation answer contents)
  | _, _, contents => contents

theorem sessionEffect_refusal (operation : SessionOperation) (contents : SessionContents) :
    sessionEffect operation (refusal operation) contents = contents := by
  cases operation <;> rfl

theorem sessionEffect_stored {operation : SessionOperation} {key : Bytes} {data : StringMapData Unit}
    (h : storedEntry operation = some (key, data)) (contents : SessionContents) :
    sessionEffect operation (.done true) contents = Function.update contents key (some data) := by
  cases operation with
  | setString key value =>
    cases value with
    | none => cases h
    | some value =>
      cases h
      rfl
  | setInt64 key value =>
    cases h
    rfl
  | setBool key value =>
    cases h
    rfl
  | _ => cases h

theorem sessionEffect_read {operation : SessionOperation} (h : Reads operation) (answer : SessionAnswer)
    (contents : SessionContents) : sessionEffect operation answer contents = contents := by
  unfold sessionEffect
  cases operation with
  | getString => split <;> rfl
  | getInt64 => split <;> rfl
  | getBool => split <;> rfl
  | userId => split <;> rfl
  | signedIn => split <;> rfl
  | _ => exact h.elim

theorem SessionUpdate.contents {session next : Session} {operation : SessionOperation}
    {answer : SessionAnswer} (h : SessionUpdate session operation answer next) :
    next.values.contents = sessionEffect operation answer session.values.contents := by
  cases h with
  | set hentry h => rw [sessionEffect_stored hentry, h]
  | refused h => exact h
  | read answer h => rw [sessionEffect_read h]
  | delete h => exact h
  | clear => exact SessionValues.clear_contents _
  | regenerate => rfl
  | login h => exact h
  | loginRefused h => exact h

/-- A request that only updates has the session it loaded, with its changes; it is dirty
    unless they change nothing. -/
inductive Updating (environment : Environment) (request : RequestParse.Request)
    (change : SessionContents → SessionContents) : List SessionEvent → Context → Prop where
  | fresh (h : change = id) : Updating environment request change [] { request := request }
  | loaded {history : List SessionEvent} {result : Bool × Context} {values : SessionValues} {dirty : Bool}
    (hload : LoadResult environment { request := request } (presentedToken environment request)
      history result)
    (hvalues : values.contents = change result.2.session.values.contents)
    (hclean : dirty = false → change result.2.session.values.contents =
      result.2.session.values.contents) :
    Updating environment request change history { result.2 with
      session := { result.2.session with values := values, dirty := dirty } }

theorem LoadResult.flags {cookie : Bytes} {events : List SessionEvent} {result : Bool × Context}
    (h : LoadResult environment { request := request } cookie events result) :
    result.2.request = request ∧ result.2.responseHeaders = [] ∧ result.2.session.dirty = false ∧
      result.2.session.regenerate = false ∧ result.2.session.destroy = false := by
  cases h <;> exact ⟨rfl, rfl, rfl, rfl, rfl⟩

variable {change : SessionContents → SessionContents}

theorem Updating.ensure {events : List SessionEvent} {result : Bool × Context}
    (h : Updating environment request change history context)
    (hensure : EnsureResult environment context events result) :
    Updating environment request change (history ++ events) result.2 := by
  cases h with
  | fresh h =>
    subst h
    cases hensure with
    | already hloaded => cases hloaded
    | load _ hload => exact .loaded hload rfl fun _ => rfl
  | @loaded history first values dirty hload hvalues hclean =>
    cases hensure with
    | already =>
      rw [List.append_nil]
      exact .loaded hload hvalues hclean
    | load hnot =>
      have hloaded : first.2.session.loaded = false := hnot
      rw [hload.loaded] at hloaded
      cases hloaded

theorem Updating.update {operation : SessionOperation} {answer : SessionAnswer} {session : Session}
    (hoperation : Updates operation) (h : Updating environment request change history context)
    (hloaded : context.session.loaded = true)
    (hupdate : SessionUpdate context.session operation answer session) :
    Updating environment request (fun contents => sessionEffect operation answer (change contents))
      history { context with session := session } := by
  have hcontents := hupdate.contents
  cases h with
  | fresh => cases hloaded
  | @loaded _ result values dirty hload hvalues hclean =>
    have hdestroy : ∀ (values : SessionValues) (dirty : Bool),
        ({ result.2.session with values := values, destroy := false, dirty := dirty } : Session) =
          { result.2.session with values := values, dirty := dirty } := by
      intro values dirty
      rw [← hload.flags.2.2.2.2]
    have hcontents : session.values.contents =
        sessionEffect operation answer (change result.2.session.values.contents) := by
      rw [hcontents]
      exact congrArg _ hvalues
    cases hupdate with
    | @set key data next hentry hnext =>
      rw [hdestroy]
      exact .loaded hload hcontents (by simp)
    | refused => exact .loaded hload hcontents fun hdirty => hclean hdirty
    | read answer hread =>
      refine .loaded hload hcontents fun hdirty => ?_
      rw [sessionEffect_read hread]
      exact hclean hdirty
    | @delete key next hnext =>
      refine .loaded hload hcontents fun hdirty => ?_
      obtain ⟨hdirty, habsent⟩ := Bool.or_eq_false_iff.mp hdirty
      have hsame := hclean hdirty
      rw [hvalues, hsame, Option.isSome_eq_false_iff, Option.isNone_iff_eq_none] at habsent
      rw [hsame]
      exact Function.update_eq_self_iff.mpr habsent.symm
    | clear => exact hoperation.elim
    | regenerate => exact hoperation.elim
    | login => exact hoperation.elim
    | loginRefused => exact hoperation.elim

theorem Updating.memory {operation : SessionOperation} {events : List SessionEvent}
    {result : SessionAnswer × Context} (hoperation : Updates operation)
    (h : Updating environment request change history context)
    (hresult : MemoryResult environment context operation events result) :
    Updating environment request (fun contents => sessionEffect operation result.1 (change contents))
      (history ++ events) result.2 := by
  cases hresult with
  | update hensure hupdate => exact (h.ensure hensure).update hoperation hensure.loaded hupdate
  | notLoaded hensure =>
    simp only [sessionEffect_refusal]
    exact h.ensure hensure
  | noUser hlogin =>
    rw [hlogin] at hoperation
    exact hoperation.elim

theorem Updates.inMemory {operation : SessionOperation} (h : Updates operation) : InMemory operation := by
  cases operation <;> trivial

theorem sessionPerformAll_updates {operations : List SessionOperation}
    (hoperations : ∀ operation ∈ operations, Updates operation)
    (h : Updating environment request change history context) :
    Keeps (fun _ _ => True) (fun later result =>
      Updating environment request (fun contents => sessionEffects operations result.1 (change contents))
        later result.2) history (sessionPerformAll environment operations context) := by
  induction operations generalizing change history context with
  | nil => exact h
  | cons operation operations ih =>
    have hoperation := hoperations operation List.mem_cons_self
    apply (sessionPerform_memory (fun _ _ _ => trivial) history hoperation.inMemory).bind
    intro later first hfirst
    obtain ⟨events, rfl, hresult⟩ := hfirst
    have hrest := ih (fun operation hmem => hoperations operation (List.mem_cons_of_mem _ hmem))
      (h.memory hoperation hresult)
    apply hrest.bind
    intro last rest hlast
    exact hlast

theorem sessionPerformAll_append (first second : List SessionOperation) (context : Context) :
    sessionPerformAll environment (first ++ second) context =
      (sessionPerformAll environment first context).bind fun before =>
        (sessionPerformAll environment second before.2).bind fun after =>
          .done (before.1 ++ after.1, after.2) := by
  induction first generalizing context with
  | nil =>
    change sessionPerformAll environment second context =
      (sessionPerformAll environment second context).bind fun after => .done after
    generalize sessionPerformAll environment second context = d
    induction d with
    | done result => rfl
    | call c next ih =>
      rw [call_bind]
      congr 1
      funext answer
      exact ih answer
  | cons operation first ih =>
    rw [List.cons_append, sessionPerformAll, sessionPerformAll, bind_assoc]
    congr 1
    funext answered
    rw [ih, bind_assoc, bind_assoc]
    congr 1
    funext before
    rw [bind_assoc]
    rfl

def CommittedUpdate (environment : Environment) (request : RequestParse.Request)
    (operations : List SessionOperation) (events : List SessionEvent) (outcome : Outcomes) : Prop :=
  ∃ answers ok working before after, outcome.1 = answers ++ [.done ok] ∧ events = before ++ after ∧
    Updating environment request (sessionEffects operations answers) before working ∧
    CommitResult environment working after (ok, outcome.2)

theorem sessionPerformAll_commit {operations : List SessionOperation}
    (hoperations : ∀ operation ∈ operations, Updates operation) :
    Keeps (fun _ _ => True) (CommittedUpdate environment request operations) []
      (sessionPerformAll environment (operations ++ [.commit]) { request := request }) := by
  rw [sessionPerformAll_append]
  apply (sessionPerformAll_updates hoperations (.fresh rfl)).bind
  intro before updated hupdated
  change Keeps _ _ before (((answered .done (sessionCommit environment updated.2)).bind
    fun first => .done ([first.1], first.2)).bind fun after => .done (updated.1 ++ after.1, after.2))
  rw [answered, bind_assoc, bind_assoc]
  apply (sessionCommit_keeps (fun _ _ _ => trivial) before fun _ _ _ _ _ _ _ _ _ _ => trivial).bind
  intro later result hlater
  obtain ⟨after, rfl, hcommit⟩ := hlater
  exact ⟨updated.1, result.1, updated.2, before, after, rfl, rfl, hupdated, hcommit⟩

/-- The events of a request that has found the session under a digest and has committed: its
    changes are stored at the end, unless they change nothing. -/
inductive UpdateEvents (digest : Bytes) (change : SessionContents → SessionContents) :
    List SessionEvent → Prop where
  | unchanged {row : SessionRow} {now : ℤ} {contents : SessionContents}
    (hloaded : Decodes row.data contents) (hsame : change contents = contents) :
    UpdateEvents digest change [⟨.select digest, some (some row)⟩, ⟨.time, now⟩]
  | stored {row : SessionRow} {now later expiresAt : ℤ} {data : Bytes} {contents : SessionContents}
    (hloaded : Decodes row.data contents) (hdata : Decodes data (change contents)) :
    UpdateEvents digest change [⟨.select digest, some (some row)⟩, ⟨.time, now⟩, ⟨.time, later⟩,
      ⟨.replace digest data later expiresAt, true⟩]

theorem LoadResult.found_inv {token digest : Bytes} {events : List SessionEvent} {ok : Bool}
    {loaded : Context} (h : LoadResult environment { request := request } token events (ok, loaded))
    (htoken : loaded.session.token ≠ []) (hdigest : sessionDigest environment token = some digest) :
    loaded.session.token = token ∧ ∃ row now, events = [⟨.select digest, some (some row)⟩, ⟨.time, now⟩] ∧
      Decodes row.data loaded.session.values.contents := by
  cases h with
  | @found other row now values hother _ hvalues =>
    cases hdigest.symm.trans hother
    exact ⟨rfl, row, now, rfl, values, hvalues, rfl⟩
  | _ => exact absurd rfl htoken

theorem Updating.flags (h : Updating environment request change history context) :
    context.session.regenerate = false ∧ context.session.destroy = false := by
  cases h with
  | fresh => exact ⟨rfl, rfl⟩
  | loaded hload => exact ⟨hload.flags.2.2.2.1, hload.flags.2.2.2.2⟩

/-- A commit that neither renews nor ends a session keeps its token, or issues one. -/
theorem CommitResult.kept {events : List SessionEvent} {token digest : Bytes} {final : Context}
    (h : CommitResult environment context events (true, final))
    (hregenerate : context.session.regenerate = false) (hfinal : final.session.token = token)
    (hdigest : sessionDigest environment token = some digest)
    (hfresh : (⟨.randomToken, some token⟩ : SessionEvent) ∉ events) :
    context.session.token = token ∧
      (events = [] ∧ (context.session.loaded = false ∨ context.session.dirty = false ∨
          context.session.destroy = true) ∨
        ∃ later data expiresAt, events = [⟨.time, later⟩, ⟨.replace digest data later expiresAt, true⟩] ∧
          sessionSerialize context.session.values = some data) := by
  cases h with
  | idle hidle => exact ⟨hfinal, .inl ⟨rfl, hidle⟩⟩
  | @ended removal generation storing generated result hdirty hdestroy hremoval hgeneration hstore =>
    cases hremoval with
    | removed htrue =>
      rw [hregenerate] at htrue
      cases htrue
    | kept =>
      cases hstore with
      | stored hdata hother _ now =>
        have hgenerated : generated.session.token = token := hfinal
        rw [hgenerated, hdigest] at hother
        cases hother
        cases hgeneration with
        | kept => exact ⟨hgenerated, .inr ⟨_, _, _, rfl, hdata⟩⟩
        | issued issued =>
          obtain rfl : issued = token := hgenerated
          exact absurd List.mem_cons_self hfresh

theorem CommittedUpdate.events {token digest : Bytes} {operations : List SessionOperation}
    {events : List SessionEvent} {answers : List SessionAnswer} {final : Context}
    (h : CommittedUpdate environment request operations events (answers ++ [.done true], final))
    (hsent : presentedToken environment request = token)
    (hdigest : sessionDigest environment token = some digest) (hfinal : final.session.token = token)
    (hfresh : (⟨.randomToken, some token⟩ : SessionEvent) ∉ events) :
    UpdateEvents digest (sessionEffects operations answers) events := by
  obtain ⟨answers', ok, working, before, after, hanswers, rfl, hworking, hcommit⟩ := h
  obtain ⟨rfl, hok⟩ := List.append_inj' hanswers rfl
  obtain rfl : true = ok := by simpa using hok
  obtain ⟨hregenerate, hdestroy⟩ := hworking.flags
  obtain ⟨htoken, hafter⟩ := hcommit.kept hregenerate hfinal hdigest
    fun hmem => hfresh (List.mem_append_right _ hmem)
  have hnonempty : token ≠ [] := token_ne_nil hdigest
  cases hworking with
  | fresh => exact absurd htoken.symm hnonempty
  | @loaded _ result values dirty hload hvalues hclean =>
    obtain ⟨ok, loaded⟩ := result
    rw [hsent] at hload
    have hloadedToken : loaded.session.token = token := htoken
    obtain ⟨-, row, now, rfl, hrow⟩ := hload.found_inv (by rw [hloadedToken]; exact hnonempty) hdigest
    rcases hafter with ⟨rfl, hidle⟩ | ⟨later, data, expiresAt, rfl, hdata⟩
    · have hdirty : dirty = false := by
        rcases hidle with hnot | hdirty | hended
        · exact absurd (hload.loaded.symm.trans hnot) (by simp)
        · exact hdirty
        · exact absurd (hdestroy.symm.trans hended) (by simp)
      exact .unchanged hrow (hclean hdirty)
    · have hstored := sessionSerialize_decodes hdata
      rw [show ({ loaded.session with values := values, dirty := dirty } : Session).values.contents = _
        from hvalues] at hstored
      exact .stored hrow hstored

def rowAfterEvent (digest : Bytes) (row : Option SessionRow) : SessionEvent → Option SessionRow
  | ⟨.delete deleted, true⟩ => if deleted = digest then none else row
  | ⟨.replace stored data now expiresAt, true⟩ =>
    if stored = digest then
      some ⟨data, (row.map SessionRow.createdAt).getD now, now, expiresAt⟩
    else row
  | _ => row

def rowAfter (digest : Bytes) (row : Option SessionRow) (events : List SessionEvent) :
    Option SessionRow :=
  events.foldl (rowAfterEvent digest) row

variable {digest : Bytes}

theorem rowAfter_append (row : Option SessionRow) (first second : List SessionEvent) :
    rowAfter digest row (first ++ second) = rowAfter digest (rowAfter digest row first) second :=
  List.foldl_append

theorem sessionAnswers_row {world next : SessionWorld} {c : SessionCall} {answer : SessionReply c}
    (h : SessionAnswers world c answer next) :
    next.table digest = rowAfterEvent digest (world.table digest) ⟨c, answer⟩ := by
  cases h with
  | delete deleted =>
    by_cases hsame : deleted = digest
    · subst hsame
      simp [rowAfterEvent, tableDelete]
    · simp [rowAfterEvent, tableDelete, hsame, Ne.symm hsame]
  | replace stored data now expiresAt =>
    by_cases hsame : stored = digest
    · subst hsame
      simp [rowAfterEvent, tableReplace]
    · simp [rowAfterEvent, tableReplace, hsame, Ne.symm hsame]
  | _ => rfl

theorem sessionAnswers_select {world next : SessionWorld} {found : Option SessionRow}
    (h : SessionAnswers world (.select digest) (some found) next) : found = world.table digest := by
  generalize hanswer : (some found : SessionReply (.select digest)) = answer at h
  cases h with
  | select => exact Option.some.inj hanswer
  | selectFailed => cases hanswer

section Runs

variable {ι : Type*} {start world : SessionWorld} {trace : List (ι × SessionEvent)}

theorem accepted_row (h : Accepted AnyAnswer start trace world) :
    world.table digest = rowAfter digest (start.table digest) (trace.map Prod.snd) := by
  induction h with
  | nil => rfl
  | snoc _ hanswer ih =>
    rw [sessionAnswers_row hanswer, ih, List.map_append, rowAfter_append]
    rfl

theorem accepted_select {before after : List (ι × SessionEvent)} {i : ι} {found : Option SessionRow}
    (h : Accepted AnyAnswer start (before ++ (i, ⟨.select digest, some found⟩) :: after)
      world) :
    found = rowAfter digest (start.table digest) (before.map Prod.snd) := by
  obtain ⟨middle, next, hbefore, hselect, -⟩ := h.split
  rw [← accepted_row hbefore]
  exact sessionAnswers_select hselect

end Runs

def Stores (digest : Bytes) (event : SessionEvent) : Prop :=
  ∃ data now expiresAt, event = ⟨.replace digest data now expiresAt, true⟩

/-- An event that neither stores under the digest nor touches its row. -/
def Quiet (digest : Bytes) (event : SessionEvent) : Prop :=
  ¬ Stores digest event ∧ ∀ row, rowAfterEvent digest row event = row

theorem quiet_select (selected : Bytes) (answer : Option (Option SessionRow)) :
    Quiet digest ⟨.select selected, answer⟩ := by
  refine ⟨?_, fun _ => rfl⟩
  rintro ⟨_, _, _, h⟩
  cases h

theorem quiet_time (now : ℤ) : Quiet digest ⟨.time, now⟩ := by
  refine ⟨?_, fun _ => rfl⟩
  rintro ⟨_, _, _, h⟩
  cases h

theorem rowAfter_quiet {events : List SessionEvent} (h : ∀ event ∈ events, Quiet digest event)
    (row : Option SessionRow) : rowAfter digest row events = row := by
  induction events with
  | nil => rfl
  | cons event events ih =>
    rw [rowAfter, List.foldl_cons, (h event List.mem_cons_self).2]
    exact ih fun other hother => h other (List.mem_cons_of_mem _ hother)

/-- The events of a request up to some point: nothing has been stored yet, or they are all. -/
theorem UpdateEvents.split {first second : List SessionEvent}
    (h : UpdateEvents digest change (first ++ second)) :
    (∀ event ∈ first, Quiet digest event) ∨
      second = [] ∧ ∃ before data now expiresAt, (∀ event ∈ before, Quiet digest event) ∧
        first = before ++ [⟨.replace digest data now expiresAt, true⟩] := by
  generalize hevents : first ++ second = events at h
  cases h with
  | @unchanged row now =>
    left
    intro event hevent
    have hmem := List.mem_append_left second hevent
    rw [hevents] at hmem
    rcases List.mem_cons.mp hmem with rfl | hmem
    · exact quiet_select _ _
    · rw [List.mem_singleton.mp hmem]
      exact quiet_time _
  | @stored row now later expiresAt data =>
    have hquiet : ∀ event ∈ ([⟨.select digest, some (some row)⟩, ⟨.time, now⟩, ⟨.time, later⟩] :
        List SessionEvent), Quiet digest event := by
      intro event hmem
      rcases List.mem_cons.mp hmem with rfl | hmem
      · exact quiet_select _ _
      · rcases List.mem_cons.mp hmem with rfl | hmem
        · exact quiet_time _
        · rw [List.mem_singleton.mp hmem]
          exact quiet_time _
    rcases List.eq_nil_or_concat' second with rfl | ⟨rest, last, rfl⟩
    · rw [List.append_nil] at hevents
      exact .inr ⟨rfl, _, data, later, expiresAt, hquiet, hevents⟩
    · left
      rw [← List.append_assoc] at hevents
      change _ = [⟨.select digest, some (some row)⟩, ⟨.time, now⟩, ⟨.time, later⟩] ++
        [(⟨.replace digest data later expiresAt, true⟩ : SessionEvent)] at hevents
      obtain ⟨hfront, -⟩ := List.append_inj' hevents rfl
      intro event hevent
      exact hquiet event (hfront ▸ List.mem_append_left rest hevent)

/-- What a request stores, it stores at the end: its changes, applied to what it loaded. -/
theorem UpdateEvents.stored_inv {before after : List SessionEvent} {data : Bytes} {now expiresAt : ℤ}
    (h : UpdateEvents digest change (before ++ ⟨.replace digest data now expiresAt, true⟩ :: after)) :
    after = [] ∧ ∃ row rest contents, before = ⟨.select digest, some (some row)⟩ :: rest ∧
      Decodes row.data contents ∧ Decodes data (change contents) := by
  generalize hevents : before ++ ⟨.replace digest data now expiresAt, true⟩ :: after = events at h
  cases h with
  | unchanged => rcases before with _ | ⟨_, _ | ⟨_, rest⟩⟩ <;> simp at hevents
  | @stored row loadedAt later _ _ contents hloaded hdata =>
    rcases before with _ | ⟨_, _ | ⟨_, _ | ⟨_, _ | ⟨_, rest⟩⟩⟩⟩ <;> simp at hevents
    obtain ⟨rfl, rfl, rfl, ⟨rfl, rfl, rfl⟩, rfl⟩ := hevents
    exact ⟨rfl, row, _, contents, rfl, hloaded, hdata⟩

/-- Of a trace without events of one request, all events are the other's. -/
theorem own_other {i : Bool} {trace : List (Bool × SessionEvent)} (h : own i trace = []) :
    trace.map Prod.snd = own (!i) trace := by
  induction trace with
  | nil => rfl
  | cons entry trace ih =>
    obtain ⟨j, event⟩ := entry
    by_cases hij : j = i
    · subst hij
      rw [own_cons_self] at h
      cases h
    · obtain rfl : j = !i := by
        cases i <;> cases j <;> simp at hij ⊢
      rw [own_cons_of_ne hij] at h
      rw [List.map_cons, own_cons_self, ih h]

/-- A request has stored before another makes its first call. -/
def StoredBefore (digest : Bytes) (first second : Bool) (trace : List (Bool × SessionEvent)) : Prop :=
  ∃ before after, trace = before ++ after ∧ (∃ event ∈ own first before, Stores digest event) ∧
    own second before = []

def StoresLast (digest : Bytes) (i : Bool) (trace : List (Bool × SessionEvent)) : Prop :=
  ∃ before event after, trace = before ++ (i, event) :: after ∧ Stores digest event ∧
    ∀ later ∈ own (!i) after, ¬ Stores digest later

variable {start world : SessionWorld} {trace : List (Bool × SessionEvent)}
  {changes : Bool → SessionContents → SessionContents} {row : SessionRow} {contents : SessionContents}

theorem loaded_original {i : Bool} {before after : List (Bool × SessionEvent)} {found : SessionRow}
    (haccepted : Accepted AnyAnswer start
      (before ++ (i, ⟨.select digest, some (some found)⟩) :: after) world)
    (hrow : start.table digest = some row) (hmine : own i before = [])
    (hquiet : ∀ event ∈ own (!i) before, Quiet digest event) : found = row := by
  have hselect := accepted_select haccepted
  rw [own_other hmine, rowAfter_quiet hquiet, hrow] at hselect
  exact Option.some.inj hselect

theorem UpdateEvents.quiet_of_not_stores {events : List SessionEvent}
    (h : UpdateEvents digest change events) {event : SessionEvent} (hmem : event ∈ events)
    (hnot : ¬ Stores digest event) : Quiet digest event := by
  rw [← List.append_nil events] at h
  rcases h.split with hquiet | ⟨-, before, data, now, expiresAt, hquiet, rfl⟩
  · exact hquiet event hmem
  · rcases List.mem_append.mp hmem with hbefore | hlast
    · exact hquiet event hbefore
    · exact absurd ⟨data, now, expiresAt, List.mem_singleton.mp hlast⟩ hnot

/-- What a request loads: the original values, or those that the other has stored before. -/
theorem loaded_cases {i : Bool} {before after : List (Bool × SessionEvent)} {found : SessionRow}
    {loaded : SessionContents}
    (haccepted : Accepted AnyAnswer start
      (before ++ (i, ⟨.select digest, some (some found)⟩) :: after) world)
    (hother : UpdateEvents digest (changes (!i))
      (own (!i) (before ++ (i, ⟨.select digest, some (some found)⟩) :: after)))
    (hrow : start.table digest = some row) (hcontents : Decodes row.data contents)
    (hmine : own i before = []) (hloaded : Decodes found.data loaded) :
    ((∀ event ∈ own (!i) before, Quiet digest event) ∧ loaded = contents) ∨
      (∃ event ∈ own (!i) before, Stores digest event) ∧ loaded = changes (!i) contents := by
  rw [own_append] at hother
  rcases hother.split with hquiet | ⟨hnil, front, data, now, expiresAt, hfront, hbefore⟩
  · left
    obtain rfl := loaded_original haccepted hrow hmine hquiet
    exact ⟨hquiet, decodes_unique hloaded hcontents⟩
  · right
    rw [hnil, List.append_nil, hbefore] at hother
    obtain ⟨-, original, rest, contents', hselect, hdecodes, hdata⟩ := hother.stored_inv
    have hfound := accepted_select haccepted
    rw [own_other hmine, hbefore, rowAfter_append, rowAfter_quiet hfront] at hfound
    refine ⟨⟨_, hbefore ▸ List.mem_append_right _ List.mem_cons_self, data, now, expiresAt, rfl⟩, ?_⟩
    rw [hselect, List.cons_append] at hbefore
    obtain ⟨earlier, between, rfl, hnone, -⟩ := own_eq_cons hbefore
    rw [own_append] at hmine
    have hsilent : own i earlier = [] := (List.append_eq_nil_iff.mp hmine).1
    rw [List.append_assoc, List.cons_append] at haccepted
    obtain rfl := loaded_original haccepted hrow hnone (by simp [hsilent])
    rw [decodes_unique hdecodes hcontents] at hdata
    have hsame : found.data = data := by
      have := congrArg (Option.map SessionRow.data) hfound
      simpa [rowAfter, rowAfterEvent] using this
    rw [hsame] at hloaded
    exact decodes_unique hloaded hdata

theorem storesLast_row {i : Bool} (haccepted : Accepted AnyAnswer start trace world)
    (hevents : ∀ i, UpdateEvents digest (changes i) (own i trace))
    (hrow : start.table digest = some row) (hcontents : Decodes row.data contents)
    (hlast : StoresLast digest i trace) :
    ∃ last, world.table digest = some last ∧
      (StoredBefore digest (!i) i trace → Decodes last.data (changes i (changes (!i) contents))) ∧
      (¬ StoredBefore digest (!i) i trace → Decodes last.data (changes i contents)) := by
  obtain ⟨before, event, after, rfl, ⟨data, now, expiresAt, rfl⟩, hafter⟩ := hlast
  have hmine := hevents i
  have hother := hevents !i
  rw [own_append, own_cons_self] at hmine
  obtain ⟨hend, found, rest, loaded, hbefore, hloaded, hdata⟩ := hmine.stored_inv
  have hquiet : ∀ later ∈ own (!i) after, Quiet digest later := by
    intro later hmem
    refine hother.quiet_of_not_stores ?_ (hafter later hmem)
    rw [own_append, own_cons_of_ne (by simp)]
    exact List.mem_append_right _ hmem
  have hfinal : ∃ last, world.table digest = some last ∧ last.data = data := by
    have htable : world.table digest = _ := accepted_row haccepted
    rw [List.map_append, List.map_cons, own_other hend, rowAfter_append] at htable
    change _ = rowAfter digest (rowAfterEvent digest _ _) _ at htable
    rw [rowAfter_quiet hquiet] at htable
    simp only [rowAfterEvent, if_pos] at htable
    exact ⟨_, htable, rfl⟩
  obtain ⟨last, htable, rfl⟩ := hfinal
  refine ⟨last, htable, ?_⟩
  obtain ⟨earlier, between, rfl, hnone, -⟩ := own_eq_cons hbefore
  rw [List.append_assoc, List.cons_append] at haccepted hother ⊢
  rcases loaded_cases haccepted hother hrow hcontents hnone hloaded with
    ⟨hnotStored, rfl⟩ | ⟨hstored, rfl⟩
  · refine ⟨?_, fun _ => hdata⟩
    intro hbefore
    obtain ⟨first, second, htrace, ⟨stored, hmem, hstores⟩, hfirst⟩ := hbefore
    -- the part without events of the request ends before its first call
    rcases List.append_eq_append_iff.mp htrace with ⟨middle, rfl, hmiddle⟩ | ⟨middle, rfl, -⟩
    · rcases List.cons_eq_append_iff.mp hmiddle with ⟨rfl, -⟩ | ⟨tail, rfl, -⟩
      · rw [List.append_nil] at hmem
        exact absurd hstores (hnotStored stored hmem).1
      · rw [own_append, own_cons_self] at hfirst
        simp at hfirst
    · refine absurd hstores (hnotStored stored ?_).1
      rw [own_append]
      exact List.mem_append_left _ hmem
  · exact ⟨fun _ => hdata, fun hnot => absurd ⟨earlier, _, rfl, hstored, hnone⟩ hnot⟩

/-- In a run either nobody stores, or some request does so last. -/
theorem stores_last (digest : Bytes) (trace : List (Bool × SessionEvent)) :
    (∀ i, ∀ event ∈ own i trace, ¬ Stores digest event) ∨ ∃ i, StoresLast digest i trace := by
  induction trace using List.reverseRecOn with
  | nil => exact .inl fun i event hmem => absurd hmem List.not_mem_nil
  | append_singleton trace entry ih =>
    obtain ⟨j, event⟩ := entry
    by_cases hstores : Stores digest event
    · right
      exact ⟨j, trace, event, [], rfl, hstores, fun later hmem => absurd hmem List.not_mem_nil⟩
    rcases ih with hnone | ⟨i, before, stored, after, rfl, hstored, hafter⟩
    · left
      intro i other hother
      rw [own_append] at hother
      rcases List.mem_append.mp hother with hbefore | hlast
      · exact hnone i other hbefore
      · cases List.mem_singleton.mp (mem_own.mp hlast)
        exact hstores
    · right
      refine ⟨i, before, stored, after ++ [(j, event)], by simp, hstored, ?_⟩
      intro later hlater
      rw [own_append] at hlater
      rcases List.mem_append.mp hlater with hbefore | hlast
      · exact hafter later hbefore
      · cases List.mem_singleton.mp (mem_own.mp hlast)
        exact hstores

theorem UpdateEvents.loads {events : List SessionEvent} (h : UpdateEvents digest change events) :
    ∃ row rest contents, events = ⟨.select digest, some (some row)⟩ :: rest ∧ Decodes row.data contents ∧
      ((∀ event ∈ events, ¬ Stores digest event) → change contents = contents) := by
  cases h with
  | unchanged hloaded hsame => exact ⟨_, _, _, rfl, hloaded, fun _ => hsame⟩
  | @stored row now later expiresAt data contents hloaded =>
    refine ⟨_, _, _, rfl, hloaded, fun hnone => ?_⟩
    exact absurd ⟨data, later, expiresAt, rfl⟩ (hnone ⟨.replace digest data later expiresAt, true⟩ (by simp))

/-- Where nobody stores, the row stays as it was, and no request has changed anything. -/
theorem noStores_row (haccepted : Accepted AnyAnswer start trace world)
    (hevents : ∀ i, UpdateEvents digest (changes i) (own i trace))
    (hrow : start.table digest = some row) (hcontents : Decodes row.data contents)
    (hnone : ∀ i, ∀ event ∈ own i trace, ¬ Stores digest event) :
    world.table digest = some row ∧ ∀ i, changes i contents = contents := by
  have hquiet : ∀ i, ∀ event ∈ own i trace, Quiet digest event := fun i event hmem =>
    (hevents i).quiet_of_not_stores hmem (hnone i event hmem)
  constructor
  · rw [accepted_row haccepted, hrow]
    apply rowAfter_quiet
    intro event hmem
    obtain ⟨⟨i, other⟩, hentry, rfl⟩ := List.mem_map.mp hmem
    exact hquiet i other (mem_own.mpr hentry)
  · intro i
    obtain ⟨found, rest, loaded, htrace, hloaded, hsame⟩ := (hevents i).loads
    obtain ⟨before, after, rfl, hbefore, -⟩ := own_eq_cons htrace
    have hother : ∀ event ∈ own (!i) before, Quiet digest event := by
      intro event hmem
      apply hquiet (!i) event
      rw [own_append]
      exact List.mem_append_left _ hmem
    obtain rfl := loaded_original haccepted hrow hbefore hother
    obtain rfl := decodes_unique hloaded hcontents
    exact hsame (hnone i)

theorem accepted_fresh {ι : Type*} {trace : List (ι × SessionEvent)} {token : Bytes}
    (h : Accepted AnyAnswer start trace world) (hissued : token ∈ start.issued) :
    token ∈ world.issued ∧ ∀ i, (i, (⟨.randomToken, some token⟩ : SessionEvent)) ∉ trace := by
  induction h with
  | nil => exact ⟨hissued, fun i => List.not_mem_nil⟩
  | @snoc trace world next i event _ hanswer ih =>
    obtain ⟨hissued, hfresh⟩ := ih
    refine ⟨SessionAnswers.issued_mono hanswer hissued, ?_⟩
    intro j hmem
    rcases List.mem_append.mp hmem with hbefore | hlast
    · exact hfresh j hbefore
    · cases List.mem_singleton.mp hlast
      exact SessionAnswers.not_issued hanswer hissued

section Requests

variable {requests : Bool → RequestParse.Request} {operations : Bool → List SessionOperation}
  {token : Bytes} {start pool : SessionPool Bool} {answers : Bool → List SessionAnswer}
  {finals : Bool → Context}

theorem run_updateEvents (hupdates : ∀ i, ∀ operation ∈ operations i, Updates operation)
    (hsent : ∀ i, presentedToken environment (requests i) = token)
    (hdigest : sessionDigest environment token = some digest)
    (hfresh : Fresh environment requests (fun i => operations i ++ [.commit]) start)
    (hissued : token ∈ start.world.issued) (hrun : Run AnyAnswer start trace pool)
    (hdone : ∀ i, pool.parties i = .done (answers i ++ [.done true], finals i))
    (hfinal : ∀ i, (finals i).session.token = token) (i : Bool) :
    UpdateEvents digest (sessionEffects (operations i) (answers i)) (own i trace) := by
  have hkeeps := hrun.keeps (i := i) (by
    rw [hfresh i]
    exact sessionPerformAll_commit (hupdates i))
  rw [hdone i] at hkeeps
  have hcommitted : CommittedUpdate environment (requests i) (operations i) (own i trace)
      (answers i ++ [.done true], finals i) := hkeeps
  exact hcommitted.events (hsent i) hdigest (hfinal i) fun hmem =>
    (accepted_fresh hrun.accepted hissued).2 i (mem_own.mp hmem)

/-- What two requests leave of a session that both have loaded, changed and committed, in
    any interleaving: the changes of the one that stores last, applied to what it loaded.
    The other's are among them if it had stored before. -/
theorem updates_row (hupdates : ∀ i, ∀ operation ∈ operations i, Updates operation)
    (hsent : ∀ i, presentedToken environment (requests i) = token)
    (hdigest : sessionDigest environment token = some digest)
    (hfresh : Fresh environment requests (fun i => operations i ++ [.commit]) start)
    (hissued : token ∈ start.world.issued) (hrow : start.world.table digest = some row)
    (hcontents : Decodes row.data contents) (hrun : Run AnyAnswer start trace pool)
    (hdone : ∀ i, pool.parties i = .done (answers i ++ [.done true], finals i))
    (hfinal : ∀ i, (finals i).session.token = token) :
    ((∀ i, ∀ event ∈ own i trace, ¬ Stores digest event) ∧ pool.world.table digest = some row ∧
        ∀ i, sessionEffects (operations i) (answers i) contents = contents) ∨
      ∃ i last, StoresLast digest i trace ∧ pool.world.table digest = some last ∧
        (StoredBefore digest (!i) i trace → Decodes last.data (sessionEffects (operations i) (answers i)
          (sessionEffects (operations !i) (answers !i) contents))) ∧
        (¬ StoredBefore digest (!i) i trace →
          Decodes last.data (sessionEffects (operations i) (answers i) contents)) := by
  have hevents := run_updateEvents hupdates hsent hdigest hfresh hissued hrun hdone hfinal
  rcases stores_last digest trace with hnone | ⟨i, hlast⟩
  · exact .inl ⟨hnone, noStores_row hrun.accepted hevents hrow hcontents hnone⟩
  · obtain ⟨last, htable, hlastRow⟩ := storesLast_row hrun.accepted hevents hrow hcontents hlast
    exact .inr ⟨i, last, hlast, htable, hlastRow⟩

end Requests

def sampleKey : Bool → Bytes
  | false => sv "a"
  | true => sv "b"

def sampleUpdates (i : Bool) : List SessionOperation := [.setBool (sampleKey i) true]

/-- Both requests load before either stores. -/
def lostUpdate : List (Bool × SessionEvent) :=
  [(false, ⟨.select sampleToken, some (some sampleRow)⟩), (false, ⟨.time, (1 : ℤ)⟩),
    (true, ⟨.select sampleToken, some (some sampleRow)⟩), (true, ⟨.time, (1 : ℤ)⟩),
    (false, ⟨.time, (2 : ℤ)⟩),
    (false, ⟨.replace sampleToken ([1, 0, 1, 0, 1] ++ sampleKey false ++ [3, 1]) 2 62, true⟩),
    (true, ⟨.time, (3 : ℤ)⟩),
    (true, ⟨.replace sampleToken ([1, 0, 1, 0, 1] ++ sampleKey true ++ [3, 1]) 3 63, true⟩)]

theorem sample_contents : Decodes sampleRow.data fun _ => none :=
  ⟨.empty, rfl, rfl⟩

theorem lostUpdate_run : ∃ (finals : Bool → Context) (pool : SessionPool Bool),
    Run AnyAnswer (sampleStart fun i => sampleUpdates i ++ [.commit]) lostUpdate pool ∧
      (∀ i, pool.parties i = .done ([.done true] ++ [.done true], finals i)) ∧
      (∀ i, (finals i).session.token = sampleToken) ∧
      pool.world.table sampleToken = some ⟨[1, 0, 1, 0, 1, 98, 3, 1], 0, 3, 63⟩ := by
  obtain ⟨first, hfirst, hfirstToken⟩ := sample_setBool (sampleKey false) (.inl rfl) 2
  obtain ⟨second, hsecond, hsecondToken⟩ := sample_setBool (sampleKey true) (.inr rfl) 3
  have hleads : ∀ i, Leads ((sampleStart fun i => sampleUpdates i ++ [.commit]).parties i)
      (own i lostUpdate) (.done ([.done true] ++ [.done true], cond i second first)) := by
    intro i
    cases i with
    | false => exact hfirst
    | true => exact hsecond
  have haccepted : Accepted AnyAnswer sampleWorld lostUpdate _ :=
    (((((((Accepted.nil.cons (.replace sampleToken _ 3 63)).cons (.time 3)).cons
      (.replace sampleToken _ 2 62)).cons (.time 2)).cons (.time 1)).cons sample_select).cons
        (.time 1)).cons sample_select
  refine ⟨_, _, run_of_leads hleads haccepted, fun i => rfl, ?_, ?_⟩
  · intro i
    cases i with
    | false => exact hfirstToken
    | true => exact hsecondToken
  · dsimp only
    rw [tableReplace, Function.update_self, tableReplace, Function.update_self, sample_table]
    rfl

theorem sampleUpdates_update (i : Bool) : ∀ operation ∈ sampleUpdates i, Updates operation := by
  intro operation hmem
  rw [List.mem_singleton.mp hmem]
  trivial

theorem updates_row_lostUpdate : ∃ pool : SessionPool Bool,
    Run AnyAnswer (sampleStart fun i => sampleUpdates i ++ [.commit]) lostUpdate pool ∧
      ((∀ i, ∀ event ∈ own i lostUpdate, ¬ Stores sampleToken event) ∧
          pool.world.table sampleToken = some sampleRow ∧
          (∀ i, sessionEffects (sampleUpdates i) [.done true] (fun _ => none) = fun _ => none) ∨
        ∃ i last, StoresLast sampleToken i lostUpdate ∧ pool.world.table sampleToken = some last ∧
          (StoredBefore sampleToken (!i) i lostUpdate →
            Decodes last.data (sessionEffects (sampleUpdates i) [.done true]
              (sessionEffects (sampleUpdates !i) [.done true] fun _ => none))) ∧
          (¬ StoredBefore sampleToken (!i) i lostUpdate →
            Decodes last.data (sessionEffects (sampleUpdates i) [.done true] fun _ => none))) := by
  obtain ⟨finals, pool, hrun, hdone, hfinal, -⟩ := lostUpdate_run
  exact ⟨pool, hrun, updates_row sampleUpdates_update (fun _ => sample_sent) sample_digest (fun _ => rfl)
    List.mem_cons_self sample_table sample_contents hrun hdone hfinal⟩

def changedKey : SessionOperation → Option Bytes
  | .setString key _ | .setInt64 key _ | .setBool key _ | .delete key => some key
  | _ => none

/-- The row need not hold what both requests have set, though they set different keys. -/
theorem updates_lost :
    ¬ ∀ (environment : Environment) (requests : Bool → RequestParse.Request)
      (operations : Bool → List SessionOperation) (token digest : Bytes) (row : SessionRow)
      (contents : SessionContents) (start pool : SessionPool Bool)
      (trace : List (Bool × SessionEvent)) (answers : Bool → List SessionAnswer)
      (finals : Bool → Context),
      (∀ i, ∀ operation ∈ operations i, Updates operation) →
      (∀ first ∈ operations false, ∀ second ∈ operations true, ∀ key,
        changedKey first = some key → changedKey second ≠ some key) →
      (∀ i, presentedToken environment (requests i) = token) →
      sessionDigest environment token = some digest →
      Fresh environment requests (fun i => operations i ++ [.commit]) start →
      token ∈ start.world.issued → start.world.table digest = some row → Decodes row.data contents →
      Run AnyAnswer start trace pool →
      (∀ i, pool.parties i = .done (answers i ++ [.done true], finals i)) →
      (∀ i, (finals i).session.token = token) →
      ∃ last, pool.world.table digest = some last ∧
        Decodes last.data (sessionEffects (operations true) (answers true)
          (sessionEffects (operations false) (answers false) contents)) := by
  intro hclaim
  obtain ⟨finals, pool, hrun, hdone, hfinal, htable⟩ := lostUpdate_run
  obtain ⟨last, hlast, values, hvalues, hcontents⟩ := hclaim sampleEnvironment (fun _ => sampleRequest)
    sampleUpdates sampleToken sampleToken sampleRow (fun _ => none) _ pool _ _ finals
    sampleUpdates_update (by decide) (fun _ => sample_sent) sample_digest (fun _ => rfl)
    List.mem_cons_self sample_table sample_contents hrun hdone hfinal
  rw [htable] at hlast
  cases hlast
  have hlost : (sessionDeserialize .empty [1, 0, 1, 0, 1, 98, 3, 1]).2.contents (sv "a") = none := by
    decide
  have hkept := congrFun hcontents (sv "a")
  rw [hvalues] at hlost
  rw [hlost] at hkept
  cases hkept

end Ceasy.Sessions
