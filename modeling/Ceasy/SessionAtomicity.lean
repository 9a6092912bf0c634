import Ceasy.SessionRevocation

set_option autoImplicit false

/-!
# Commits that fail

A commit deletes the row of a token that is given up, stores the values under the
token that is used from then on, and sets the cookie last. It can fail between and
after these steps, and takes none of them back.
-/
namespace Ceasy.Sessions
open StringView Dialogue

variable {environment : Environment} {context : Context} {world next : SessionWorld}

/-- The digits of `sodium_base64_VARIANT_URLSAFE_NO_PADDING`. -/
def base64Digit (n : ℕ) : UInt8 :=
  if n < 26 then ch 'A' + UInt8.ofNat n
  else if n < 52 then ch 'a' + UInt8.ofNat (n - 26)
  else if n < 62 then ch '0' + UInt8.ofNat (n - 52)
  else if n = 62 then ch '-' else ch '_'

/-- `sodium_bin2base64`. -/
def sodiumBin2base64 : Bytes → Bytes
  | a :: b :: c :: rest =>
    base64Digit (a.toNat / 4) :: base64Digit (a.toNat % 4 * 16 + b.toNat / 16) ::
      base64Digit (b.toNat % 16 * 4 + c.toNat / 64) :: base64Digit (c.toNat % 64) ::
      sodiumBin2base64 rest
  | [a, b] =>
    [base64Digit (a.toNat / 4), base64Digit (a.toNat % 4 * 16 + b.toNat / 16),
      base64Digit (b.toNat % 16 * 4)]
  | [a] => [base64Digit (a.toNat / 4), base64Digit (a.toNat % 4 * 16)]
  | [] => []

def SESSION_TOKEN_BYTES : ℕ := 32

/-- A text that `session_generate_token` can make. -/
def TokenText (token : Bytes) : Prop :=
  ∃ bytes : Bytes, bytes.length = SESSION_TOKEN_BYTES ∧ token = sodiumBin2base64 bytes

def Generated : (c : SessionCall) → SessionReply c → Prop
  | .randomToken, some token => TokenText token
  | _, _ => True

def CommitAnswers (world : SessionWorld) (c : SessionCall) (answer : SessionReply c)
    (next : SessionWorld) : Prop :=
  SessionAnswers world c answer next ∧ Generated c answer

/-- However its calls are answered, a commit that returns false has not changed a row. -/
def AtomicCommit (environment : Environment) (context : Context) (world : SessionWorld) : Prop :=
  ∀ events final next, Leads (sessionCommit environment context) events (.done (false, final)) →
    Serves CommitAnswers world events next → next.table = world.table

def Idle (session : Session) : Prop :=
  session.loaded = false ∨ session.dirty = false ∨ session.destroy = true

def GivesUp (session : Session) : Prop := session.regenerate = true ∧ session.token ≠ []

/-- The token under which the values may be stored: the one kept, or any that can be issued. -/
def StoredUnder (world : SessionWorld) (session : Session) (token : Bytes) : Prop :=
  if session.token ≠ [] ∧ session.regenerate = false then token = session.token
  else token ∉ world.issued ∧ TokenText token

/-- The values can be stored under the token, and its cookie cannot be set. -/
def StoredUncookied (environment : Environment) (context : Context) (token : Bytes) : Prop :=
  (∃ data, sessionSerialize context.session.values = some data ∧
      data.length ≤ SESSION_MAX_BYTES) ∧
    (∃ digest, sessionDigest environment token = some digest) ∧
    (contextSetCookie context environment.sessionCookieName token
      (sessionStoreOptions environment)).1 = false

/-- No row is given up, and nothing is stored that the client is not told of. -/
structure CommitSafe (environment : Environment) (context : Context) (world : SessionWorld) :
    Prop where
  keeps : ∀ digest, GivesUp context.session →
    sessionDigest environment context.session.token = some digest → world.table digest = none
  tells : GivesUp context.session ∧ sessionDigest environment context.session.token = none ∨
    ∀ token, StoredUnder world context.session token → ¬ StoredUncookied environment context token

def sessionRenew (environment : Environment) (context : Context) :
    SessionDialogue (Bool × Context) :=
  (if decide (context.session.token.length = 0) || context.session.regenerate then
    sessionGenerateToken context
  else .done (true, context)).bind fun generated =>
    if !generated.1 then .done (false, generated.2)
    else sessionStore environment generated.2

theorem sessionCommit_idle (h : Idle context.session) :
    sessionCommit environment context = .done (true, context) := by
  unfold sessionCommit
  dsimp only
  rcases h with h | h | h
  · rw [h]
    rfl
  · rw [h, Bool.not_false, Bool.or_true, if_pos rfl]
  · rw [h, if_pos (rfl : true = true)]
    exact ite_self _

theorem pending {session : Session} (h : ¬ Idle session) :
    session.loaded = true ∧ session.dirty = true ∧ session.destroy = false := by
  unfold Idle at h
  simp only [not_or, Bool.not_eq_false, Bool.not_eq_true] at h
  exact h

theorem givesUp_iff (session : Session) :
    (session.regenerate && decide (0 < session.token.length)) = true ↔ GivesUp session := by
  rw [Bool.and_eq_true, decide_eq_true_iff, List.length_pos_iff, GivesUp]

theorem sessionCommit_kept (hpending : ¬ Idle context.session) (hkept : ¬ GivesUp context.session) :
    sessionCommit environment context = sessionRenew environment context := by
  obtain ⟨hloaded, hdirty, hdestroy⟩ := pending hpending
  unfold sessionCommit sessionRenew
  dsimp only
  rw [hloaded, hdirty, hdestroy, if_neg (by decide), if_neg (by decide),
    if_neg (mt (givesUp_iff _).mp hkept)]
  rfl

theorem sessionCommit_given_up (hpending : ¬ Idle context.session)
    (hgives : GivesUp context.session) :
    sessionCommit environment context =
      (sessionDeleteDigest environment context.session.token).bind fun deleted =>
        if !deleted then .done (false, context) else sessionRenew environment context := by
  obtain ⟨hloaded, hdirty, hdestroy⟩ := pending hpending
  unfold sessionCommit sessionRenew
  dsimp only
  rw [hloaded, hdirty, hdestroy, if_neg (by decide), if_neg (by decide),
    if_pos ((givesUp_iff _).mpr hgives)]

theorem sessionRenew_kept (htoken : context.session.token ≠ [])
    (hregenerate : context.session.regenerate = false) :
    sessionRenew environment context = sessionStore environment context := by
  have hlength : context.session.token.length ≠ 0 := fun h => htoken (List.length_eq_zero_iff.mp h)
  rw [sessionRenew, hregenerate, decide_eq_false hlength]
  rfl

theorem sessionRenew_issued (h : ¬ (context.session.token ≠ [] ∧ context.session.regenerate = false)) :
    sessionRenew environment context = .call .randomToken fun encoded =>
      match encoded with
      | none => .done (false, context)
      | some token => sessionStore environment (tokenContext context token) := by
  have hneeds : (decide (context.session.token.length = 0) || context.session.regenerate) = true := by
    rw [Bool.or_eq_true, decide_eq_true_iff, List.length_eq_zero_iff]
    by_contra hneither
    rw [not_or, Bool.not_eq_true] at hneither
    exact h hneither
  rw [sessionRenew, if_pos hneeds, sessionGenerateToken, call_bind]
  congr 1
  funext encoded
  cases encoded <;> rfl

theorem contextSetCookie_fst {first second : Context}
    (h : first.responseHeaders = second.responseHeaders) (name value : Bytes)
    (options : CookieOptions) :
    (contextSetCookie first name value options).1 =
      (contextSetCookie second name value options).1 := by
  unfold contextSetCookie contextAddHeader
  rw [h]
  split_ifs <;> rfl

theorem expiryContext_cookie (expiresAt : ℤ) (name value : Bytes) (options : CookieOptions) :
    (contextSetCookie (expiryContext context expiresAt) name value options).1 =
      (contextSetCookie context name value options).1 :=
  @contextSetCookie_fst (expiryContext context expiresAt) context rfl name value options

theorem CommitAnswers.time {now : SessionReply .time} (h : CommitAnswers world .time now next) :
    next = world := by
  obtain ⟨h, -⟩ := h
  cases h
  rfl

theorem CommitAnswers.replace_failed {digest data : Bytes} {now expiresAt : ℤ}
    (h : CommitAnswers world (.replace digest data now expiresAt) false next) : next = world := by
  obtain ⟨h, -⟩ := h
  cases h
  rfl

theorem CommitAnswers.delete {digest : Bytes} {success : Bool}
    (h : CommitAnswers world (.delete digest) success next) (hnone : world.table digest = none) :
    next.table = world.table ∧ next.issued = world.issued := by
  obtain ⟨h, -⟩ := h
  cases h with
  | delete =>
    refine ⟨?_, rfl⟩
    dsimp only
    rw [tableDelete]
    exact Function.update_eq_self_iff.mpr hnone.symm
  | deleteFailed => exact ⟨rfl, rfl⟩

theorem CommitAnswers.token {answer : SessionReply .randomToken}
    (h : CommitAnswers world .randomToken answer next) :
    next.table = world.table ∧ ∀ token, answer = some token → token ∉ world.issued ∧ TokenText token := by
  obtain ⟨h, hgenerated⟩ := h
  cases h with
  | token hfresh =>
    refine ⟨rfl, fun token htoken => ?_⟩
    cases htoken
    exact ⟨hfresh, hgenerated⟩
  | tokenFailed => exact ⟨rfl, fun token htoken => by cases htoken⟩

/-- Storing under a token leaves the rows, unless it is cookieless, when it returns false. -/
theorem sessionStore_atomic {events : List SessionEvent} {final : Context}
    (hcookie : ¬ StoredUncookied environment context context.session.token)
    (h : Leads (sessionStore environment context) events (.done (false, final)))
    (hserves : Serves CommitAnswers world events next) : next.table = world.table := by
  unfold sessionStore at h
  cases hdata : sessionSerialize context.session.values with
  | none =>
    rw [hdata] at h
    cases h
    rw [serves_nil.mp hserves]
  | some data =>
    rw [hdata] at h
    dsimp only at h
    split_ifs at h with hlong
    · cases h
      rw [serves_nil.mp hserves]
    cases hdigest : sessionDigest environment context.session.token with
    | none =>
      rw [hdigest] at h
      cases h
      rw [serves_nil.mp hserves]
    | some digest =>
      rw [hdigest] at h
      cases h with
      | @cons _ _ now _ _ h =>
        cases h with
        | @cons _ _ success _ _ h =>
          obtain ⟨middle, htime, hrest⟩ := serves_cons.mp hserves
          obtain rfl := htime.time
          obtain ⟨last, hreplace, hafter⟩ := serves_cons.mp hrest
          cases success with
          | false =>
            cases h
            rw [serves_nil.mp hafter, hreplace.replace_failed]
          | true =>
            have hset : (contextSetCookie (expiryContext context (now + environment.sessionTtlSeconds))
                environment.sessionCookieName context.session.token
                (sessionStoreOptions environment)).1 = true := by
              rw [expiryContext_cookie]
              by_contra hrefused
              rw [Bool.not_eq_true] at hrefused
              exact hcookie ⟨⟨data, hdata, Nat.le_of_not_lt hlong⟩, ⟨digest, hdigest⟩, hrefused⟩
            unfold expiryContext at hset
            dsimp only at h
            rw [Bool.not_true, if_neg (by decide), hset] at h
            cases h

/-- The token that is kept, or that is issued, is one under which the values may be stored. -/
theorem sessionRenew_atomic {events : List SessionEvent} {final : Context}
    (htells : ∀ token, StoredUnder world context.session token →
      ¬ StoredUncookied environment context token)
    (h : Leads (sessionRenew environment context) events (.done (false, final)))
    (hserves : Serves CommitAnswers world events next) : next.table = world.table := by
  by_cases hkept : context.session.token ≠ [] ∧ context.session.regenerate = false
  · rw [sessionRenew_kept hkept.1 hkept.2] at h
    exact sessionStore_atomic (htells _ (by rw [StoredUnder, if_pos hkept])) h hserves
  · rw [sessionRenew_issued hkept] at h
    cases h with
    | @cons _ _ encoded _ _ h =>
      obtain ⟨middle, hissued, hrest⟩ := serves_cons.mp hserves
      obtain ⟨htable, hfresh⟩ := CommitAnswers.token hissued
      cases encoded with
      | none =>
        cases h
        rw [serves_nil.mp hrest, htable]
      | some token =>
        have huncookied := htells token (by rw [StoredUnder, if_neg hkept]; exact hfresh token rfl)
        rw [← htable]
        refine sessionStore_atomic (fun huncookied' => huncookied ?_) h hrest
        obtain ⟨hdata, hdigest, hrefused⟩ := huncookied'
        exact ⟨hdata, hdigest,
          (@contextSetCookie_fst context (tokenContext context token) rfl _ _ _).trans hrefused⟩

theorem CommitSafe.atomic (h : CommitSafe environment context world) :
    AtomicCommit environment context world := by
  intro events final next hleads hserves
  by_cases hpending : Idle context.session
  · rw [sessionCommit_idle hpending] at hleads
    cases hleads
  by_cases hgives : GivesUp context.session
  · rw [sessionCommit_given_up hpending hgives] at hleads
    cases hdigest : sessionDigest environment context.session.token with
    | none =>
      rw [sessionDeleteDigest, hdigest] at hleads
      cases hleads
      rw [serves_nil.mp hserves]
    | some digest =>
      have hnone := h.keeps digest hgives hdigest
      have htells := h.tells.resolve_left fun hno => by
        rw [hdigest] at hno
        cases hno.2
      rw [sessionDeleteDigest_eq hdigest] at hleads
      cases hleads with
      | @cons _ _ success _ _ hleads =>
        obtain ⟨middle, hdelete, hrest⟩ := serves_cons.mp hserves
        obtain ⟨htable, hissued⟩ := CommitAnswers.delete hdelete hnone
        cases success with
        | false =>
          cases hleads
          rw [serves_nil.mp hrest, htable]
        | true =>
          rw [← htable]
          refine sessionRenew_atomic (fun token htoken => htells token ?_) hleads hrest
          unfold StoredUnder at htoken ⊢
          rwa [hissued] at htoken
  · rw [sessionCommit_kept hpending hgives] at hleads
    exact sessionRenew_atomic (h.tells.resolve_left fun hno => hgives hno.1) hleads hserves

/-- The row that a failing commit has written is not the one that was there. -/
theorem tableReplace_ne (table : Bytes → Option SessionRow) (digest data : Bytes) (ttl : ℤ) :
    ∃ now, tableReplace table digest data now (now + ttl) ≠ table := by
  refine ⟨((table digest).map (·.updatedAt + 1)).getD 0, fun heq => ?_⟩
  have hrow := congrFun heq digest
  rw [tableReplace, Function.update_self] at hrow
  have hupdated := congrArg (Option.map SessionRow.updatedAt) hrow
  cases htable : table digest with
  | none =>
    rw [htable] at hupdated
    cases hupdated
  | some row =>
    rw [htable] at hupdated
    have hlater : row.updatedAt + 1 = row.updatedAt := Option.some.inj hupdated
    omega

theorem sessionStore_leads_refused {data digest : Bytes}
    (hdata : sessionSerialize context.session.values = some data)
    (hshort : data.length ≤ SESSION_MAX_BYTES)
    (hdigest : sessionDigest environment context.session.token = some digest)
    (hrefused : (contextSetCookie context environment.sessionCookieName context.session.token
      (sessionStoreOptions environment)).1 = false) (now : ℤ) :
    Leads (sessionStore environment context)
      [⟨.time, now⟩, ⟨.replace digest data now (now + environment.sessionTtlSeconds), true⟩]
      (.done (false, expiryContext context (now + environment.sessionTtlSeconds))) := by
  have hcookie : contextSetCookie (expiryContext context (now + environment.sessionTtlSeconds))
      environment.sessionCookieName context.session.token (sessionStoreOptions environment) =
        (false, expiryContext context (now + environment.sessionTtlSeconds)) := by
    rcases contextSetCookie_cases (expiryContext context (now + environment.sessionTtlSeconds))
      environment.sessionCookieName context.session.token
      (sessionStoreOptions environment) with hset | hset
    · exact hset
    · have hadded := congrArg Prod.fst hset
      rw [expiryContext_cookie, hrefused] at hadded
      cases hadded
  unfold sessionStore
  rw [hdata]
  dsimp only
  rw [if_neg (Nat.not_lt.mpr hshort), hdigest]
  apply Leads.cons
  apply Leads.cons
  rw [leads_nil_iff, Bool.not_true, if_neg (by simp)]
  unfold expiryContext at hcookie
  rw [hcookie]
  rfl

/-- A commit that stores under a token and cannot set its cookie. -/
theorem sessionStore_uncookied (h : StoredUncookied environment context context.session.token) :
    ∃ events final next, Leads (sessionStore environment context) events (.done (false, final)) ∧
      Serves CommitAnswers world events next ∧ next.table ≠ world.table := by
  obtain ⟨⟨data, hdata, hshort⟩, ⟨digest, hdigest⟩, hrefused⟩ := h
  obtain ⟨now, hne⟩ := tableReplace_ne world.table digest data environment.sessionTtlSeconds
  exact ⟨_, _, _, sessionStore_leads_refused hdata hshort hdigest hrefused now,
    .cons ⟨.time now, trivial⟩ (.cons ⟨.replace digest data now _, trivial⟩ (.nil _)), hne⟩

theorem sessionRenew_uncookied {token : Bytes} (hunder : StoredUnder world context.session token)
    (h : StoredUncookied environment context token) :
    ∃ events final next, Leads (sessionRenew environment context) events (.done (false, final)) ∧
      Serves CommitAnswers world events next ∧ next.table ≠ world.table := by
  unfold StoredUnder at hunder
  split_ifs at hunder with hkept
  · subst hunder
    rw [sessionRenew_kept hkept.1 hkept.2]
    exact sessionStore_uncookied h
  · obtain ⟨hfresh, htext⟩ := hunder
    obtain ⟨hdata, hdigest, hrefused⟩ := h
    have hcookie := (@contextSetCookie_fst (tokenContext context token) context rfl _ _ _).trans hrefused
    obtain ⟨events, final, next, hleads, hserves, hne⟩ :=
      @sessionStore_uncookied environment (tokenContext context token)
        { world with issued := token :: world.issued } ⟨hdata, hdigest, hcookie⟩
    rw [sessionRenew_issued hkept]
    exact ⟨⟨.randomToken, some token⟩ :: events, final, next, .cons hleads,
      .cons ⟨.token hfresh, htext⟩ hserves, hne⟩

theorem sessionCommit_loses {digest : Bytes} (hpending : ¬ Idle context.session)
    (hgives : GivesUp context.session)
    (hdigest : sessionDigest environment context.session.token = some digest) :
    ∃ events final next, Leads (sessionCommit environment context) events (.done (false, final)) ∧
      Serves CommitAnswers world events next ∧ next.table digest = none := by
  refine ⟨[⟨.delete digest, true⟩, ⟨.randomToken, none⟩], context, _, ?_,
    .cons ⟨.delete digest, trivial⟩ (.cons ⟨.tokenFailed, trivial⟩ (.nil _)), Function.update_self ..⟩
  · rw [sessionCommit_given_up hpending hgives, sessionDeleteDigest_eq hdigest]
    apply Leads.cons
    have hnot : ¬ (context.session.token ≠ [] ∧ context.session.regenerate = false) :=
      fun hkept => absurd (hgives.1.symm.trans hkept.2) (by decide)
    change Leads (sessionRenew environment context) _ _
    rw [sessionRenew_issued hnot]
    exact .cons (.nil _)

theorem AtomicCommit.keeps {digest : Bytes} (hpending : ¬ Idle context.session)
    (h : AtomicCommit environment context world) (hgives : GivesUp context.session)
    (hdigest : sessionDigest environment context.session.token = some digest) :
    world.table digest = none := by
  obtain ⟨events, final, next, hleads, hserves, hgone⟩ :=
    @sessionCommit_loses _ _ world _ hpending hgives hdigest
  rw [← h events final next hleads hserves]
  exact hgone

theorem AtomicCommit.safe (hpending : ¬ Idle context.session)
    (h : AtomicCommit environment context world) : CommitSafe environment context world := by
  constructor
  · intro digest hgives hdigest
    exact h.keeps hpending hgives hdigest
  · rw [or_iff_not_imp_left]
    intro hdigests token hunder huncookied
    by_cases hgives : GivesUp context.session
    · cases hdigest : sessionDigest environment context.session.token with
      | none => exact hdigests ⟨hgives, hdigest⟩
      | some digest =>
        have hnone := h.keeps hpending hgives hdigest
        obtain ⟨events, final, next, hleads, hserves, hne⟩ := sessionRenew_uncookied hunder huncookied
        refine hne (h (⟨.delete digest, true⟩ :: events) final next ?_ ?_)
        · rw [sessionCommit_given_up hpending hgives, sessionDeleteDigest_eq hdigest]
          exact .cons hleads
        · refine .cons ⟨.delete digest, trivial⟩ ?_
          rwa [show tableDelete world.table digest = world.table from
            Function.update_eq_self_iff.mpr hnone.symm]
    · obtain ⟨events, final, next, hleads, hserves, hne⟩ := sessionRenew_uncookied hunder huncookied
      rw [← sessionCommit_kept hpending hgives] at hleads
      exact hne (h events final next hleads hserves)

/-- A commit is atomic exactly when there is nothing to commit, or no stored row is given up
and every token that may be stored has its cookie. -/
theorem sessionCommit_atomic (environment : Environment) (context : Context)
    (world : SessionWorld) :
    AtomicCommit environment context world ↔
      Idle context.session ∨ CommitSafe environment context world := by
  by_cases hpending : Idle context.session
  · refine iff_of_true (fun events final next hleads hserves => ?_) (.inl hpending)
    rw [sessionCommit_idle hpending] at hleads
    cases hleads
  · rw [or_iff_right hpending]
    exact ⟨AtomicCommit.safe hpending, CommitSafe.atomic⟩

def regeneratedContext : Context where
  request := sampleRequest
  session := { loaded := true, existing := true, dirty := true, regenerate := true, token := sampleToken }

/-- The token generator fails after the row has been deleted. -/
theorem sessionCommit_loses_row :
    sampleWorld.table sampleToken = some sampleRow ∧
    ∃ events final next,
      Leads (sessionCommit sampleEnvironment regeneratedContext) events (.done (false, final)) ∧
        Serves CommitAnswers sampleWorld events next ∧ next.table sampleToken = none :=
  ⟨sample_table, sessionCommit_loses (by simp [Idle, regeneratedContext])
    ⟨rfl, by decide⟩ sample_digest⟩

end Ceasy.Sessions
