import Ceasy.Cookie

set_option autoImplicit false

/-!
# Cookies there and back

A client sends back the text of a `Set-Cookie` header up to its first semicolon. A name is checked
for semicolons and spaces when a cookie is set, a value, a path and a domain for line breaks only.
-/
namespace Ceasy.Sessions
open StringView RequestParse

structure AcceptedCookie where
  name : Bytes
  value : Bytes
  options : CookieOptions
  text : Bytes
  before : Context
  accepted : contextSetCookie before name value options =
    (true, { before with responseHeaders := before.responseHeaders ++ [⟨sv "Set-Cookie", text⟩] })

def cookiePart (text : Bytes) : Bytes := text.takeWhile (· != ch ';')

def cookieHeader (cookies : List AcceptedCookie) : Bytes :=
  (sv "; ").intercalate (cookies.map fun cookie => cookiePart cookie.text)

def cookieAttributes (options : CookieOptions) : List Bytes :=
  (if 0 < options.path.length then [sv " Path=" ++ options.path] else []) ++
    (if 0 < options.domain.length then [sv " Domain=" ++ options.domain] else []) ++
    (if 0 ≤ options.maxAge then [sv " Max-Age=" ++ signedDecimal options.maxAge] else []) ++
    (if options.httpOnly then [sv " HttpOnly"] else []) ++
    (if options.secure then [sv " Secure"] else []) ++
    [match options.sameSite with
      | .strict => sv " SameSite=Strict"
      | .none => sv " SameSite=None"
      | .lax => sv " SameSite=Lax"]

/-- The header is the one pair and the selected attributes, and the value comes back. -/
structure RoundTrips (request : Request) (cookie : AcceptedCookie) : Prop where
  text : cookie.text.splitOn (ch ';') =
    (cookie.name ++ ch '=' :: cookie.value) :: cookieAttributes cookie.options
  value : ∀ context : Context, context.request = request →
    contextCookie context cookie.name = cookie.value

/-- No semicolon in the value, the path and the domain, and no spaces around the value. -/
structure Plain (cookie : AcceptedCookie) : Prop where
  value : ch ';' ∉ cookie.value
  trimmed : stringvTrim cookie.value = cookie.value
  path : ch ';' ∉ cookie.options.path
  domain : ch ';' ∉ cookie.options.domain

theorem cookieText_pieces (name value : Bytes) (options : CookieOptions) :
    cookieText name value options =
      (name ++ ch '=' :: value) ++ (cookieAttributes options).flatMap (ch ';' :: ·) := by
  have hif : ∀ (p : Prop) [Decidable p] (piece : Bytes),
      (if p then [piece] else []).flatMap (ch ';' :: ·) = if p then ch ';' :: piece else [] := by
    intro p hp piece
    split_ifs
    · rw [List.flatMap_singleton]
    · rfl
  rw [cookieText, cookieAttributes]
  simp only [List.flatMap_append, hif, List.flatMap_singleton, List.append_assoc]
  rw [List.singleton_append]
  congr 8
  cases options.sameSite <;> rfl

theorem splitOn_pieces {c : UInt8} (first : Bytes) (rest : List Bytes) :
    (first ++ rest.flatMap (c :: ·)).splitOn c = first :: rest ↔ ∀ piece ∈ first :: rest, c ∉ piece := by
  induction rest generalizing first with
  | nil =>
    rw [List.flatMap_nil, List.append_nil, List.forall_mem_singleton]
    refine ⟨fun h hc => ?_, fun h => List.splitOn_eq_singleton h⟩
    obtain ⟨before, after, rfl⟩ := List.append_of_mem hc
    rw [List.splitOn_append_cons_self] at h
    have hlength := congrArg List.length h
    have hbefore := List.length_pos_iff.mpr (List.splitOn_ne_nil c before)
    have hafter := List.length_pos_iff.mpr (List.splitOn_ne_nil c after)
    rw [List.length_append, List.length_singleton] at hlength
    omega
  | cons next rest ih =>
    rw [List.flatMap_cons, List.cons_append, List.splitOn_append_cons_self, List.forall_mem_cons]
    by_cases hc : c ∈ first
    · refine ⟨fun h => ?_, fun h => absurd hc h.1⟩
      obtain ⟨before, after, rfl, hbefore⟩ := List.eq_append_cons_of_mem hc
      rw [List.splitOn_append_cons_self, List.splitOn_eq_singleton hbefore, List.singleton_append,
        List.cons_append] at h
      have hlength := congrArg List.length (List.cons.inj h).1
      rw [List.length_append, List.length_cons] at hlength
      omega
    · rw [List.splitOn_eq_singleton hc, List.singleton_append, List.cons.injEq, ih next]
      exact ⟨fun h => ⟨hc, h.2⟩, fun h => ⟨rfl, h.2⟩⟩

theorem signedDecimal_plain (n : ℤ) : ch ';' ∉ signedDecimal n := by
  have hdecimal : ch ';' ∉ decimal n.natAbs := fun h => absurd (decimal_digit h).2 (by decide)
  unfold signedDecimal
  split_ifs
  · rw [List.mem_cons, not_or]
    exact ⟨by decide, hdecimal⟩
  · exact hdecimal

/-- Only a path and a domain can bring a semicolon into the attributes. -/
theorem cookieAttributes_plain (options : CookieOptions) :
    (∀ item ∈ cookieAttributes options, ch ';' ∉ item) ↔
      ch ';' ∉ options.path ∧ ch ';' ∉ options.domain := by
  have hif : ∀ (p : Prop) [Decidable p] (piece : Bytes),
      (∀ item ∈ (if p then [piece] else []), ch ';' ∉ item) ↔ (p → ch ';' ∉ piece) := by
    intro p hp piece
    split_ifs with h
    · rw [List.forall_mem_singleton]
      exact ⟨fun hpiece _ => hpiece, fun hpiece => hpiece h⟩
    · exact ⟨fun _ hp => absurd hp h, fun _ item hmem => absurd hmem List.not_mem_nil⟩
  have hvalue : ∀ (before : Bytes) {value : Bytes}, ch ';' ∉ before →
      ((0 < value.length → ch ';' ∉ before ++ value) ↔ ch ';' ∉ value) := by
    intro before value hbefore
    rw [List.mem_append, not_or]
    cases value with
    | nil => exact ⟨fun _ => List.not_mem_nil, fun _ hpos => absurd hpos (Nat.lt_irrefl 0)⟩
    | cons c value => exact ⟨fun h => (h (Nat.succ_pos _)).2, fun h _ => ⟨hbefore, h⟩⟩
  rw [cookieAttributes]
  simp only [List.forall_mem_append, hif, List.forall_mem_singleton]
  rw [hvalue (sv " Path=") (by decide), hvalue (sv " Domain=") (by decide)]
  refine ⟨fun h => h.1.1.1.1, fun h => ⟨⟨⟨⟨h, fun _ => ?_⟩, fun _ => by decide⟩, fun _ => by decide⟩, ?_⟩⟩
  · rw [List.mem_append, not_or]
    exact ⟨by decide, signedDecimal_plain _⟩
  · cases options.sameSite <;> decide

def Blank (text : Bytes) : Prop := ∀ c ∈ text, stringvAsciiSpace c = true

theorem Blank.noSemicolon {text : Bytes} (h : Blank text) : ch ';' ∉ text :=
  fun hc => absurd (h _ hc) (by decide)

theorem stringvTrimRight_append {blank : Bytes} (h : Blank blank) (text : Bytes) :
    stringvTrimRight (text ++ blank) = stringvTrimRight text := by
  induction blank using List.reverseRecOn with
  | nil => rw [List.append_nil]
  | append_singleton blank c ih =>
    rw [← List.append_assoc, stringvTrimRight,
      List.rdropWhile_concat_pos _ _ _ (h c (List.mem_append_right _ List.mem_cons_self))]
    exact ih fun c hc => h c (List.mem_append_left _ hc)

theorem stringvTrimLeft_append {blank : Bytes} (h : Blank blank) (text : Bytes) :
    stringvTrimLeft (blank ++ text) = stringvTrimLeft text :=
  List.dropWhile_append_of_pos h

theorem stringvTrimRight_stop {c : UInt8} (before text : Bytes) (h : stringvAsciiSpace c = false) :
    stringvTrimRight (before ++ c :: text) = before ++ c :: stringvTrimRight text := by
  induction text using List.reverseRecOn with
  | nil => exact List.rdropWhile_concat_neg _ _ _ (by rw [h]; decide)
  | append_singleton text last ih =>
    rw [← List.cons_append, ← List.append_assoc]
    by_cases hlast : stringvAsciiSpace last = true
    · rw [stringvTrimRight, List.rdropWhile_concat_pos _ _ _ hlast, stringvTrimRight,
        List.rdropWhile_concat_pos _ _ _ hlast]
      exact ih
    · rw [stringvTrimRight, List.rdropWhile_concat_neg _ _ _ hlast, stringvTrimRight,
        List.rdropWhile_concat_neg _ _ _ hlast, List.append_assoc, List.cons_append]

theorem stringvTrim_stop {c : UInt8} {before : Bytes} (text : Bytes)
    (hbefore : ∀ c ∈ before, stringvAsciiSpace c = false) (h : stringvAsciiSpace c = false) :
    stringvTrim (before ++ c :: text) = before ++ c :: stringvTrimRight text := by
  have hleft : stringvTrimLeft (before ++ c :: text) = before ++ c :: text := by
    cases before with
    | nil => exact List.dropWhile_cons_of_neg (by rw [h]; decide)
    | cons b before =>
      exact List.dropWhile_cons_of_neg (by rw [hbefore b List.mem_cons_self]; decide)
  rw [stringvTrim, hleft, stringvTrimRight_stop before text h]

theorem stringvTrim_split (text : Bytes) :
    ∃ before after, Blank before ∧ Blank after ∧ text = before ++ stringvTrim text ++ after := by
  refine ⟨text.takeWhile stringvAsciiSpace, (stringvTrimLeft text).rtakeWhile stringvAsciiSpace,
    fun c hc => List.mem_takeWhile_imp hc, fun c hc => List.mem_rtakeWhile_imp hc, ?_⟩
  rw [List.append_assoc, stringvTrim, stringvTrimRight, List.rdropWhile_append_rtakeWhile,
    stringvTrimLeft, List.takeWhile_append_dropWhile]

theorem stringvTrim_blanks {before after : Bytes} (hbefore : Blank before) (hafter : Blank after)
    (text : Bytes) : stringvTrim (before ++ text ++ after) = stringvTrim text := by
  have hblank : ∀ {text : Bytes}, Blank text → stringvTrimLeft text = [] := fun h =>
    List.dropWhile_eq_nil_iff.mpr h
  rw [stringvTrim, List.append_assoc, stringvTrimLeft_append hbefore, stringvTrim]
  by_cases htext : Blank text
  · rw [stringvTrimLeft_append htext, hblank htext, hblank hafter]
  · have hleft : stringvTrimLeft (text ++ after) = stringvTrimLeft text ++ after := by
      rw [stringvTrimLeft, stringvTrimLeft, List.dropWhile_append, if_neg]
      rw [List.isEmpty_iff, List.dropWhile_eq_nil_iff]
      exact fun h => htext h
    rw [hleft, stringvTrimRight_append hafter]

theorem stringvTrim_noSpace {text : Bytes} (h : ∀ c ∈ text, stringvAsciiSpace c = false) :
    stringvTrim text = text := by
  have hleft : stringvTrimLeft text = text := by
    rw [stringvTrimLeft, List.dropWhile_eq_self_iff]
    intro hpos
    rw [h _ (List.getElem_mem hpos)]
    decide
  rw [stringvTrim, hleft, stringvTrimRight, List.rdropWhile_eq_self_iff]
  intro hne
  rw [h _ (List.getLast_mem hne)]
  decide

def cookieOf (piece : Bytes) : Option CookieParam :=
  (stringvSplitOnceChar (stringvTrim piece) (ch '=')).bind fun pair =>
    if cookieToken (stringvTrim pair.1) then some ⟨stringvTrim pair.1, stringvTrim pair.2⟩ else none

theorem cookieParseLoop_pair {remaining : Bytes} (h : remaining ≠ []) (cookies : List CookieParam) :
    cookieParseLoop remaining cookies =
      match cookieOf (cookiePair remaining).1 with
      | none => cookieParseLoop (cookiePair remaining).2 cookies
      | some cookie =>
        if CEASY_MAX_REQUEST_COOKIES ≤ cookies.length then (false, cookies)
        else cookieParseLoop (cookiePair remaining).2 (cookies ++ [cookie]) := by
  rw [cookieParseLoop, dif_pos h, cookieOf]
  cases hsplit : stringvSplitOnceChar (stringvTrim (cookiePair remaining).1) (ch '=') with
  | none => rfl
  | some pair =>
    obtain ⟨name, value⟩ := pair
    rw [Option.bind_some]
    dsimp only
    cases htoken : cookieToken (stringvTrim name) with
    | false => rw [if_pos (by decide), if_neg (by decide)]
    | true => rw [if_neg (by decide), if_pos rfl]

theorem cookieParseLoop_nil (cookies : List CookieParam) : cookieParseLoop [] cookies = (true, cookies) := by
  rw [cookieParseLoop, dif_neg (by decide)]

theorem cookieOf_nil : cookieOf [] = none := rfl

theorem cookiePair_piece {piece : Bytes} (h : ch ';' ∉ piece) (rest : Bytes) :
    cookiePair (piece ++ ch ';' :: rest) = (piece, rest) := by
  rw [cookiePair, stringvSplitOnceChar_some.mpr ⟨rfl, h⟩, Option.getD_some]

theorem cookiePair_last {piece : Bytes} (h : ch ';' ∉ piece) : cookiePair piece = (piece, []) := by
  rw [cookiePair, stringvSplitOnceChar_none.mpr h, Option.getD_none]

theorem cookieParseLoop_piece {piece : Bytes} (h : ch ';' ∉ piece) (rest : Bytes)
    (cookies : List CookieParam) :
    cookieParseLoop (piece ++ ch ';' :: rest) cookies =
      match cookieOf piece with
      | none => cookieParseLoop rest cookies
      | some cookie =>
        if CEASY_MAX_REQUEST_COOKIES ≤ cookies.length then (false, cookies)
        else cookieParseLoop rest (cookies ++ [cookie]) := by
  have hne : piece ++ ch ';' :: rest ≠ [] := List.append_ne_nil_of_right_ne_nil _ (List.cons_ne_nil _ _)
  rw [cookieParseLoop_pair hne, cookiePair_piece h]

theorem cookieParseLoop_last {piece : Bytes} (h : ch ';' ∉ piece) (cookies : List CookieParam) :
    cookieParseLoop piece cookies =
      match cookieOf piece with
      | none => (true, cookies)
      | some cookie =>
        if CEASY_MAX_REQUEST_COOKIES ≤ cookies.length then (false, cookies)
        else (true, cookies ++ [cookie]) := by
  by_cases hne : piece = []
  · rw [hne, cookieParseLoop_nil, cookieOf_nil]
  · rw [cookieParseLoop_pair hne, cookiePair_last h]
    simp only [cookieParseLoop_nil]

theorem cookieOf_blanks {before after : Bytes} (hbefore : Blank before) (hafter : Blank after)
    (piece : Bytes) : cookieOf (before ++ piece ++ after) = cookieOf piece := by
  rw [cookieOf, cookieOf, stringvTrim_blanks hbefore hafter]

theorem Blank.nil : Blank [] := fun _ hc => absurd hc List.not_mem_nil

theorem cookieParseLoop_before {before : Bytes} (h : Blank before) (header : Bytes)
    (cookies : List CookieParam) :
    cookieParseLoop (before ++ header) cookies = cookieParseLoop header cookies := by
  have hpiece : ∀ {piece : Bytes}, ch ';' ∉ piece → ch ';' ∉ before ++ piece := by
    intro piece hpiece
    rw [List.mem_append, not_or]
    exact ⟨h.noSemicolon, hpiece⟩
  have hsame : ∀ piece, cookieOf (before ++ piece) = cookieOf piece := by
    intro piece
    have hblanks := cookieOf_blanks h Blank.nil piece
    rwa [List.append_nil] at hblanks
  by_cases hmem : ch ';' ∈ header
  · obtain ⟨piece, rest, rfl, hfirst⟩ := List.eq_append_cons_of_mem hmem
    rw [← List.append_assoc, cookieParseLoop_piece (hpiece hfirst), cookieParseLoop_piece hfirst, hsame]
  · rw [cookieParseLoop_last (hpiece hmem), cookieParseLoop_last hmem, hsame]

theorem cookieParseLoop_pieces {pieces : List Bytes} {cookies : List CookieParam}
    (hplain : ∀ piece ∈ pieces, ch ';' ∉ piece)
    (h : cookies.length + pieces.length ≤ CEASY_MAX_REQUEST_COOKIES) :
    cookieParseLoop ([ch ';'].intercalate pieces) cookies =
      (true, cookies ++ pieces.filterMap cookieOf) := by
  induction pieces generalizing cookies with
  | nil =>
    rw [List.filterMap_nil, List.append_nil]
    exact cookieParseLoop_nil cookies
  | cons piece pieces ih =>
    obtain ⟨hfirst, hrest⟩ := List.forall_mem_cons.mp hplain
    rw [List.length_cons] at h
    have hroom : ¬ CEASY_MAX_REQUEST_COOKIES ≤ cookies.length := by omega
    rw [List.filterMap_cons]
    cases pieces with
    | nil =>
      rw [List.intercalate_singleton, cookieParseLoop_last hfirst]
      cases cookieOf piece with
      | none =>
        rw [List.filterMap_nil, List.append_nil]
      | some cookie => exact if_neg hroom
    | cons next pieces =>
      rw [List.intercalate_cons_cons, List.append_assoc, List.singleton_append,
        cookieParseLoop_piece hfirst]
      cases cookieOf piece with
      | none =>
        exact ih hrest (by omega)
      | some cookie =>
        dsimp only
        rw [if_neg hroom, ih hrest (by rw [List.length_append, List.length_singleton]; omega),
          List.append_assoc]
        rfl

theorem cookieParseLoop_after {after : Bytes} (h : Blank after) (header : Bytes)
    (cookies : List CookieParam) :
    cookieParseLoop (header ++ after) cookies = cookieParseLoop header cookies := by
  by_cases hmem : ch ';' ∈ header
  · obtain ⟨piece, rest, hheader, hfirst⟩ := List.eq_append_cons_of_mem hmem
    have hrest : rest.length < header.length := by
      rw [hheader, List.length_append, List.length_cons]
      omega
    rw [hheader, List.append_assoc, List.cons_append, cookieParseLoop_piece hfirst,
      cookieParseLoop_piece hfirst]
    simp only [cookieParseLoop_after h rest]
  · have hlast : ch ';' ∉ header ++ after := by
      rw [List.mem_append, not_or]
      exact ⟨hmem, h.noSemicolon⟩
    rw [cookieParseLoop_last hlast, cookieParseLoop_last hmem, ← List.nil_append (header ++ after),
      ← List.append_assoc, cookieOf_blanks Blank.nil h]
termination_by header.length

theorem cookieParseLoop_trim (header : Bytes) (cookies : List CookieParam) :
    cookieParseLoop (stringvTrim header) cookies = cookieParseLoop header cookies := by
  obtain ⟨before, after, hbefore, hafter, hheader⟩ := stringvTrim_split header
  conv_rhs => rw [hheader, cookieParseLoop_after hafter, cookieParseLoop_before hbefore]

namespace AcceptedCookie

variable {cookie : AcceptedCookie}

theorem text_eq (cookie : AcceptedCookie) :
    cookie.text = cookieText cookie.name cookie.value cookie.options := by
  rcases contextSetCookie_cases cookie.before cookie.name cookie.value cookie.options with h | h
  · cases cookie.accepted.symm.trans h
  · have hheaders := congrArg (fun answer => answer.2.responseHeaders) (cookie.accepted.symm.trans h)
    exact congrArg ResponseHeader.value (List.singleton_inj.mp (List.append_cancel_left hheaders))

theorem token (cookie : AcceptedCookie) : cookieToken cookie.name = true :=
  contextSetCookie_name (congrArg Prod.fst cookie.accepted)

theorem name_char {c : UInt8} (h : c ∈ cookie.name) :
    c ≠ ch ';' ∧ c ≠ ch '=' ∧ stringvAsciiSpace c = false := by
  have htoken := cookie.token
  rw [cookieToken, Bool.and_eq_true, List.all_eq_true] at htoken
  have hc := htoken.2 c h
  refine ⟨?_, ?_, ?_⟩
  · rintro rfl
    exact absurd hc (by decide)
  · rintro rfl
    exact absurd hc (by decide)
  · by_contra hspace
    rw [Bool.not_eq_false] at hspace
    simp only [stringvAsciiSpace, Bool.or_eq_true, decide_eq_true_eq] at hspace
    rcases hspace with ((((rfl | rfl) | rfl) | rfl) | rfl) | rfl <;> exact absurd hc (by decide)

theorem name_trim (cookie : AcceptedCookie) : stringvTrim cookie.name = cookie.name :=
  stringvTrim_noSpace fun _ hc => (name_char hc).2.2

def sent (cookie : AcceptedCookie) : Bytes := cookie.value.takeWhile (· != ch ';')

theorem sent_plain (cookie : AcceptedCookie) : ch ';' ∉ cookie.sent := fun hc => by
  simpa using List.mem_takeWhile_imp hc

theorem pair_plain {value : Bytes} (hvalue : ch ';' ∉ value) : ch ';' ∉ cookie.name ++ ch '=' :: value := by
  rw [List.mem_append, List.mem_cons, not_or, not_or]
  exact ⟨fun hc => (name_char hc).1 rfl, by decide, hvalue⟩

theorem takeWhile_ne_append {c : UInt8} {before : Bytes} (h : c ∉ before) (text : Bytes) :
    (before ++ text).takeWhile (· != c) = before ++ text.takeWhile (· != c) := by
  rw [List.takeWhile_append_of_pos]
  intro b hb
  rw [bne_iff_ne]
  rintro rfl
  exact h hb

theorem takeWhile_ne_stop {c : UInt8} (text rest : Bytes) :
    (text ++ c :: rest).takeWhile (· != c) = text.takeWhile (· != c) := by
  have hstop : (c :: rest).takeWhile (· != c) = [] := List.takeWhile_cons_of_neg (by simp)
  by_cases hmem : c ∈ text
  · obtain ⟨before, after, rfl, hbefore⟩ := List.eq_append_cons_of_mem hmem
    rw [List.append_assoc, takeWhile_ne_append hbefore, takeWhile_ne_append hbefore, List.cons_append,
      List.takeWhile_cons_of_neg (by simp), List.takeWhile_cons_of_neg (by simp)]
  · have hall := takeWhile_ne_append hmem []
    rw [List.append_nil, List.takeWhile_nil, List.append_nil] at hall
    rw [takeWhile_ne_append hmem, hstop, hall, List.append_nil]

theorem cookiePart_eq (cookie : AcceptedCookie) :
    cookiePart cookie.text = cookie.name ++ ch '=' :: cookie.sent := by
  obtain ⟨rest, hrest⟩ : ∃ rest,
      (cookieAttributes cookie.options).flatMap (ch ';' :: ·) = ch ';' :: rest := by
    have hne : cookieAttributes cookie.options ≠ [] := List.append_ne_nil_of_right_ne_nil _ (by simp)
    obtain ⟨item, items, hitems⟩ := List.exists_cons_of_ne_nil hne
    rw [hitems]
    exact ⟨_, rfl⟩
  have hname : ch ';' ∉ cookie.name ++ [ch '='] := pair_plain List.not_mem_nil
  rw [cookie.text_eq, cookieText_pieces, hrest, cookiePart, takeWhile_ne_stop, List.append_cons,
    takeWhile_ne_append hname, sent, List.append_assoc, List.singleton_append]

def received (cookie : AcceptedCookie) : CookieParam := ⟨cookie.name, stringvTrim cookie.sent⟩

theorem cookieOf_part (cookie : AcceptedCookie) : cookieOf (cookiePart cookie.text) = some cookie.received := by
  have hname : ch '=' ∉ cookie.name := fun hc => (name_char hc).2.1 rfl
  have hvalue : stringvTrim (stringvTrimRight cookie.sent) = stringvTrim cookie.sent := by
    obtain hafter : Blank (cookie.sent.rtakeWhile stringvAsciiSpace) :=
      fun c hc => List.mem_rtakeWhile_imp hc
    have htrim := stringvTrim_blanks Blank.nil hafter (stringvTrimRight cookie.sent)
    rw [List.nil_append, stringvTrimRight, List.rdropWhile_append_rtakeWhile] at htrim
    exact htrim.symm
  rw [cookieOf, cookie.cookiePart_eq,
    stringvTrim_stop _ (fun c hc => (name_char hc).2.2) (by decide),
    stringvSplitOnceChar_some.mpr ⟨rfl, hname⟩, Option.bind_some]
  dsimp only
  rw [cookie.name_trim, if_pos cookie.token, hvalue]
  rfl

end AcceptedCookie

open AcceptedCookie

theorem AcceptedCookie.part_plain (cookie : AcceptedCookie) : ch ';' ∉ cookiePart cookie.text := by
  rw [cookie.cookiePart_eq]
  exact pair_plain cookie.sent_plain

theorem intercalate_spaced (first : Bytes) (rest : List Bytes) :
    (sv "; ").intercalate (first :: rest) = [ch ';'].intercalate (first :: rest.map (ch ' ' :: ·)) := by
  have hspace : ∀ (next : Bytes) (rest : List Bytes),
      [ch ';'].intercalate ((ch ' ' :: next) :: rest) = ch ' ' :: [ch ';'].intercalate (next :: rest) := by
    rintro next (_ | ⟨second, rest⟩)
    · rw [List.intercalate_singleton, List.intercalate_singleton]
    · rw [List.intercalate_cons_cons, List.intercalate_cons_cons]
      rfl
  induction rest generalizing first with
  | nil => rw [List.map_nil, List.intercalate_singleton, List.intercalate_singleton]
  | cons next rest ih =>
    rw [List.map_cons, List.intercalate_cons_cons, List.intercalate_cons_cons, hspace, ih,
      List.append_assoc, List.append_assoc]
    rfl

theorem AcceptedCookie.cookieOf_spaced (cookie : AcceptedCookie) :
    cookieOf (ch ' ' :: cookiePart cookie.text) = some cookie.received := by
  have hspace : Blank [ch ' '] := List.forall_mem_singleton.mpr rfl
  have hblanks := cookieOf_blanks hspace Blank.nil (cookiePart cookie.text)
  rwa [List.append_nil, List.singleton_append, cookie.cookieOf_part] at hblanks

/-- The header that is sent back gives every cookie, as far as its value went. -/
theorem cookieParseLoop_header {cookies : List AcceptedCookie}
    (h : cookies.length ≤ CEASY_MAX_REQUEST_COOKIES) :
    cookieParseLoop (cookieHeader cookies) [] = (true, cookies.map received) := by
  cases cookies with
  | nil => exact cookieParseLoop_nil []
  | cons cookie cookies =>
    rw [cookieHeader, List.map_cons, intercalate_spaced, List.map_map, cookieParseLoop_pieces,
      List.nil_append, List.filterMap_cons, cookie.cookieOf_part, List.filterMap_map]
    · have hrest : cookies.filterMap (cookieOf ∘ (ch ' ' :: ·) ∘ fun cookie => cookiePart cookie.text) =
          cookies.map received :=
        (List.filterMap_congr fun other _ => other.cookieOf_spaced).trans
          (congrFun List.filterMap_eq_map' cookies)
      exact congrArg (fun rest => (true, cookie.received :: rest)) hrest
    · refine List.forall_mem_cons.mpr ⟨cookie.part_plain, List.forall_mem_map.mpr fun other _ hc => ?_⟩
      rcases List.mem_cons.mp hc with hspace | hpart
      · exact absurd hspace (by decide)
      · exact other.part_plain hpart
    · rw [List.length_nil, List.length_cons, List.length_map]
      rw [List.length_cons] at h
      omega

theorem received_find {cookies : List AcceptedCookie} {cookie : AcceptedCookie}
    (hnames : (cookies.map (·.name)).Nodup) (h : cookie ∈ cookies) :
    (cookies.map received).find? (fun param => stringvEqual param.name cookie.name) =
      some cookie.received := by
  induction cookies with
  | nil => cases h
  | cons first cookies ih =>
    rw [List.map_cons, List.nodup_cons] at hnames
    rw [List.map_cons]
    rcases List.mem_cons.mp h with rfl | hrest
    · exact List.find?_cons_of_pos (beq_self_eq_true cookie.name)
    · rw [List.find?_cons_of_neg, ih hnames.2 hrest]
      intro heq
      have hname : cookie.name = first.name := (beq_iff_eq.mp heq).symm
      exact hnames.1 (hname ▸ List.mem_map_of_mem hrest)

section RoundTrip

variable {request : Request} {cookies : List AcceptedCookie} {cookie : AcceptedCookie}

theorem contextCookie_received {context : Context} (hnames : (cookies.map (·.name)).Nodup)
    (hcount : cookies.length ≤ CEASY_MAX_REQUEST_COOKIES)
    (hheader : stringvTrim (requestHeader context.request (sv "Cookie")) =
      stringvTrim (cookieHeader cookies)) (h : cookie ∈ cookies) :
    contextCookie context cookie.name = stringvTrim cookie.sent := by
  have hparse : cookieParse context = (true, cookies.map received) := by
    rw [cookieParse, ← cookieParseLoop_trim, hheader, cookieParseLoop_trim,
      cookieParseLoop_header hcount]
  rw [contextCookie, hparse]
  dsimp only
  rw [if_pos rfl, received_find hnames h]
  rfl

theorem sent_trim_iff (cookie : AcceptedCookie) :
    stringvTrim cookie.sent = cookie.value ↔
      ch ';' ∉ cookie.value ∧ stringvTrim cookie.value = cookie.value := by
  have hsent : ch ';' ∉ cookie.value → cookie.sent = cookie.value := by
    intro hplain
    have htake := takeWhile_ne_append hplain []
    rwa [List.append_nil, List.takeWhile_nil, List.append_nil] at htake
  refine ⟨fun h => ?_, fun h => by rw [hsent h.1, h.2]⟩
  have hplain : ch ';' ∉ cookie.value := by
    obtain ⟨before, after, -, -, hsplit⟩ := stringvTrim_split cookie.sent
    have hmem : ∀ c ∈ stringvTrim cookie.sent, c ∈ cookie.sent := by
      intro c hc
      rw [hsplit]
      exact List.mem_append_left _ (List.mem_append_right _ hc)
    rw [h] at hmem
    exact fun hc => cookie.sent_plain (hmem _ hc)
  rw [hsent hplain] at h
  exact ⟨hplain, h⟩

theorem text_iff (cookie : AcceptedCookie) :
    cookie.text.splitOn (ch ';') =
        (cookie.name ++ ch '=' :: cookie.value) :: cookieAttributes cookie.options ↔
      ch ';' ∉ cookie.value ∧ ch ';' ∉ cookie.options.path ∧ ch ';' ∉ cookie.options.domain := by
  rw [cookie.text_eq, cookieText_pieces, splitOn_pieces, List.forall_mem_cons, cookieAttributes_plain]
  refine and_congr ⟨fun h hc => h ?_, pair_plain⟩ Iff.rfl
  exact List.mem_append_right _ (List.mem_cons_of_mem _ hc)

/-- Cookies that were accepted come back, each with no more than its attributes, exactly where
no semicolon is in a value, a path or a domain and no space is around a value. -/
theorem cookies_roundTrip_iff (hnames : (cookies.map (·.name)).Nodup)
    (hcount : cookies.length ≤ CEASY_MAX_REQUEST_COOKIES)
    (hheader : stringvTrim (requestHeader request (sv "Cookie")) =
      stringvTrim (cookieHeader cookies)) :
    (∀ cookie ∈ cookies, RoundTrips request cookie) ↔ ∀ cookie ∈ cookies, Plain cookie := by
  refine forall₂_congr fun cookie hmem => ⟨fun h => ?_, fun h => ?_⟩
  · have hvalue := h.value ⟨request, [], {}⟩ rfl
    rw [@contextCookie_received _ _ ⟨request, [], {}⟩ hnames hcount hheader hmem, sent_trim_iff] at hvalue
    have htext := (text_iff cookie).mp h.text
    exact ⟨hvalue.1, hvalue.2, htext.2.1, htext.2.2⟩
  · refine ⟨(text_iff cookie).mpr ⟨h.value, h.path, h.domain⟩, fun context hrequest => ?_⟩
    subst hrequest
    rw [contextCookie_received hnames hcount hheader hmem, sent_trim_iff]
    exact ⟨h.value, h.trimmed⟩

end RoundTrip

def accept (before : Context) (name value : Bytes) (options : CookieOptions)
    (h : (contextSetCookie before name value options).1 = true) : AcceptedCookie where
  name := name
  value := value
  options := options
  text := cookieText name value options
  before := before
  accepted := by
    rcases contextSetCookie_cases before name value options with hcase | hcase
    · rw [hcase] at h
      cases h
    · exact hcase

def themeCookies : List AcceptedCookie :=
  [accept ⟨{}, [], {}⟩ (sv "sid") (sv "7f") { httpOnly := true } (by decide +kernel),
    accept ⟨{}, [], {}⟩ (sv "theme") (sv "dark blue") { path := sv "/app" } (by decide +kernel)]

theorem themeCookies_roundTrip :
    themeCookies.length = 2 ∧ ∀ cookie ∈ themeCookies,
      RoundTrips { headers := [⟨sv "Cookie", sv "sid=7f; theme=dark blue"⟩] } cookie :=
  ⟨rfl, (cookies_roundTrip_iff (by decide +kernel) (by decide) (by decide +kernel)).mpr
    (by
      intro cookie hmem
      rcases List.mem_pair.mp hmem with rfl | rfl
      · exact ⟨by decide, by decide +kernel, by decide, by decide⟩
      · exact ⟨by decide, by decide +kernel, by decide, by decide⟩)⟩

/-- A semicolon in the value: an attribute is injected, and the value that comes back is cut. -/
theorem contextSetCookie_injects :
    ∃ (cookie : AcceptedCookie) (request : Request),
      cookie.name = sv "sid" ∧ cookie.value = sv "7f; Domain=x" ∧ cookie.options = {} ∧
      requestHeader request (sv "Cookie") = cookieHeader [cookie] ∧
      cookie.text.splitOn (ch ';') = [sv "sid=7f", sv " Domain=x", sv " Max-Age=0", sv " SameSite=Lax"] ∧
      contextCookie ⟨request, [], {}⟩ (sv "sid") = sv "7f" ∧ ¬ RoundTrips request cookie := by
  let cookie := accept ⟨{}, [], {}⟩ (sv "sid") (sv "7f; Domain=x") {} (by decide +kernel)
  let request : Request := { headers := [⟨sv "Cookie", sv "sid=7f"⟩] }
  have hheader : requestHeader request (sv "Cookie") = cookieHeader [cookie] := by decide +kernel
  refine ⟨cookie, request, rfl, rfl, rfl, hheader, by decide +kernel, ?_, fun h => ?_⟩
  · exact (@contextCookie_received [cookie] cookie ⟨request, [], {}⟩ (List.nodup_singleton _) (by decide)
      (congrArg stringvTrim hheader) List.mem_cons_self).trans (by decide +kernel)
  · exact absurd ((text_iff _).mp h.text).1 (by decide)

end Ceasy.Sessions
