import Ceasy.OwnedStringUpdate
import Ceasy.Replacement

set_option autoImplicit false

/-!
# Replacing in a string

The result is built in a string of its own, so the views, which may show the string itself, stay as
they are until the string is destroyed.
-/
namespace Ceasy.OwnedString
open ByteHeap Occurrence
open StringView (Bytes SIZE_MAX ch)

variable {answers : Answers UInt8} {heap later last : Memory} {string result : String}
  {value search replacement : View} {own : Option Block} {base address start length cursor : ℕ}
  {bytes text pattern inserted : Bytes} {found all : Bool}

/-- A view that shows these bytes, in a live block that is not the string's own. -/
structure Shows (heap : Memory) (own : Option Block) (value : View) (bytes : Bytes) : Prop where
  length : value.length = bytes.length
  block : value.length = 0 ∨ ∃ address, value.data = some address ∧ ∃ block ∈ heap.blocks,
    some block ≠ own ∧ Block.Within ⟨address, value.length⟩ block ∧ heap.read address value.length = bytes

theorem Shows.untouched {own' : Option Block} (h : Shows heap own value bytes)
    (huntouched : Untouched heap later own own') : Shows later own' value bytes := by
  refine ⟨h.length, h.block.imp_right ?_⟩
  rintro ⟨address, hdata, block, hmem, hne, hwithin, hread⟩
  obtain ⟨hlater, hne', -⟩ := huntouched.block block hmem hne
  exact ⟨address, hdata, block, hlater, hne', hwithin, (huntouched.read hmem hne hwithin).trans hread⟩

/-- Every view that the string may be given shows its bytes, when nothing is owned yet. -/
theorem Admissible.shows (h : Admissible heap string value) (hvalid : Valid heap string) :
    Shows heap none value (viewContents heap value) := by
  by_cases hempty : value.length = 0
  · exact ⟨by rw [viewContents_empty hempty, hempty]; rfl, .inl hempty⟩
  rcases h with hzero | ⟨base, address, hbase, hdata, hlow, hhigh⟩ | houtside
  · exact absurd hzero hempty
  · have hstored := hvalid.lengths.2.2 base hbase
    have hlength := hstored.length
    rw [viewContents_eq hdata]
    refine ⟨(read_length _ _ _).symm, .inr ⟨address, hdata, _, hstored.block, Option.some_ne_none _,
      ⟨hlow, ?_⟩, rfl⟩⟩
    dsimp only
    omega
  · obtain ⟨address, hdata, block, hmem, -, hwithin⟩ := houtside.block (Nat.pos_of_ne_zero hempty)
    rw [viewContents_eq hdata]
    exact ⟨(read_length _ _ _).symm, .inr ⟨address, hdata, block, hmem, Option.some_ne_none _, hwithin, rfl⟩⟩

theorem Shows.admissible (h : Shows heap string.block value bytes) (hvalid : Valid heap string) :
    Admissible heap string value ∧ viewContents heap value = bytes := by
  by_cases hempty : value.length = 0
  · refine ⟨.inl hempty, ?_⟩
    have hlength := h.length
    rw [hempty] at hlength
    rw [viewContents_empty hempty, List.length_eq_zero_iff.mp hlength.symm]
  · obtain ⟨address, hdata, block, hmem, hne, hwithin, hread⟩ := h.block.resolve_left hempty
    refine ⟨.inr (.inr ⟨address, hdata, ⟨block, hmem, hwithin⟩, fun other hother => ?_⟩), ?_⟩
    · rcases hvalid with hmissing | ⟨base, hstored⟩
      · rw [String.block, hmissing.data] at hother
        cases hother
      · rw [hstored.string_block] at hother
        cases hother
        refine hwithin.apart (blocks_apart hmem hstored.block fun heq => hne ?_)
        rw [heq, hstored.string_block]
    · rw [viewContents_eq hdata, hread]

theorem Shows.valid (h : Shows heap own value bytes) : stringvValid value = true := by
  unfold stringvValid
  rcases h.block with hempty | ⟨address, hdata, -⟩
  · simp [hempty]
  · simp [hdata]

theorem Shows.slice (h : Shows heap own value bytes) (hstart : start ≤ bytes.length)
    (hlength : length ≤ bytes.length - start) :
    Shows heap own (stringvSlice value start length) ((bytes.drop start).take length) := by
  have hvalue := h.length
  have hslice : stringvSlice value start length = { data := value.data.map (· + start), length := length } := by
    unfold stringvSlice
    rw [if_neg (by rw [h.valid]; simp; omega), if_neg (by omega)]
  rw [hslice]
  refine ⟨?_, ?_⟩
  · rw [List.length_take, List.length_drop]
    exact (Nat.min_eq_left hlength).symm
  · rcases h.block with hempty | ⟨address, hdata, block, hmem, hne, hwithin, hread⟩
    · exact .inl (by dsimp only; omega)
    · refine .inr ⟨address + start, by rw [hdata]; rfl, block, hmem, hne, ?_, ?_⟩
      · unfold Block.Within at hwithin ⊢
        dsimp only at hwithin ⊢
        omega
      · dsimp only
        rw [← hread, read_drop _ _ (by omega), read_take _ _ (by omega)]

theorem Shows.from (h : Shows heap own value bytes) (hstart : start ≤ bytes.length) :
    Shows heap own (stringvFrom value start) (bytes.drop start) := by
  have hvalue := h.length
  have hslice := h.slice hstart (Nat.le_refl (bytes.length - start))
  rw [List.take_of_length_le (by rw [List.length_drop])] at hslice
  unfold stringvFrom
  rw [if_neg (by omega), hvalue]
  exact hslice

theorem Shows.viewBytes (h : Shows heap own value bytes) : OwnedString.viewBytes heap value = .ok bytes := by
  have hlength := h.length
  unfold OwnedString.viewBytes
  by_cases hempty : value.length = 0
  · rw [if_pos hempty, List.length_eq_zero_iff.mp (hlength.symm.trans hempty)]
  · obtain ⟨address, hdata, block, hmem, -, hwithin, hread⟩ := h.block.resolve_left hempty
    rw [if_neg hempty, hdata, load_ok ⟨block, hmem, hwithin⟩, hread]

theorem Shows.find {bytes pattern : Bytes} (h : Shows heap own value bytes)
    (hsearch : Shows heap own search pattern) :
    stringvFind heap value search = .ok (StringView.stringvFind bytes pattern) := by
  unfold stringvFind
  rw [h.valid, hsearch.valid]
  by_cases hshort : value.length < search.length
  · rw [if_pos (.inr (.inr hshort))]
    rw [h.length, hsearch.length] at hshort
    rw [StringView.stringvFind, if_pos hshort]
    rfl
  · rw [if_neg (by simp [hshort]), h.viewBytes, checked_bind, hsearch.viewBytes]
    rfl

/-- A string that is being built holds these bytes, and all that was there before is as it was. -/
structure Building (heap later : Memory) (allocator : Allocator) (result : String) (bytes : Bytes) : Prop where
  valid : Valid later result
  holds : contents later result = bytes
  untouched : Untouched heap later none result.block
  same : result.allocator = allocator
  refusals : later.refusals = heap.refusals

structure Stopped (heap later : Memory) (allocator : Allocator) (result : String) (needed : ℕ) : Prop where
  valid : Valid later result
  untouched : Untouched heap later none result.block
  same : result.allocator = allocator
  reason : (heap.refusals < later.refusals ∨ allocator.realloc = false ∧ allocator.alloc = false) ∨
    SIZE_MAX ≤ needed

variable {allocator : Allocator} {needed : ℕ}

theorem Valid.of_same (h : Valid heap string) (hblocks : later.blocks = heap.blocks)
    (hbytes : later.bytes = heap.bytes) :
    Valid later string ∧ contents later string = contents heap string := by
  rcases h with hmissing | ⟨base, hstored⟩
  · exact ⟨.inl hmissing, by rw [hmissing.contents_eq, hmissing.contents_eq]⟩
  · refine ⟨.inr ⟨base, ⟨hstored.data, ?_⟩, hstored.length, hstored.capacity, ?_⟩, ?_⟩
    · rw [hblocks]
      exact hstored.block
    · rw [hbytes]
      exact hstored.nul
    · rw [contents, contents, hstored.data]
      exact read_congr fun place _ _ => by rw [hbytes]

theorem Stopped.le (h : Stopped heap later allocator result needed) {other : ℕ} (hle : needed ≤ other) :
    Stopped heap later allocator result other :=
  ⟨h.valid, h.untouched, h.same, h.reason.imp_right (·.trans hle)⟩

theorem Building.append (answers : Answers UInt8) (h : Building heap later allocator result bytes)
    (hshows : Shows heap none value text) :
    (∃ last result', stringAppend answers later result value = .ok (true, last, result') ∧
        Building heap last allocator result' (bytes ++ text)) ∨
      ∃ last result', stringAppend answers later result value = .ok (false, last, result') ∧
        Stopped heap last allocator result' (bytes ++ text).length := by
  obtain ⟨hadmissible, hview⟩ := (hshows.untouched h.untouched).admissible h.valid
  obtain ⟨ok, last, result', happend, hchanged, hfailed⟩ :=
    @stringAppend_spec answers later result value h.valid hadmissible
  cases ok with
  | true =>
    have hafter := hchanged rfl
    refine .inl ⟨last, result', happend, hafter.valid, ?_, h.untouched.trans hafter.untouched,
      hafter.allocator.trans h.same, hafter.refusals.trans h.refusals⟩
    rw [hafter.holds, h.holds, hview]
  | false =>
    have hafter := hfailed rfl
    obtain rfl := hafter.result
    refine .inr ⟨last, result', happend, (h.valid.of_same hafter.blocks hafter.bytes).1,
      h.untouched.trans (.of_same hafter.blocks hafter.bytes _), h.same, ?_⟩
    have hreason := hafter.reason
    rw [Denied, h.same, h.refusals, hshows.length, ← contents_length h.valid, h.holds,
      ← List.length_append] at hreason
    exact hreason

/-- What the loop comes to: the string is built, and what was searched for has been found or not. -/
def Builds (heap : Memory) (allocator : Allocator) (bytes : Bytes) (occurs : Prop)
    (run : Checked (Option Bool × Memory × String)) : Prop :=
  (∃ flag last result, run = .ok (some flag, last, result) ∧
      Building heap last allocator result bytes ∧ (flag = true ↔ occurs)) ∨
    ∃ last result, run = .ok (none, last, result) ∧ Stopped heap last allocator result bytes.length

theorem Builds.congr {occurs occurs' : Prop} {run : Checked (Option Bool × Memory × String)}
    (h : Builds heap allocator bytes occurs run) (hiff : occurs ↔ occurs') :
    Builds heap allocator bytes occurs' run := by
  rw [← propext hiff]
  exact h

theorem Building.finish (answers : Answers UInt8) (h : Building heap later allocator result bytes)
    (hshows : Shows heap none value text) {occurs : Prop} {flag : Bool} (hflag : flag = true ↔ occurs) :
    Builds heap allocator (bytes ++ text) occurs (do
      let (appended, heap, result) ← stringAppend answers later result value
      return (if appended then some flag else none, heap, result)) := by
  rcases h.append answers hshows with ⟨last, result', happend, hbuilding⟩ | ⟨last, result', happend, hstopped⟩
  · rw [happend]
    exact .inl ⟨flag, last, result', rfl, hbuilding, hflag⟩
  · rw [happend]
    exact .inr ⟨last, result', rfl, hstopped⟩

theorem stringReplaceLoop_spec {source : View} (hsource : Shows heap none source text)
    (hsearch : Shows heap none search pattern) (hreplacement : Shows heap none replacement inserted)
    (hpositive : 0 < search.length) (hsize : source.length ≤ SIZE_MAX)
    (h : Building heap later allocator result bytes) (hcursor : cursor ≤ text.length) (found : Bool) :
    ∃ rest, Replaced all pattern inserted (text.drop cursor) rest ∧
      Builds heap allocator (bytes ++ rest) (found = true ∨ ∃ i, OccursAt pattern (text.drop cursor) i)
        (stringReplaceLoop answers source search replacement all hpositive later result cursor found) := by
  have hpattern : pattern ≠ [] := by
    rintro rfl
    rw [hsearch.length] at hpositive
    exact Nat.lt_irrefl _ hpositive
  have hsourceLength := hsource.length
  have hsearchLength := hsearch.length
  induction hmeasure : text.length - cursor using Nat.strong_induction_on
    generalizing later result cursor bytes found with
  | _ measure ih =>
    have hremaining := hsource.from hcursor
    have hfind := (hremaining.untouched h.untouched).find (hsearch.untouched h.untouched)
    rw [stringReplaceLoop, if_neg (by omega)]
    dsimp only
    rw [hfind, checked_bind]
    cases hfound : StringView.stringvFind (text.drop cursor) pattern with
    | none =>
      have hnone := (StringView.stringvFind_none hpattern).mp hfound
      refine ⟨text.drop cursor, .done all hnone, h.finish answers hremaining ?_⟩
      exact ⟨.inl, fun hor => hor.resolve_right fun ⟨i, hoccurs⟩ => hnone i hoccurs⟩
    | some relative =>
      have hfirst := (StringView.stringvFind_some hpattern).mp hfound
      have hbound := occursAt_bound hfirst.1 hpattern
      rw [List.length_drop] at hbound
      have hmatch : cursor + relative + search.length ≤ text.length := by omega
      have hdrop : (text.drop cursor).drop (relative + pattern.length) =
          text.drop (cursor + relative + search.length) := by
        rw [List.drop_drop, hsearchLength, Nat.add_assoc]
      have hoccurs : ∃ i, OccursAt pattern (text.drop cursor) i := ⟨relative, hfirst.1⟩
      have hslice := hsource.slice hcursor (by omega : relative ≤ text.length - cursor)
      have hreplaced {rest : Bytes} (hrest : if all = true then ReplacedAll pattern inserted
            (text.drop (cursor + relative + search.length)) rest
          else rest = text.drop (cursor + relative + search.length)) :
          Replaced all pattern inserted (text.drop cursor)
            ((text.drop cursor).take relative ++ (inserted ++ rest)) := by
        cases all with
        | true =>
          refine ReplacedAll.next hfirst ?_
          rw [hdrop]
          exact hrest
        | false =>
          have hnext := @ReplacedFirst.next _ pattern inserted (text.drop cursor) relative hfirst
          rw [hdrop, ← show rest = _ from hrest] at hnext
          exact hnext
      obtain ⟨tail, htail⟩ : ∃ rest, if all = true then ReplacedAll pattern inserted
            (text.drop (cursor + relative + search.length)) rest
          else rest = text.drop (cursor + relative + search.length) := by
        cases all with
        | true => exact ReplacedAll.exists hpattern inserted _
        | false => exact ⟨_, rfl⟩
      rcases h.append answers hslice with ⟨last, result', happend, hbuilding⟩ | ⟨last, result', happend, hstopped⟩
      · dsimp only
        rw [happend, checked_bind]
        rcases hbuilding.append answers hreplacement with
          ⟨last', result'', happend', hbuilding'⟩ | ⟨last', result'', happend', hstopped'⟩
        · dsimp only
          rw [if_neg (Bool.false_ne_true ·.symm), happend', checked_bind]
          dsimp only
          rw [if_neg (Bool.false_ne_true ·.symm), if_neg (by omega)]
          cases all with
          | true =>
            rw [if_pos rfl]
            obtain ⟨rest, hrest, hbuilds⟩ := ih _ (by omega) hbuilding' hmatch true rfl
            refine ⟨_, hreplaced hrest, ?_⟩
            rw [List.append_assoc, List.append_assoc] at hbuilds
            exact hbuilds.congr (iff_of_true (.inl rfl) (.inr hoccurs))
          | false =>
            rw [if_neg Bool.false_ne_true]
            refine ⟨_, hreplaced rfl, ?_⟩
            have hfinish := hbuilding'.finish answers (hsource.from hmatch)
              (iff_of_true rfl (.inr hoccurs) : true = true ↔ found = true ∨ ∃ i, OccursAt pattern (text.drop cursor) i)
            rw [List.append_assoc, List.append_assoc] at hfinish
            exact hfinish
        · dsimp only
          rw [if_neg (Bool.false_ne_true ·.symm), happend', checked_bind]
          refine ⟨_, hreplaced htail, .inr ⟨last', result'', rfl, hstopped'.le ?_⟩⟩
          simp only [List.length_append]
          omega
      · dsimp only
        rw [happend, checked_bind]
        refine ⟨_, hreplaced htail, .inr ⟨last, result', rfl, hstopped.le ?_⟩⟩
        simp only [List.length_append]
        omega

theorem stringDestroy_spec (h : Valid heap string) :
    ∃ later, stringDestroy heap string = .ok (later, {}) ∧ later.bytes = heap.bytes ∧
      later.refusals = heap.refusals ∧ Untouched heap later string.block none := by
  have hkept : Untouched heap heap string.block none :=
    ⟨fun _ hmem _ => ⟨hmem, Option.some_ne_none _, fun _ _ _ => rfl⟩⟩
  unfold stringDestroy
  by_cases hfrees : string.data ≠ none ∧ string.allocator.free = true
  · obtain ⟨base, hdata⟩ := Option.ne_none_iff_exists'.mp hfrees.1
    have hstored := h.lengths.2.2 base hdata
    obtain ⟨later, hrelease, hbytes, hrefusals, hblocks⟩ :=
      release_spec string.allocator.reclaims hstored.block
    dsimp only at hrelease
    rw [if_pos hfrees, hdata, hrelease]
    refine ⟨later, rfl, hbytes, hrefusals, ⟨fun block hmem hne => ⟨?_, Option.some_ne_none _, ?_⟩⟩⟩
    · rw [hstored.string_block] at hne
      rw [hblocks]
      exact mem_keeping _ hmem fun heq => hne (congrArg some heq)
    · intro place _ _
      rw [hbytes]
  · rw [if_neg hfrees]
    exact ⟨heap, rfl, rfl, rfl, hkept⟩

theorem stringAsView_shows (h : Valid heap string) :
    Shows heap none (stringAsView string) (contents heap string) := by
  unfold stringAsView
  rcases h with hmissing | ⟨base, hstored⟩
  · rw [if_pos hmissing.data, hmissing.contents_eq]
    exact ⟨rfl, .inl rfl⟩
  · have hlength := hstored.length
    rw [if_neg (by rw [hstored.data]; exact Option.some_ne_none _), hstored.contents_eq]
    refine ⟨(read_length _ _ _).symm, .inr ⟨base, hstored.data, _, hstored.block, Option.some_ne_none _,
      ⟨Nat.le_refl _, ?_⟩, rfl⟩⟩
    dsimp only
    omega

/-- The occurrences are replaced, with the string as it was where there are none; a failure has a
reason, and leaves the string as it was too. -/
def Replaces (all : Bool) (heap : Memory) (string : String) (search replacement : View)
    (outcome : Checked (Bool × Memory × String)) : Prop :=
  ∃ ok later result, outcome = .ok (ok, later, result) ∧ Valid later result ∧
    Untouched heap later string.block result.block ∧
    (ok = true → later.refusals = heap.refusals ∧
      (∀ whole, Replaced all (viewContents heap search) (viewContents heap replacement)
        (contents heap string) whole ↔ whole = contents later result) ∧
      ((∀ i, ¬ OccursAt (viewContents heap search) (contents heap string) i) →
        result = string ∧ Untouched heap later none none)) ∧
    (ok = false → result = string ∧ contents later result = contents heap string ∧
      Untouched heap later none none ∧ (Denied heap later string ∨ ∃ whole,
        Replaced all (viewContents heap search) (viewContents heap replacement) (contents heap string) whole ∧
        SIZE_MAX ≤ whole.length))

theorem Untouched.weaken (h : Untouched heap later none none) (own : Option Block) :
    Untouched heap later own own :=
  ⟨fun block hmem hne => ⟨(h.block block hmem (Option.some_ne_none _)).1, hne,
    (h.block block hmem (Option.some_ne_none _)).2.2⟩⟩

theorem block_ne_none (string : String) : string.block ≠ none ∨ string.data = none := by
  rw [String.block, ne_eq, Option.map_eq_none_iff]
  exact (Classical.em _).symm

/-- The string stays as it is while another is built and destroyed. -/
theorem Valid.aside (h : Valid heap string) (huntouched : Untouched heap later none result.block)
    (hresult : Valid later result) :
    ∃ last, stringDestroy later result = .ok (last, {}) ∧ last.refusals = later.refusals ∧
      Untouched heap last none none ∧ Valid last string ∧ contents last string = contents heap string := by
  obtain ⟨last, hdestroy, -, hrefusals, hlast⟩ := stringDestroy_spec hresult
  have hall := huntouched.trans hlast
  obtain ⟨hvalid, hcontents, -⟩ := h.of_untouched hall (block_ne_none string)
  exact ⟨last, hdestroy, hrefusals, hall, hvalid, hcontents⟩

/-- The string that was built takes the place of the other, which is destroyed. -/
theorem Valid.swap (h : Valid heap string) (huntouched : Untouched heap later none result.block)
    (hresult : Valid later result) :
    ∃ last, stringDestroy later string = .ok (last, {}) ∧ last.refusals = later.refusals ∧
      Untouched heap last string.block result.block ∧ Valid last result ∧
      contents last result = contents later result := by
  obtain ⟨hvalid, -, hapart⟩ := h.of_untouched huntouched (block_ne_none string)
  obtain ⟨last, hdestroy, -, hrefusals, hlast⟩ := stringDestroy_spec hvalid
  have hown : result.block ≠ string.block ∨ result.data = none := by
    rcases hapart with hne | hnone
    · exact .inl hne.symm
    · have hstring : string.block = none := by
        rw [String.block, hnone]
        rfl
      rw [hstring]
      exact block_ne_none result
  obtain ⟨hvalid', hcontents, -⟩ := hresult.of_untouched hlast hown
  refine ⟨last, hdestroy, hrefusals, ⟨fun block hmem hne => ?_⟩, hvalid', hcontents⟩
  obtain ⟨hlater, hne', hsame⟩ := huntouched.block block hmem (Option.some_ne_none _)
  obtain ⟨hkept, -, hsame'⟩ := hlast.block block hlater hne
  exact ⟨hkept, hne', fun place hle hlt => (hsame' place hle hlt).trans (hsame place hle hlt)⟩

theorem stringReplaceBuild_spec (h : Valid heap string) (hsearch : Admissible heap string search)
    (hreplacement : Admissible heap string replacement) (hnonempty : search.length ≠ 0) :
    Replaces all heap string search replacement
      (stringReplaceBuild answers heap string search replacement all) := by
  have hsource := stringAsView_shows h
  have hlength := hsource.length
  rw [contents_length h] at hlength
  have hmax := h.lengths
  have hstart : Building heap heap string.allocator (stringNew string.allocator) [] :=
    ⟨.inl ⟨rfl, rfl, rfl⟩, rfl, .refl heap none, rfl, rfl⟩
  obtain ⟨rest, hrest, hbuilds⟩ := @stringReplaceLoop_spec answers heap heap (stringNew string.allocator)
    search replacement 0 [] _ _ _ all string.allocator _ hsource (hsearch.shows h) (hreplacement.shows h)
    (Nat.pos_of_ne_zero hnonempty) (by omega) hstart (Nat.zero_le _) false
  rw [List.drop_zero] at hrest hbuilds
  rw [List.nil_append] at hbuilds
  unfold stringReplaceBuild
  rw [dif_neg (by simp [hnonempty, hsearch.valid, hreplacement.valid])]
  dsimp only
  rcases hbuilds with ⟨flag, later, result, hloop, hbuilding, hflag⟩ | ⟨later, result, hloop, hstopped⟩
  · rw [hloop, checked_bind]
    cases flag with
    | false =>
      have hnone (i : ℕ) : ¬ OccursAt (viewContents heap search) (contents heap string) i :=
        fun hoccurs => Bool.false_ne_true (hflag.mpr (.inr ⟨i, hoccurs⟩))
      obtain ⟨last, hdestroy, hrefusals, huntouched, hvalid, hcontents⟩ :=
        h.aside hbuilding.untouched hbuilding.valid
      dsimp only
      rw [hdestroy]
      refine ⟨true, last, string, rfl, hvalid, huntouched.weaken _, fun _ => ⟨?_, fun whole => ?_, fun _ => ⟨rfl, huntouched⟩⟩,
        fun hfalse => (Bool.false_ne_true hfalse.symm).elim⟩
      · exact hrefusals.trans hbuilding.refusals
      · rw [hcontents]
        exact (Replaced.done all hnone).iff_eq whole
    | true =>
      have hoccurs : ∃ i, OccursAt (viewContents heap search) (contents heap string) i :=
        (hflag.mp rfl).resolve_left Bool.false_ne_true
      obtain ⟨last, hdestroy, hrefusals, huntouched, hvalid, hcontents⟩ :=
        h.swap hbuilding.untouched hbuilding.valid
      dsimp only
      rw [hdestroy]
      refine ⟨true, last, result, rfl, hvalid, huntouched, fun _ => ⟨?_, fun whole => ?_, fun hnone => ?_⟩,
        fun hfalse => (Bool.false_ne_true hfalse.symm).elim⟩
      · exact hrefusals.trans hbuilding.refusals
      · rw [hcontents, hbuilding.holds]
        exact hrest.iff_eq whole
      · obtain ⟨i, hoccurs⟩ := hoccurs
        exact absurd hoccurs (hnone i)
  · obtain ⟨last, hdestroy, hrefusals, huntouched, hvalid, hcontents⟩ :=
      h.aside hstopped.untouched hstopped.valid
    rw [hloop, checked_bind]
    dsimp only
    rw [hdestroy]
    refine ⟨false, last, string, rfl, hvalid, huntouched.weaken _,
      fun htrue => (Bool.false_ne_true htrue).elim, fun _ => ⟨rfl, hcontents, huntouched, ?_⟩⟩
    refine hstopped.reason.imp ?_ fun hlarge => ⟨rest, hrest, hlarge⟩
    rintro (hrefused | hmissing)
    · exact .inl (by rw [hrefusals]; exact hrefused)
    · exact .inr hmissing

/-- For every string, every search that is not empty and every replacement, into the string itself
or outside it: `string_replace_all` replaces each leftmost occurrence that does not overlap the one
before it, and `string_replace` the first; without an occurrence, or when the allocator refuses, the
string stays as it is. -/
theorem replace_leftmost (answers : Answers UInt8) (h : Valid heap string)
    (hsearch : Admissible heap string search) (hreplacement : Admissible heap string replacement)
    (hnonempty : search.length ≠ 0) :
    Replaces true heap string search replacement (stringReplaceAll answers heap string search replacement) ∧
      Replaces false heap string search replacement (stringReplace answers heap string search replacement) :=
  ⟨stringReplaceBuild_spec h hsearch hreplacement hnonempty,
    stringReplaceBuild_spec h hsearch hreplacement hnonempty⟩

/-- In the sixteen letters, the fourth and the fifth are replaced by the first three. -/
theorem sampleString_replaced :
    ∃ ok later result, stringReplaceAll (fun _ _ => some ⟨8192, fun _ => 0⟩) sampleMemory sampleString
        ⟨some 4099, 2⟩ ⟨some 4096, 3⟩ = .ok (ok, later, result) ∧ Valid later result := by
  obtain ⟨ok, later, result, hreplace, hvalid, -⟩ := (@replace_leftmost sampleMemory sampleString
    ⟨some 4099, 2⟩ ⟨some 4096, 3⟩ (fun _ _ => some ⟨8192, fun _ => 0⟩) (.inr ⟨4096, sampleString_stored⟩)
    (.inr (.inl ⟨4096, 4099, rfl, rfl, by decide, by decide⟩))
    (.inr (.inl ⟨4096, 4096, rfl, rfl, by decide, by decide⟩)) (by decide)).1
  exact ⟨ok, later, result, hreplace, hvalid⟩

end Ceasy.OwnedString
