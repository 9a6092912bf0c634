import Ceasy.OwnedStringReplace

set_option autoImplicit false

/-!
# Runs of a string

Storage is allocated when it is needed. `string_reserve` succeeds without any when nothing has to
be held, and `string_copy` and `string_append_format` put their NUL all the same.
-/
namespace Ceasy.OwnedString
open ByteHeap
open StringView (Bytes SIZE_MAX ch)

variable {answers : Answers UInt8} {heap later last : Memory} {string result : String}
  {value search replacement : View} {base address start length capacity needed : ℕ} {bytes : Bytes}

inductive StringOperation where
  | reserve (capacity : ℕ)
  | append (value : View)
  | appendChar (address : ℕ) (value : UInt8)
  | appendFormat (measured : Option ℕ) (written : Option Bytes)
  | prepend (value : View)
  | copy (value : View)
  | clear
  | remove (start length : ℕ)
  | replace (search replacement : View)
  | replaceAll (search replacement : View)
  | upper
  | lower
  | destroy
deriving DecidableEq

def stringPerform (answers : Answers UInt8) (heap : Memory) (string : String) :
    StringOperation → Checked (Memory × String)
  | .reserve capacity => Prod.snd <$> stringReserve answers heap string capacity
  | .append value => Prod.snd <$> stringAppend answers heap string value
  | .appendChar address value => Prod.snd <$> stringAppendChar answers heap string address value
  | .appendFormat measured written => Prod.snd <$> stringAppendFormatV answers heap string measured written
  | .prepend value => Prod.snd <$> stringPrepend answers heap string value
  | .copy value => Prod.snd <$> stringCopy answers heap string value
  | .clear => stringClear heap string
  | .remove start length => Prod.snd <$> stringRemove heap string start length
  | .replace search replacement => Prod.snd <$> stringReplace answers heap string search replacement
  | .replaceAll search replacement => Prod.snd <$> stringReplaceAll answers heap string search replacement
  | .upper => stringUpper heap string
  | .lower => stringLower heap string
  | .destroy => stringDestroy heap string

/-- The views that the operation is given may be given to the string, and sizes have their type. -/
def StringOperation.Allowed (heap : Memory) (string : String) : StringOperation → Prop
  | .reserve capacity => capacity ≤ SIZE_MAX
  | .append value => Admissible heap string value
  | .appendChar address _ => Outside heap string { data := some address, length := 1 }
  | .prepend value => Admissible heap string value
  | .copy value => Admissible heap string value ∧ value.length ≤ SIZE_MAX
  | .replace search replacement => Admissible heap string search ∧ Admissible heap string replacement
  | .replaceAll search replacement => Admissible heap string search ∧ Admissible heap string replacement
  | _ => True

/-- An empty view is copied, or an empty text is formatted, to a string without storage. -/
def NeedsStorage (string : String) : StringOperation → Prop
  | .copy value => string.data = none ∧ value.length = 0
  | .appendFormat measured _ => string.data = none ∧ measured = some 0
  | _ => False

inductive StringOrigin where
  | new (allocator : Allocator)
  | view (allocator : Allocator) (value : View)
  | format (allocator : Allocator) (measured : Option ℕ) (written : Option Bytes)
deriving DecidableEq

def stringBegin (answers : Answers UInt8) (heap : Memory) : StringOrigin → Checked (Memory × String)
  | .new allocator => .ok (heap, stringNew allocator)
  | .view allocator value => stringFrom answers heap allocator value
  | .format allocator measured written => stringFormatV answers heap allocator measured written

def StringOrigin.Allowed (heap : Memory) : StringOrigin → Prop
  | .view allocator value => Admissible heap (stringNew allocator) value ∧ value.length ≤ SIZE_MAX
  | _ => True

def StringOrigin.Empty : StringOrigin → Prop
  | .format _ measured _ => measured = some 0
  | _ => False

/-- The strings that are reached, while the rest of the program does what it likes with the rest of
the memory. -/
inductive StringRun : Memory → String → Prop
  | start {answers : Answers UInt8} {heap later : Memory} {string : String} (origin : StringOrigin)
    (hallowed : origin.Allowed heap) (hbegin : stringBegin answers heap origin = .ok (later, string)) :
    StringRun later string
  | elsewhere {heap later : Memory} {string : String} (h : StringRun heap string)
    (hkept : ∀ block, string.block = some block → block ∈ later.blocks ∧
      ∀ place, block.base ≤ place → place < block.base + block.size → later.bytes place = heap.bytes place) :
    StringRun later string
  | step {answers : Answers UInt8} {heap later : Memory} {string result : String} (operation : StringOperation)
    (h : StringRun heap string) (hallowed : operation.Allowed heap string)
    (hperform : stringPerform answers heap string operation = .ok (later, result)) : StringRun later result

def Safe (outcome : Checked (Memory × String)) : Prop :=
  ∃ later result, outcome = .ok (later, result) ∧ Valid later result

theorem Safe.of_pair {ok : Bool} (h : Valid later result) :
    Safe (Prod.snd <$> (.ok (ok, later, result) : Checked (Bool × Memory × String))) :=
  ⟨later, result, rfl, h⟩

theorem Updates.safe {outcome : Checked (Bool × Memory × String)} (h : Valid heap string)
    (hupdates : Updates heap string needed bytes outcome) : Safe (Prod.snd <$> outcome) := by
  obtain ⟨ok, later, result, rfl, hchanged, hfailed⟩ := hupdates
  cases ok with
  | true => exact .of_pair (hchanged rfl).valid
  | false =>
    have hafter := hfailed rfl
    obtain rfl := hafter.result
    exact .of_pair (h.of_same hafter.blocks hafter.bytes).1

theorem stringReserve_safe (h : Valid heap string) (hcapacity : capacity ≤ SIZE_MAX) :
    Safe (Prod.snd <$> stringReserve answers heap string capacity) := by
  obtain ⟨ok, later, result, hreserve, hreserved, hfailed⟩ :=
    @stringReserve_spec answers heap string capacity h hcapacity
  rw [hreserve]
  cases ok with
  | true => exact .of_pair (hreserved rfl).valid
  | false =>
    have hafter := hfailed rfl
    obtain rfl := hafter.result
    exact .of_pair (h.of_same hafter.blocks hafter.bytes).1

theorem stringAppendChar_safe (h : Valid heap string) (value : UInt8)
    (houtside : Outside heap string { data := some address, length := 1 }) :
    Safe (Prod.snd <$> stringAppendChar answers heap string address value) := by
  obtain ⟨place, hdata, hlive, hapart⟩ := houtside
  obtain rfl := Option.some.inj hdata
  have hvalid : Valid (heap.write address [value]) string := by
    rcases h with hmissing | ⟨base, hstored⟩
    · exact .inl hmissing
    · have hblock := hapart _ hstored.string_block
      have hlength := hstored.length
      unfold Block.Apart at hblock
      dsimp only at hblock
      refine .inr ⟨base, hstored.toStorage.write _ _, hlength, hstored.capacity, ?_⟩
      rw [write_bytes_apart (by rw [List.length_singleton]; omega)]
      exact hstored.nul
  have hstore : heap.store (some address) [value] = .ok (heap.write address [value]) := store_ok hlive
  unfold stringAppendChar
  rw [hstore, checked_bind]
  exact (stringAppend_spec hvalid (.inr (.inr ⟨address, rfl, hlive, hapart⟩))).safe hvalid

theorem Reserved.stored (h : Reserved heap later string result capacity)
    (hneeded : string.data ≠ none ∨ 0 < capacity) : ∃ new, Stored later result new := by
  rcases Nat.eq_zero_or_pos capacity with hzero | hpositive
  · have hsame := h.inPlace (by omega)
    obtain ⟨new, hnew⟩ := Option.ne_none_iff_exists'.mp (hneeded.resolve_right (by omega))
    exact ⟨new, h.valid.lengths.2.2 new (by rw [hsame]; exact hnew)⟩
  · exact h.storage hpositive

/-- What `vsnprintf` writes is in the storage, with its NUL. -/
theorem stringAppendFormatV_safe (h : Valid heap string) (measured : Option ℕ) (written : Option Bytes)
    (hneeded : ¬ (string.data = none ∧ measured = some 0)) :
    Safe (Prod.snd <$> stringAppendFormatV answers heap string measured written) := by
  obtain ⟨hlength, hmax, -⟩ := h.lengths
  unfold stringAppendFormatV
  cases measured with
  | none => exact .of_pair h
  | some measured =>
    dsimp only
    rw [sizeSub_ok (by omega), checked_bind]
    by_cases hroom : SIZE_MAX - string.length < measured
    · rw [if_pos hroom]
      exact .of_pair h
    rw [if_neg hroom, sizeAdd_ok (by omega), checked_bind]
    obtain ⟨ok, later, result, hreserve, hreserved, hfailed⟩ :=
      @stringReserve_spec answers heap string (string.length + measured) h (by omega)
    rw [hreserve, checked_bind]
    cases ok with
    | false =>
      have hafter := hfailed rfl
      obtain rfl := hafter.result
      exact .of_pair (h.of_same hafter.blocks hafter.bytes).1
    | true =>
      have hres := hreserved rfl
      have hfits := hres.fits
      obtain ⟨new, hnew⟩ : ∃ new, Stored later result new := by
        refine hres.stored ?_
        by_contra hnone
        rw [not_or, not_not] at hnone
        exact hneeded ⟨hnone.1, congrArg some (by omega)⟩
      have hnewMax := hnew.capacity
      have hsame : string.length = result.length := hres.length.symm
      dsimp only
      rw [if_neg (Bool.false_ne_true ·.symm), sizeSub_ok (by omega), checked_bind, sizeAdd_ok (by omega),
        checked_bind, hsame]
      cases written with
      | none =>
        dsimp only
        rw [hnew.toStorage.terminate hnew.length]
        exact .of_pair (.inr ⟨new, (hnew.toStorage.stored hnew.length hnewMax).1⟩)
      | some text =>
        have hlength : result.length + (text.take (result.capacity - result.length + 1 - 1) ++ [0]).length ≤
            result.capacity + 1 := by
          rw [List.length_append, List.length_take, List.length_singleton]
          omega
        have hstore := hnew.toStorage.store hlength
        have hwritten := hnew.toStorage.write (new + result.length)
          (text.take (result.capacity - result.length + 1 - 1) ++ [0])
        dsimp only
        rw [hstore, checked_bind]
        by_cases hcut : result.capacity - result.length + 1 ≤ text.length
        · rw [if_pos hcut, hwritten.terminate hnew.length]
          exact .of_pair (.inr ⟨new, (hwritten.stored hnew.length hnewMax).1⟩)
        · rw [if_neg hcut, sizeAdd_ok (by omega)]
          refine .of_pair (.inr ⟨new, ⟨hnew.data, hwritten.block⟩, by dsimp only; omega, hnewMax, ?_⟩)
          rw [List.take_of_length_le (by omega)]
          dsimp only
          rw [← Nat.add_assoc, write_bytes text.length (by simp)]
          simp

theorem stringCopy_safe (h : Valid heap string) (hview : Admissible heap string value)
    (hsize : value.length ≤ SIZE_MAX) (hneeded : ¬ (string.data = none ∧ value.length = 0)) :
    Safe (Prod.snd <$> stringCopy answers heap string value) :=
  (stringCopy_spec h hview (fun hempty hnone => hneeded ⟨hnone, hempty⟩) hsize).safe h

theorem stringClear_safe (h : Valid heap string) : Safe (stringClear heap string) := by
  unfold stringClear
  dsimp only
  rcases h with hmissing | ⟨base, hstored⟩
  · rw [if_neg (not_not.mpr hmissing.data)]
    exact ⟨heap, _, rfl, .inl ⟨hmissing.data, rfl, hmissing.capacity⟩⟩
  · have hdata : string.data ≠ none := by rw [hstored.data]; exact Option.some_ne_none _
    have hstorage : Storage heap { string with length := 0 } base := ⟨hstored.data, hstored.block⟩
    rw [if_pos hdata, hstorage.terminate (Nat.zero_le _)]
    exact ⟨_, _, rfl, .inr ⟨base, (hstorage.stored (Nat.zero_le _) hstored.capacity).1⟩⟩

theorem stringMapBytes_safe (h : Valid heap string) (change : UInt8 → UInt8) :
    Safe (stringMapBytes change heap string) := by
  unfold stringMapBytes
  rcases h with hmissing | ⟨base, hstored⟩
  · rw [if_pos hmissing.data]
    exact ⟨heap, string, rfl, .inl hmissing⟩
  · have hlength := hstored.length
    have hlive : heap.Live ⟨base, string.length⟩ := live_front hstored.block (by dsimp only; omega)
    have hstore : heap.store (some base) ((heap.read base string.length).map change) =
        .ok (heap.write base ((heap.read base string.length).map change)) :=
      store_ok (by rw [List.length_map, read_length]; exact hlive)
    rw [if_neg (by rw [hstored.data]; exact Option.some_ne_none _), hstored.data, load_ok hlive,
      checked_bind, hstore]
    refine ⟨_, _, rfl, .inr ⟨base, hstored.toStorage.write _ _, hlength, hstored.capacity, ?_⟩⟩
    rw [write_bytes_apart (by rw [List.length_map, read_length]; omega)]
    exact hstored.nul

theorem stringRemove_safe (h : Valid heap string) (start length : ℕ) :
    Safe (Prod.snd <$> stringRemove heap string start length) := by
  unfold stringRemove
  by_cases hstart : string.length < start
  · rw [if_pos hstart]
    exact .of_pair h
  rw [if_neg hstart, sizeSub_ok (by omega), checked_bind]
  generalize hremoved : (if string.length - start < length then string.length - start else length) = removed
  have hle : removed ≤ string.length - start := by
    rw [← hremoved]
    split_ifs <;> omega
  dsimp only
  rcases h with hmissing | ⟨base, hstored⟩
  · rw [hmissing.data]
    exact .of_pair (.inl hmissing)
  · have hlength := hstored.length
    have hcapacity := hstored.capacity
    have hsource : heap.Live ⟨base + start + removed, string.length - start - removed + 1⟩ := by
      rw [Nat.add_assoc]
      exact hstored.toStorage.live (by omega)
    have htarget : heap.Live ⟨base + start, string.length - start - removed + 1⟩ :=
      hstored.toStorage.live (by omega)
    rw [hstored.data]
    dsimp only
    rw [sizeSub_ok hle, checked_bind, sizeAdd_ok (by omega), checked_bind, move_ok hsource htarget, checked_bind,
      sizeSub_ok (by omega), checked_bind]
    refine .of_pair (.inr ⟨base, ⟨rfl, hstored.block⟩, by dsimp only; omega, hcapacity, ?_⟩)
    have hplace : base + (string.length - removed) = base + start + (string.length - start - removed) := by omega
    have hlast : base + start + removed + (string.length - start - removed) = base + string.length := by omega
    dsimp only
    rw [hplace, write_bytes _ (by rw [read_length]; omega)]
    have hnul := read_getElem? heap (base + start + removed) (string.length - start - removed + 1)
      (string.length - start - removed)
    rw [if_pos (Nat.lt_succ_self _), hlast, hstored.nul] at hnul
    exact (List.getElem_eq_iff _).mpr hnul

theorem stringDestroy_safe (h : Valid heap string) : Safe (stringDestroy heap string) := by
  obtain ⟨later, hdestroy, -⟩ := stringDestroy_spec h
  exact ⟨later, _, hdestroy, .inl ⟨rfl, rfl, rfl⟩⟩

theorem stringReplaceBuild_safe {all : Bool} (h : Valid heap string)
    (hsearch : Admissible heap string search) (hreplacement : Admissible heap string replacement) :
    Safe (Prod.snd <$> stringReplaceBuild answers heap string search replacement all) := by
  by_cases hempty : search.length = 0
  · unfold stringReplaceBuild
    rw [dif_pos (.inl hempty)]
    exact .of_pair h
  · obtain ⟨ok, later, result, hreplace, hvalid, -⟩ :=
      @stringReplaceBuild_spec answers heap string search replacement all h hsearch hreplacement hempty
    rw [hreplace]
    exact .of_pair hvalid

theorem stringNew_valid (heap : Memory) (allocator : Allocator) : Valid heap (stringNew allocator) :=
  .inl ⟨rfl, rfl, rfl⟩

theorem stringFrom_safe (allocator : Allocator) (hview : Admissible heap (stringNew allocator) value)
    (hsize : value.length ≤ SIZE_MAX) : Safe (stringFrom answers heap allocator value) := by
  have h := stringNew_valid heap allocator
  unfold stringFrom
  dsimp only
  rw [hview.valid, if_neg (Bool.false_ne_true ·.symm)]
  obtain ⟨ok, later, result, hreserve, hreserved, hfailed⟩ :=
    @stringReserve_spec answers heap (stringNew allocator) value.length h hsize
  rw [hreserve, checked_bind]
  cases ok with
  | false =>
    have hafter := hfailed rfl
    obtain rfl := hafter.result
    exact ⟨later, _, rfl, .inl ⟨rfl, rfl, rfl⟩⟩
  | true =>
    have hres := hreserved rfl
    dsimp only
    rw [if_neg (Bool.false_ne_true ·.symm)]
    by_cases hempty : value.length = 0
    · obtain rfl := hres.inPlace (by omega)
      rw [if_neg (not_not.mpr hempty), checked_bind]
      exact ⟨later, _, rfl, .inl ⟨rfl, hempty, rfl⟩⟩
    · obtain ⟨new, hnew⟩ := hres.storage (Nat.pos_of_ne_zero hempty)
      have hfits := hres.fits
      have hmax := hnew.capacity
      have houtside : Outside heap (stringNew allocator) value := by
        rcases hview with hzero | ⟨base, address, hbase, -⟩ | houtside
        · exact absurd hzero hempty
        · cases hbase
        · exact houtside
      obtain ⟨address, hdata, block, hmem, hne, hwithin⟩ := houtside.block (Nat.pos_of_ne_zero hempty)
      obtain ⟨hlater, -, -⟩ := hres.untouched.block block hmem hne
      have htarget : later.Live ⟨new + 0, value.length⟩ := hnew.toStorage.live (by omega)
      have hmove : later.move result.data value.data value.length =
          .ok (later.write new (later.read address value.length)) := by
        rw [hnew.data, hdata]
        exact move_ok ⟨block, hlater, hwithin⟩ htarget
      have hstorage : Storage (later.write new (later.read address value.length))
          { result with length := value.length } new := ⟨hnew.data, hnew.block⟩
      rw [if_pos hempty, hmove, checked_bind]
      rw [if_pos (by rw [hnew.data]; exact Option.some_ne_none _), hstorage.terminate hfits]
      exact ⟨_, _, rfl, .inr ⟨new, (hstorage.stored hfits hmax).1⟩⟩

theorem stringFormatV_safe (allocator : Allocator) (measured : Option ℕ) (written : Option Bytes)
    (hneeded : measured ≠ some 0) : Safe (stringFormatV answers heap allocator measured written) := by
  obtain ⟨later, result, hformat, hvalid⟩ := @stringAppendFormatV_safe answers heap (stringNew allocator)
    (stringNew_valid heap allocator) measured written fun hboth => hneeded hboth.2
  unfold stringFormatV
  cases happend : stringAppendFormatV answers heap (stringNew allocator) measured written with
  | error fault =>
    rw [happend] at hformat
    cases hformat
  | ok outcome =>
    obtain ⟨ok, later', result'⟩ := outcome
    rw [happend] at hformat
    cases hformat
    rw [checked_bind]
    cases ok with
    | true => exact ⟨later, result, rfl, hvalid⟩
    | false => exact stringDestroy_safe hvalid

theorem stringReserve_nothing (hdata : string.data = none) (hlength : string.length = 0)
    (hcapacity : string.capacity = 0) :
    stringReserve answers heap string 0 = .ok (true, heap, string) := by
  unfold stringReserve
  rw [if_neg (by omega), if_pos (by omega), hdata]
  rfl

theorem stringTerminate_null (hdata : string.data = none) (index : ℕ) :
    stringTerminate heap string index = .error .null := by
  unfold stringTerminate
  rw [hdata]
  rfl

theorem stringCopy_null (h : Valid heap string) (hdata : string.data = none) (hempty : value.length = 0) :
    stringCopy answers heap string value = .error .null := by
  rcases h with hmissing | ⟨base, hstored⟩
  · have hoffset : stringStorageOffset string value.data = none := by
      unfold stringStorageOffset
      rw [hdata]
    have hnull : stringTerminate heap { string with length := value.length } value.length = .error .null :=
      stringTerminate_null hdata _
    unfold stringCopy
    rw [if_neg (by simp [stringvValid, hempty]), hempty,
      stringReserve_nothing hdata hmissing.length hmissing.capacity, checked_bind]
    dsimp only
    rw [if_neg (Bool.false_ne_true ·.symm), hoffset, stringRebaseView]
    rw [if_neg (not_not.mpr hempty), checked_bind, hnull]
    rfl
  · rw [hstored.data] at hdata
    cases hdata

theorem stringAppendFormatV_null (h : Valid heap string) (hdata : string.data = none)
    (written : Option Bytes) : stringAppendFormatV answers heap string (some 0) written = .error .null := by
  rcases h with hmissing | ⟨base, hstored⟩
  · have hlength := hmissing.length
    have hcapacity := hmissing.capacity
    unfold stringAppendFormatV
    dsimp only
    rw [hlength, sizeSub_ok (Nat.zero_le _), checked_bind, if_neg (Nat.not_lt_zero _),
      sizeAdd_ok (Nat.zero_le _), checked_bind, stringReserve_nothing hdata hlength hcapacity, checked_bind]
    dsimp only
    rw [if_neg (Bool.false_ne_true ·.symm), hcapacity, sizeSub_ok (Nat.le_refl _), checked_bind,
      sizeAdd_ok (by decide), checked_bind]
    cases written with
    | none =>
      dsimp only
      rw [stringTerminate_null hdata]
      rfl
    | some text =>
      dsimp only
      rw [hdata]
      rfl
  · rw [hstored.data] at hdata
    cases hdata

theorem stringPerform_safe (h : Valid heap string) (operation : StringOperation)
    (hallowed : operation.Allowed heap string) (hneeded : ¬ NeedsStorage string operation) :
    Safe (stringPerform answers heap string operation) := by
  cases operation with
  | reserve capacity => exact stringReserve_safe h hallowed
  | append value => exact (stringAppend_spec h hallowed).safe h
  | appendChar address value => exact stringAppendChar_safe h value hallowed
  | appendFormat measured written => exact stringAppendFormatV_safe h measured written hneeded
  | prepend value => exact (stringPrepend_spec h hallowed).safe h
  | copy value => exact stringCopy_safe h hallowed.1 hallowed.2 hneeded
  | clear => exact stringClear_safe h
  | remove start length => exact stringRemove_safe h start length
  | replace search replacement => exact stringReplaceBuild_safe h hallowed.1 hallowed.2
  | replaceAll search replacement => exact stringReplaceBuild_safe h hallowed.1 hallowed.2
  | upper => exact stringMapBytes_safe h asciiUpper
  | lower => exact stringMapBytes_safe h asciiLower
  | destroy => exact stringDestroy_safe h

theorem stringPerform_null (h : Valid heap string) (operation : StringOperation)
    (hneeded : NeedsStorage string operation) :
    stringPerform answers heap string operation = .error .null := by
  cases operation with
  | copy value =>
    rw [stringPerform, stringCopy_null h hneeded.1 hneeded.2]
    rfl
  | appendFormat measured written =>
    obtain ⟨hdata, rfl⟩ := hneeded
    rw [stringPerform, stringAppendFormatV_null h hdata]
    rfl
  | _ => exact hneeded.elim

theorem stringBegin_safe (origin : StringOrigin) (hallowed : origin.Allowed heap) (hfull : ¬ origin.Empty) :
    Safe (stringBegin answers heap origin) := by
  cases origin with
  | new allocator => exact ⟨heap, _, rfl, stringNew_valid heap allocator⟩
  | view allocator value => exact stringFrom_safe allocator hallowed.1 hallowed.2
  | format allocator measured written => exact stringFormatV_safe allocator measured written hfull

theorem stringBegin_null (origin : StringOrigin) (hempty : origin.Empty) :
    stringBegin answers heap origin = .error .null := by
  cases origin with
  | format allocator measured written =>
    obtain rfl : measured = some 0 := hempty
    rw [stringBegin, stringFormatV, stringAppendFormatV_null (stringNew_valid heap allocator) rfl]
    rfl
  | _ => exact hempty.elim

theorem Safe.valid {outcome : Checked (Memory × String)} (h : Safe outcome) (hok : outcome = .ok (later, result)) :
    Valid later result := by
  obtain ⟨later', result', heq, hvalid⟩ := h
  rw [hok] at heq
  cases heq
  exact hvalid

theorem StringRun.valid (h : StringRun heap string) : Valid heap string := by
  induction h with
  | @start answers _ _ _ origin hallowed hbegin =>
    by_cases hempty : origin.Empty
    · rw [stringBegin_null origin hempty] at hbegin
      cases hbegin
    · exact (stringBegin_safe origin hallowed hempty).valid hbegin
  | elsewhere _ hkept ih =>
    rcases ih with hmissing | ⟨base, hstored⟩
    · exact .inl hmissing
    · obtain ⟨hlater, hsame⟩ := hkept _ hstored.string_block
      have hlength := hstored.length
      refine .inr ⟨base, ⟨hstored.data, hlater⟩, hlength, hstored.capacity, ?_⟩
      rw [hsame _ (Nat.le_add_right _ _) (by dsimp only; omega)]
      exact hstored.nul
  | @step _ heap _ string _ operation _ hallowed hperform ih =>
    by_cases hneeded : NeedsStorage string operation
    · rw [stringPerform_null ih operation hneeded] at hperform
      cases hperform
    · exact (stringPerform_safe ih operation hallowed hneeded).valid hperform

/-- In every run the string is without storage, or its length is within its capacity with a NUL
after its contents. An operation stores through a null pointer exactly when it copies an empty view
or formats an empty text to a string without storage, and otherwise it has no fault and the run goes
on. A string begins with such a fault exactly when an empty text is formatted. -/
theorem storage_needed (answers : Answers UInt8) (h : StringRun heap string) :
    (Missing string ∨ ∃ base, Stored heap string base) ∧
      (∀ operation : StringOperation, operation.Allowed heap string →
        (stringPerform answers heap string operation = .error .null ↔ NeedsStorage string operation) ∧
          (¬ NeedsStorage string operation →
            ∃ later result, stringPerform answers heap string operation = .ok (later, result) ∧
              StringRun later result)) ∧
      ∀ origin : StringOrigin, origin.Allowed heap →
        (stringBegin answers heap origin = .error .null ↔ origin.Empty) ∧
          (¬ origin.Empty → ∃ later result, stringBegin answers heap origin = .ok (later, result) ∧
            StringRun later result) := by
  refine ⟨h.valid, fun operation hallowed => ?_, fun origin hallowed => ?_⟩
  · refine ⟨⟨fun hnull => ?_, stringPerform_null h.valid operation⟩, fun hneeded => ?_⟩
    · by_contra hneeded
      obtain ⟨later, result, hok, -⟩ := @stringPerform_safe answers heap string h.valid operation hallowed hneeded
      cases hok.symm.trans hnull
    · obtain ⟨later, result, hok, -⟩ := @stringPerform_safe answers heap string h.valid operation hallowed hneeded
      exact ⟨later, result, hok, .step operation h hallowed hok⟩
  · refine ⟨⟨fun hnull => ?_, stringBegin_null origin⟩, fun hfull => ?_⟩
    · by_contra hfull
      obtain ⟨later, result, hok, -⟩ := @stringBegin_safe answers heap origin hallowed hfull
      cases hok.symm.trans hnull
    · obtain ⟨later, result, hok, -⟩ := @stringBegin_safe answers heap origin hallowed hfull
      exact ⟨later, result, hok, .start origin hallowed hok⟩

theorem stringNew_run (heap : Memory) (allocator : Allocator) : StringRun heap (stringNew allocator) :=
  @StringRun.start (fun _ _ => none) heap heap _ (.new allocator) trivial rfl

/-- A letter, formatted to a new string. -/
theorem stringNew_formatted :
    ∃ later result, stringPerform (fun _ _ => some ⟨8192, fun _ => 0⟩) sampleMemory (stringNew allocatorHeap)
        (.appendFormat (some 1) (some [ch 'a'])) = .ok (later, result) ∧ StringRun later result :=
  ((storage_needed _ (stringNew_run sampleMemory allocatorHeap)).2.1
    (.appendFormat (some 1) (some [ch 'a'])) trivial).2 (by rintro ⟨-, ⟨⟩⟩)

/-- A heap string that was just made, given an empty view to copy or an empty text to format, stores
its NUL through a null pointer; and so does `string_format` with an empty result. -/
theorem stringNew_stores_null :
    StringRun sampleMemory (stringNew allocatorHeap) ∧
      stringPerform (fun _ _ => some ⟨8192, fun _ => 0⟩) sampleMemory (stringNew allocatorHeap) (.copy {}) =
        .error .null ∧
      stringPerform (fun _ _ => some ⟨8192, fun _ => 0⟩) sampleMemory (stringNew allocatorHeap)
        (.appendFormat (some 0) (some [])) = .error .null ∧
      stringBegin (fun _ _ => some ⟨8192, fun _ => 0⟩) sampleMemory
        (.format allocatorHeap (some 0) (some [])) = .error .null :=
  ⟨stringNew_run _ _, rfl, rfl, rfl⟩

end Ceasy.OwnedString
