import Ceasy.OwnedStringReserve

set_option autoImplicit false

/-!
# Updates that may read what they change

`string_append`, `string_prepend` and `string_copy` take views into the contents of the string
itself. Growing moves the bytes that the view shows, prepending moves them up, and copying writes
over them; the result is that of the bytes as they were before.
-/
namespace Ceasy.OwnedString
open ByteHeap
open StringView (Bytes SIZE_MAX ch)

variable {answers : Answers UInt8} {heap later last : Memory} {string result : String} {value : View}
  {base address length capacity needed : ℕ} {bytes : Bytes}

def Inside (string : String) (value : View) : Prop :=
  ∃ base address, string.data = some base ∧ value.data = some address ∧ base ≤ address ∧
    address + value.length ≤ base + string.length

def Outside (heap : Memory) (string : String) (value : View) : Prop :=
  ∃ address, value.data = some address ∧ heap.Live ⟨address, value.length⟩ ∧
    ∀ block, string.block = some block → Block.Apart ⟨address, value.length⟩ block

def Admissible (heap : Memory) (string : String) (value : View) : Prop :=
  value.length = 0 ∨ Inside string value ∨ Outside heap string value

theorem Admissible.valid (h : Admissible heap string value) : stringvValid value = true := by
  unfold stringvValid
  rcases h with hempty | ⟨-, address, -, hdata, -⟩ | ⟨address, hdata, -⟩
  · simp [hempty]
  · simp [hdata]
  · simp [hdata]

theorem viewContents_empty (h : value.length = 0) : viewContents heap value = [] := by
  unfold viewContents
  cases value.data with
  | none => rfl
  | some address =>
    dsimp only
    rw [h]
    rfl

theorem viewContents_eq (h : value.data = some address) :
    viewContents heap value = heap.read address value.length := by
  rw [viewContents, h]

theorem Outside.block (h : Outside heap string value) (hpositive : 0 < value.length) :
    ∃ address, value.data = some address ∧ ∃ block ∈ heap.blocks, some block ≠ string.block ∧
      Block.Within ⟨address, value.length⟩ block := by
  obtain ⟨address, hdata, ⟨block, hmem, hwithin⟩, hapart⟩ := h
  refine ⟨address, hdata, block, hmem, ?_, hwithin⟩
  intro heq
  have hstring := hapart block heq.symm
  unfold Block.Apart at hstring
  unfold Block.Within at hwithin
  dsimp only at hstring hwithin
  omega

theorem stringStorageOffset_outside (h : Outside heap string value) (hpositive : 0 < value.length) :
    stringStorageOffset string value.data = none := by
  obtain ⟨address, hdata, -, hapart⟩ := h
  unfold stringStorageOffset
  rw [hdata]
  cases hbase : string.data with
  | none => rfl
  | some base =>
    have hblock : string.block = some ⟨base, string.capacity + 1⟩ := by
      rw [String.block, hbase]
      rfl
    have hstring := hapart _ hblock
    unfold Block.Apart at hstring
    dsimp only at hstring ⊢
    rw [if_pos (by omega)]

theorem stringStorageOffset_inside {offset : ℕ} (h : Stored heap string base)
    (hdata : value.data = some (base + offset)) (hle : offset ≤ string.length) :
    stringStorageOffset string value.data = some offset := by
  have hlength := h.length
  have hcapacity := h.capacity
  unfold stringStorageOffset
  rw [hdata, h.data]
  dsimp only
  rw [if_neg (by omega), Nat.add_sub_cancel_left]

/-- After reserving, the bytes of the view are where the rebased view says. -/
theorem Reserved.rebase (h : Reserved heap later string result capacity) (hvalid : Valid heap string)
    (hview : Admissible heap string value) (hpositive : 0 < value.length) :
    ∃ address, stringRebaseView result value (stringStorageOffset string value.data) =
        { data := some address, length := value.length } ∧ later.Live ⟨address, value.length⟩ ∧
      later.read address value.length = viewContents heap value := by
  rcases hview with hempty | hinside | houtside
  · omega
  · obtain ⟨base, address, hbase, hdata, hlow, hhigh⟩ := hinside
    obtain ⟨offset, rfl⟩ := Nat.exists_eq_add_of_le hlow
    have hstored := hvalid.lengths.2.2 base hbase
    have hle : offset ≤ string.length := by omega
    have hlength := hstored.length
    rw [stringStorageOffset_inside hstored hdata hle]
    rcases h.valid with hmissing | ⟨new, hnew⟩
    · have hnone := hmissing.length
      rw [h.length] at hnone
      omega
    · have hnewLength := hnew.length
      rw [h.length] at hnewLength
      refine ⟨new + offset, by rw [stringRebaseView, hnew.data]; rfl, hnew.toStorage.live (by omega), ?_⟩
      have hcontents := h.holds
      rw [hnew.contents_eq, hstored.contents_eq, h.length] at hcontents
      have hpart := congrArg (fun bytes => (bytes.drop offset).take value.length) hcontents
      rw [read_drop _ _ hle, read_drop _ _ hle, read_take _ _ (by omega), read_take _ _ (by omega)] at hpart
      rw [viewContents_eq hdata]
      exact hpart
  · obtain ⟨address, hdata, block, hmem, hne, hwithin⟩ := houtside.block hpositive
    rw [stringStorageOffset_outside houtside hpositive]
    obtain ⟨hlater, -, -⟩ := h.untouched.block block hmem hne
    refine ⟨address, ?_, ⟨block, hlater, hwithin⟩, ?_⟩
    · rw [stringRebaseView, ← hdata]
    · rw [viewContents_eq hdata]
      exact h.untouched.read hmem hne hwithin

/-- The string has new contents, and the rest of the memory is as it was. -/
structure Changed (heap later : Memory) (string result : String) (bytes : Bytes) : Prop where
  valid : Valid later result
  holds : contents later result = bytes
  untouched : Untouched heap later string.block result.block
  allocator : result.allocator = string.allocator
  refusals : later.refusals = heap.refusals
  kept : string.data ≠ none → result.data ≠ none

def Updates (heap : Memory) (string : String) (needed : ℕ) (bytes : Bytes)
    (outcome : Checked (Bool × Memory × String)) : Prop :=
  ∃ ok later result, outcome = .ok (ok, later, result) ∧
    (ok = true → Changed heap later string result bytes) ∧
    (ok = false → Failed heap later string result needed)

theorem Updates.changed (h : Changed heap later string result bytes) (needed : ℕ) :
    Updates heap string needed bytes (.ok (true, later, result)) :=
  ⟨true, later, result, rfl, fun _ => h, fun hfalse => (Bool.false_ne_true hfalse.symm).elim⟩

theorem Updates.failed (h : Failed heap later string result needed) (bytes : Bytes) :
    Updates heap string needed bytes (.ok (false, later, result)) :=
  ⟨false, later, result, rfl, fun htrue => (Bool.false_ne_true htrue).elim, fun _ => h⟩

theorem Changed.refl (h : Valid heap string) : Changed heap heap string string (contents heap string) :=
  ⟨h, rfl, .refl _ _, rfl, rfl, id⟩

/-- Storage that was reserved, with new contents written to its beginning and a NUL after them. -/
theorem Reserved.changed {new : ℕ} (h : Reserved heap later string result capacity)
    (hstorage : Storage last result new) (hwritten : Untouched heap last string.block result.block)
    (hrefusals : last.refusals = later.refusals) (hlength : length ≤ capacity)
    (hcontents : last.read new length = bytes) :
    ∃ last', stringTerminate last { result with length := length } length = .ok last' ∧
      Changed heap last' string { result with length := length } bytes := by
  have hmax := h.valid.lengths.2.1
  have hfits := hlength.trans h.fits
  have hsame : Storage last { result with length := length } new := ⟨hstorage.data, hstorage.block⟩
  obtain ⟨hstored, hread⟩ := hsame.stored hfits hmax
  refine ⟨_, hsame.terminate hfits, .inr ⟨new, hstored⟩, hread.trans hcontents, ?_, h.allocator,
    hrefusals.trans h.refusals, ?_⟩
  · exact hwritten.write hstorage (Nat.add_le_add_right hfits 1)
  · intro _ hnone
    cases hstorage.data.symm.trans hnone

theorem Reserved.storage (h : Reserved heap later string result capacity) (hpositive : 0 < capacity) :
    ∃ new, Stored later result new := by
  rcases h.valid with hmissing | hstored
  · have hfits := h.fits
    rw [hmissing.capacity] at hfits
    omega
  · exact hstored

theorem stringAppend_spec (h : Valid heap string) (hview : Admissible heap string value) :
    Updates heap string (string.length + value.length) (contents heap string ++ viewContents heap value)
      (stringAppend answers heap string value) := by
  obtain ⟨hlength, hmax, -⟩ := h.lengths
  unfold stringAppend
  rw [sizeSub_ok (by omega), checked_bind, hview.valid]
  by_cases hroom : SIZE_MAX - string.length < value.length
  · rw [if_pos (.inr hroom)]
    exact .failed ⟨rfl, rfl, rfl, .inr (by omega)⟩ _
  rw [if_neg (by simp [hroom])]
  by_cases hempty : value.length = 0
  · rw [if_pos hempty, viewContents_empty hempty, List.append_nil]
    exact .changed (.refl h) _
  rw [if_neg hempty, sizeAdd_ok (by omega), checked_bind]
  obtain ⟨ok, later, result, hreserve, hreserved, hfailed⟩ :=
    @stringReserve_spec answers heap string (string.length + value.length) h (by omega)
  rw [hreserve, checked_bind]
  cases ok with
  | false => exact .failed (hfailed rfl) _
  | true =>
    have hres := hreserved rfl
    obtain ⟨address, hrebase, hlive, hread⟩ := hres.rebase h hview (by omega)
    obtain ⟨new, hnew⟩ := hres.storage (by omega)
    have hfits := hres.fits
    have hresultLength := hres.length
    dsimp only
    rw [if_neg (Bool.false_ne_true ·.symm), hrebase]
    dsimp only
    have hmove : later.move (result.data.map (· + result.length)) (some address) value.length =
        .ok (later.write (new + result.length) (viewContents heap value)) := by
      rw [hnew.data, Option.map_some, move_ok hlive (hnew.toStorage.live (by omega)), hread]
    have hviewLength : (viewContents heap value).length = value.length := by
      rw [← hread, read_length]
    have hcontents : (later.write (new + result.length) (viewContents heap value)).read new
        (string.length + value.length) = contents heap string ++ viewContents heap value := by
      have hback := read_write later (new + result.length) (viewContents heap value)
      rw [hviewLength] at hback
      rw [read_add, ← hresultLength, hback, read_write_apart (.inl (Nat.le_refl _)), ← hnew.contents_eq,
        hres.holds]
    obtain ⟨last, hterminate, hchanged⟩ := hres.changed (hnew.toStorage.write _ _)
      (hres.untouched.write hnew.toStorage (by rw [hviewLength]; omega)) rfl (Nat.le_refl _) hcontents
    rw [hmove, checked_bind, hterminate]
    exact .changed hchanged _

theorem stringCopy_spec (h : Valid heap string) (hview : Admissible heap string value)
    (hstorage : value.length = 0 → string.data ≠ none) (hsize : value.length ≤ SIZE_MAX) :
    Updates heap string value.length (viewContents heap value) (stringCopy answers heap string value) := by
  unfold stringCopy
  rw [hview.valid, if_neg (Bool.false_ne_true ·.symm)]
  obtain ⟨ok, later, result, hreserve, hreserved, hfailed⟩ :=
    @stringReserve_spec answers heap string value.length h hsize
  dsimp only
  rw [hreserve, checked_bind]
  cases ok with
  | false => exact .failed (hfailed rfl) _
  | true =>
    have hres := hreserved rfl
    dsimp only
    rw [if_neg (Bool.false_ne_true ·.symm)]
    by_cases hempty : value.length = 0
    · have hsame := hres.inPlace (by omega)
      have hdata : string.data ≠ none := hstorage hempty
      obtain ⟨new, hnew⟩ := Option.ne_none_iff_exists'.mp hdata
      have hstored := hres.valid.lengths.2.2 new (by rw [hsame]; exact hnew)
      have hrebased (offset : Option ℕ) : (stringRebaseView result value offset).length = 0 := by
        cases offset with
        | none => exact hempty
        | some offset => exact hempty
      rw [hrebased, if_neg (by simp), checked_bind, viewContents_empty hempty]
      obtain ⟨last, hterminate, hchanged⟩ := hres.changed hstored.toStorage hres.untouched rfl
        (Nat.zero_le _) (rfl : later.read new 0 = [])
      rw [hterminate]
      exact .changed hchanged _
    · obtain ⟨address, hrebase, hlive, hread⟩ := hres.rebase h hview (by omega)
      obtain ⟨new, hnew⟩ := hres.storage (Nat.pos_of_ne_zero hempty)
      have hfits := hres.fits
      have hviewLength : (viewContents heap value).length = value.length := by
        rw [← hread, read_length]
      have hmove : later.move result.data (some address) value.length =
          .ok (later.write (new + 0) (viewContents heap value)) := by
        have hlive' : later.Live ⟨new + 0, value.length⟩ := hnew.toStorage.live (by omega)
        rw [hnew.data, ← hread]
        exact move_ok hlive hlive'
      have hcontents : (later.write (new + 0) (viewContents heap value)).read new value.length =
          viewContents heap value := by
        have hback := read_write later new (viewContents heap value)
        rwa [hviewLength] at hback
      obtain ⟨last, hterminate, hchanged⟩ := hres.changed (hnew.toStorage.write _ _)
        (hres.untouched.write hnew.toStorage (by rw [hviewLength]; omega)) rfl (Nat.le_refl _) hcontents
      rw [hrebase]
      dsimp only
      rw [if_pos hempty, hmove, checked_bind, hterminate]
      exact .changed hchanged _

/-- What the storage shows after the contents have moved up: the view's bytes, a view's length
higher where it was inside. -/
theorem Reserved.shift {new : ℕ} (h : Reserved heap later string result capacity) (hvalid : Valid heap string)
    (hview : Admissible heap string value) (hpositive : 0 < value.length)
    (hroom : string.length + value.length ≤ capacity) (hmax : string.length + value.length ≤ SIZE_MAX)
    (hnew : Stored later result new) (hmoved : last = later.write (new + value.length)
      (later.read new (string.length + 1))) :
    (stringStorageOffset string value.data).any (SIZE_MAX - value.length < ·) = false ∧
      ∃ address, stringShiftView result value (stringStorageOffset string value.data) =
          .ok { data := some address, length := value.length } ∧
        last.Live ⟨address, value.length⟩ ∧ last.read address value.length = viewContents heap value := by
  have hfits := hroom.trans h.fits
  rcases hview with hempty | hinside | houtside
  · omega
  · obtain ⟨base, address, hbase, hdata, hlow, hhigh⟩ := hinside
    obtain ⟨offset, rfl⟩ := Nat.exists_eq_add_of_le hlow
    have hstored := hvalid.lengths.2.2 base hbase
    have hle : offset ≤ string.length := by omega
    rw [stringStorageOffset_inside hstored hdata hle, Option.any_some]
    refine ⟨decide_eq_false (by omega), new + (offset + value.length), ?_, ?_, ?_⟩
    · rw [stringShiftView, sizeAdd_ok (by omega), hnew.data]
      rfl
    · subst hmoved
      exact (hnew.toStorage.write _ _).live (by omega)
    · have hback : last.read (new + value.length) (string.length + 1) = later.read new (string.length + 1) := by
        have hwritten := read_write later (new + value.length) (later.read new (string.length + 1))
        rw [read_length] at hwritten
        rw [hmoved]
        exact hwritten
      have hcontents := h.holds
      rw [hnew.contents_eq, hstored.contents_eq, h.length] at hcontents
      have hold := congrArg (fun bytes => (bytes.drop offset).take value.length) hcontents
      have hpart := congrArg (fun bytes => (bytes.drop offset).take value.length) hback
      rw [read_drop _ _ hle, read_drop _ _ hle, read_take _ _ (by omega), read_take _ _ (by omega)] at hold
      rw [read_drop _ _ (by omega), read_drop _ _ (by omega), read_take _ _ (by omega),
        read_take _ _ (by omega), hold, Nat.add_assoc, Nat.add_comm value.length] at hpart
      rw [viewContents_eq hdata]
      exact hpart
  · obtain ⟨address, hdata, block, hmem, hne, hwithin⟩ := houtside.block hpositive
    rw [stringStorageOffset_outside houtside hpositive]
    have hwritten : Untouched heap last string.block result.block := by
      rw [hmoved]
      exact h.untouched.write hnew.toStorage (by rw [read_length]; omega)
    obtain ⟨hlast, -, -⟩ := hwritten.block block hmem hne
    refine ⟨rfl, address, ?_, ⟨block, hlast, hwithin⟩, ?_⟩
    · rw [stringShiftView, ← hdata]
      rfl
    · rw [viewContents_eq hdata]
      exact hwritten.read hmem hne hwithin

theorem stringPrepend_spec (h : Valid heap string) (hview : Admissible heap string value) :
    Updates heap string (string.length + value.length) (viewContents heap value ++ contents heap string)
      (stringPrepend answers heap string value) := by
  obtain ⟨hlength, hmax, -⟩ := h.lengths
  unfold stringPrepend
  rw [sizeSub_ok (by omega), checked_bind, hview.valid]
  by_cases hroom : SIZE_MAX - string.length < value.length
  · rw [if_pos (.inr hroom)]
    exact .failed ⟨rfl, rfl, rfl, .inr (by omega)⟩ _
  rw [if_neg (by simp [hroom])]
  by_cases hempty : value.length = 0
  · rw [if_pos hempty, viewContents_empty hempty, List.nil_append]
    exact .changed (.refl h) _
  rw [if_neg hempty]
  dsimp only
  rw [sizeAdd_ok (by omega), checked_bind]
  obtain ⟨ok, later, result, hreserve, hreserved, hfailed⟩ :=
    @stringReserve_spec answers heap string (string.length + value.length) h (by omega)
  rw [hreserve, checked_bind]
  cases ok with
  | false => exact .failed (hfailed rfl) _
  | true =>
    have hres := hreserved rfl
    obtain ⟨new, hnew⟩ := hres.storage (by omega)
    have hfits := hres.fits
    have hmove : later.move (result.data.map (· + value.length)) result.data (string.length + 1) =
        .ok (later.write (new + value.length) (later.read new (string.length + 1))) := by
      have hsource : later.Live ⟨new + 0, string.length + 1⟩ := hnew.toStorage.live (by omega)
      rw [hnew.data, Option.map_some]
      exact move_ok hsource (hnew.toStorage.live (by omega))
    obtain ⟨hlimit, address, hshift, hlive, hread⟩ := hres.shift h
      hview (Nat.pos_of_ne_zero hempty) (Nat.le_refl _) (by omega) hnew rfl
    have hviewLength : (viewContents heap value).length = value.length := by
      rw [← hread, read_length]
    have huntouched : Untouched heap (later.write (new + value.length) (later.read new (string.length + 1)))
        string.block result.block :=
      hres.untouched.write hnew.toStorage (by rw [read_length]; omega)
    have hrefusals : (later.write (new + value.length) (later.read new (string.length + 1))).refusals =
        later.refusals := rfl
    have hstorage := hnew.toStorage.write (new + value.length) (later.read new (string.length + 1))
    dsimp only
    rw [if_neg (Bool.false_ne_true ·.symm), sizeSub_ok (by omega), checked_bind, hlimit,
      if_neg Bool.false_ne_true, hshift, checked_bind, sizeAdd_ok (by omega), checked_bind, hmove, checked_bind]
    have hback := read_write later (new + value.length) (later.read new (string.length + 1))
    rw [read_length] at hback
    generalize later.write (new + value.length) (later.read new (string.length + 1)) = moved at *
    have hsecond : moved.move result.data (some address) value.length =
        .ok (moved.write (new + 0) (viewContents heap value)) := by
      have htarget : moved.Live ⟨new + 0, value.length⟩ := hstorage.live (by omega)
      rw [hnew.data, ← hread]
      exact move_ok hlive htarget
    have hcontents : (moved.write (new + 0) (viewContents heap value)).read new
        (string.length + value.length) = viewContents heap value ++ contents heap string := by
      have hfront := read_write moved new (viewContents heap value)
      rw [hviewLength] at hfront
      have hrest := congrArg (List.take string.length) hback
      rw [read_take _ _ (Nat.le_succ _), read_take _ _ (Nat.le_succ _), ← hres.length, ← hnew.contents_eq,
        hres.holds, hres.length] at hrest
      rw [Nat.add_comm string.length, read_add, Nat.add_zero, hfront,
        read_write_apart (.inr (by rw [hviewLength])), hrest]
    obtain ⟨last, hterminate, hchanged⟩ := hres.changed (hstorage.write _ _)
      (huntouched.write hstorage (by rw [hviewLength]; omega)) hrefusals (Nat.le_refl _) hcontents
    dsimp only
    rw [hsecond, checked_bind, hterminate]
    exact .changed hchanged _

inductive Update where
  | append
  | prepend
  | copy
deriving DecidableEq, Repr

def Update.perform (answers : Answers UInt8) (heap : Memory) (string : String) (value : View) :
    Update → Checked (Bool × Memory × String)
  | .append => stringAppend answers heap string value
  | .prepend => stringPrepend answers heap string value
  | .copy => stringCopy answers heap string value

/-- The contents that an update is to give, from the old ones and the bytes of the view. -/
def Update.reference (old view : Bytes) : Update → Bytes
  | .append => old ++ view
  | .prepend => view ++ old
  | .copy => view

def Update.size (string : String) (value : View) : Update → ℕ
  | .append => string.length + value.length
  | .prepend => string.length + value.length
  | .copy => value.length

theorem Update.spec (update : Update) (h : Stored heap string base) (hview : Admissible heap string value)
    (hsize : value.length ≤ SIZE_MAX) :
    Updates heap string (update.size string value)
      (update.reference (contents heap string) (viewContents heap value))
      (update.perform answers heap string value) := by
  cases update with
  | append => exact stringAppend_spec (.inr ⟨base, h⟩) hview
  | prepend => exact stringPrepend_spec (.inr ⟨base, h⟩) hview
  | copy =>
    refine stringCopy_spec (.inr ⟨base, h⟩) hview (fun _ => ?_) hsize
    rw [h.data]
    exact Option.some_ne_none base

/-- With a view into the contents or outside the storage, and any answers of the allocator: no size
wraps and no access is out of bounds. A success gives the contents computed from the old ones and
the old bytes of the view, with a NUL after them in storage that has room for both, and leaves all
other memory as it was; a failure means that the allocator refused or that the size is out of range,
and nothing has changed. -/
theorem update_aliased (update : Update) (h : Stored heap string base)
    (hview : Inside string value ∨ Outside heap string value) (hsize : value.length ≤ SIZE_MAX) :
    ∃ ok later result, update.perform answers heap string value = .ok (ok, later, result) ∧
      (ok = true → (∃ new, Stored later result new) ∧
        contents later result = update.reference (contents heap string) (viewContents heap value) ∧
        Untouched heap later string.block result.block ∧ later.refusals = heap.refusals) ∧
      (ok = false → result = string ∧ later.blocks = heap.blocks ∧ later.bytes = heap.bytes ∧
        (Denied heap later string ∨ SIZE_MAX ≤ update.size string value)) := by
  obtain ⟨ok, later, result, hperform, hchanged, hfailed⟩ :=
    @Update.spec answers heap string value base update h (.inr hview) hsize
  refine ⟨ok, later, result, hperform, fun htrue => ?_, fun hfalse => ?_⟩
  · have hafter := hchanged htrue
    have hkept := hafter.kept (by rw [h.data]; exact Option.some_ne_none base)
    obtain ⟨new, hnew⟩ := Option.ne_none_iff_exists'.mp hkept
    exact ⟨⟨new, hafter.valid.lengths.2.2 new hnew⟩, hafter.holds, hafter.untouched, hafter.refusals⟩
  · have hafter := hfailed hfalse
    exact ⟨hafter.result, hafter.blocks, hafter.bytes, hafter.reason⟩

def sampleMemory : Memory where
  blocks := [⟨4096, 17⟩]
  bytes := fun place => if place < 4112 then ch 'a' + (place - 4096).toUInt8 else 0
  apart := List.pairwise_singleton _ _
  sized := by simp

def sampleString : String where
  data := some 4096
  length := 16
  capacity := 16
  allocator := allocatorHeap

theorem sampleString_stored : Stored sampleMemory sampleString 4096 :=
  ⟨⟨rfl, List.mem_singleton_self _⟩, Nat.le_refl _, by decide, rfl⟩

/-- Ten of the sixteen letters, appended while the storage grows. -/
theorem sampleString_appended :
    ∃ ok later result, stringAppend (fun _ _ => some ⟨8192, fun _ => 0⟩) sampleMemory sampleString
        ⟨some 4099, 10⟩ = .ok (ok, later, result) ∧
      (ok = true → contents later result =
        contents sampleMemory sampleString ++ viewContents sampleMemory ⟨some 4099, 10⟩) := by
  obtain ⟨ok, later, result, happend, hchanged, -⟩ := @update_aliased (fun _ _ => some ⟨8192, fun _ => 0⟩)
    sampleMemory sampleString ⟨some 4099, 10⟩ 4096 .append sampleString_stored
    (.inl ⟨4096, 4099, rfl, rfl, by decide, by decide⟩) (by decide)
  exact ⟨ok, later, result, happend, fun htrue => (hchanged htrue).2.1⟩

end Ceasy.OwnedString
