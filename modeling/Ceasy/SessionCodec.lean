import Ceasy.BigEndian
import Ceasy.SessionValues

set_option autoImplicit false

/-!
# The stored form of a session

`sessionSerialize` writes a version byte, the number of entries and the entries
in the order in which the map is iterated; `sessionDeserialize` reads them back
at a cursor. Decoding the bytes of a session gives its values again.
-/
namespace Ceasy.Sessions
open StringView Allocator Collection LinearProbing BigEndian

def SESSION_MAX_BYTES : ℕ := 16 * 1024

def UINT16_MAX : ℕ := 2 ^ 16 - 1

def UINT32_MAX : ℕ := 2 ^ 32 - 1

/-- `session_read_u16`, `session_read_u32` and `session_read_u64` differ in width only. -/
def sessionRead (width : ℕ) (data : Bytes) (offset : ℕ) : Option (ℕ × ℕ) :=
  if data.length < offset ∨ data.length - offset < width then none
  else some (decode (stringvSlice data offset width), offset + width)

def sessionReadU16 (data : Bytes) (offset : ℕ) : Option (ℕ × ℕ) := sessionRead 2 data offset

def sessionReadU32 (data : Bytes) (offset : ℕ) : Option (ℕ × ℕ) := sessionRead 4 data offset

def sessionReadU64 (data : Bytes) (offset : ℕ) : Option (ℕ × ℕ) := sessionRead 8 data offset

def byteAt (data : Bytes) (offset : ℕ) : UInt8 := data.getD offset 0

/-- What the loop keeps: the offset to go on from, unless it returns false, and the values. -/
def stored (result : Bool × SessionValues) (offset : ℕ) : Option ℕ × SessionValues :=
  (if result.1 then some offset else none, result.2)

def sessionDeserializeValue (data : Bytes) (offset : ℕ) (key : Bytes) (values : SessionValues) :
    Option ℕ × SessionValues :=
  let type := byteAt data offset
  let offset := offset + 1
  if type = 1 then
    match sessionReadU32 data offset with
    | none => (none, values)
    | some (valueLength, offset) =>
      if data.length - offset < valueLength then (none, values)
      else stored (values.setStringView key (stringvSlice data offset valueLength)) (offset + valueLength)
  else if type = 2 then
    match sessionReadU64 data offset with
    | none => (none, values)
    | some (integer, offset) =>
      stored (values.setValue key (smInt (UInt64.ofNat integer).toInt64)) offset
  else if type = 3 then
    if data.length ≤ offset ∨ 1 < byteAt data offset then (none, values)
    else stored (values.setValue key (smBool (byteAt data offset != 0))) (offset + 1)
  else (none, values)

/-- One turn of the loop of `session_deserialize`. -/
def sessionDeserializeEntry (data : Bytes) (offset : ℕ) (values : SessionValues) :
    Option ℕ × SessionValues :=
  match sessionReadU16 data offset with
  | none => (none, values)
  | some (keyLength, offset) =>
    if data.length < offset ∨ data.length - offset < keyLength + 1 then (none, values)
    else
      sessionDeserializeValue data (offset + keyLength) (stringvSlice data offset keyLength) values

def sessionDeserializeLoop (data : Bytes) : ℕ → ℕ → SessionValues → Option ℕ × SessionValues
  | 0, offset, values => (some offset, values)
  | remaining + 1, offset, values =>
    match sessionDeserializeEntry data offset values with
    | (none, values) => (none, values)
    | (some offset, values) => sessionDeserializeLoop data remaining offset values

/-- After a failure the values read so far stay in the session. -/
def sessionDeserialize (values : SessionValues) (data : Bytes) : Bool × SessionValues :=
  if data.length = 0 ∨ SESSION_MAX_BYTES < data.length ∨ byteAt data 0 ≠ 1 then (false, values)
  else
    match sessionReadU16 data 1 with
    | none => (false, values)
    | some (count, _) =>
      match sessionDeserializeLoop data count 3 values with
      | (none, values) => (false, values)
      | (some offset, values) => (offset == data.length, values)

def sessionWriteU16 (output : Bytes) (value : ℕ) : Option Bytes :=
  if value ≤ UINT16_MAX then some (output ++ encode 2 value) else none

def sessionWriteU32 (output : Bytes) (value : ℕ) : Option Bytes :=
  if value ≤ UINT32_MAX then some (output ++ encode 4 value) else none

def sessionWriteU64 (output : Bytes) (value : Int64) : Bytes :=
  output ++ encode 8 value.toUInt64.toNat

def sessionSerializeValue (output : Bytes) (data : StringMapData Unit) : Option Bytes :=
  match data with
  | .string string =>
    if UINT32_MAX < string.length then none
    else (sessionWriteU32 (output ++ [1]) string.length).map (· ++ string)
  | .int64 integer => some (sessionWriteU64 (output ++ [2]) integer)
  | .bool boolean => some (output ++ [3] ++ [if boolean then 1 else 0])
  | _ => none

/-- One turn of the loop of `session_serialize`. -/
def sessionSerializeEntry (output : Bytes) (slot : StringMapEntry Unit) : Option Bytes :=
  if UINT16_MAX < (slotKey slot).length then none
  else
    (sessionWriteU16 output (slotKey slot).length).bind fun output =>
      (sessionSerializeValue (output ++ slotKey slot) slot.value.data).bind fun output =>
        if SESSION_MAX_BYTES < output.length then none else some output

def sessionSerialize (values : SessionValues) : Option Bytes :=
  let count := smLength values.map
  if UINT16_MAX < count then none
  else
    (sessionWriteU16 [1] count).bind fun output =>
      (smIterate values.map 0).foldlM sessionSerializeEntry output

/-- The type byte and the bytes of a value that a session can store. -/
inductive ValueBytes : StringMapData Unit → Bytes → Prop where
  | string (string : Bytes) (h : string.length ≤ UINT32_MAX) :
    ValueBytes (.string string) (1 :: (encode 4 string.length ++ string))
  | int64 (integer : Int64) : ValueBytes (.int64 integer) (2 :: encode 8 integer.toUInt64.toNat)
  | bool (boolean : Bool) : ValueBytes (.bool boolean) [3, if boolean then 1 else 0]

theorem ValueBytes.length_pos {data : StringMapData Unit} {bytes : Bytes}
    (h : ValueBytes data bytes) : 0 < bytes.length := by
  cases h <;> exact Nat.succ_pos _

inductive EntryBytes (slot : StringMapEntry Unit) : Bytes → Prop where
  | entry {bytes : Bytes} (hkey : (slotKey slot).length ≤ UINT16_MAX)
    (hvalue : ValueBytes slot.value.data bytes) :
    EntryBytes slot (encode 2 (slotKey slot).length ++ (slotKey slot ++ bytes))

inductive EntriesBytes : List (StringMapEntry Unit) → Bytes → Prop where
  | nil : EntriesBytes [] []
  | cons {slot : StringMapEntry Unit} {slots : List (StringMapEntry Unit)} {bytes rest : Bytes}
    (hslot : EntryBytes slot bytes) (hslots : EntriesBytes slots rest) :
    EntriesBytes (slot :: slots) (bytes ++ rest)

theorem sessionSerializeValue_bytes {output written : Bytes} {data : StringMapData Unit}
    (h : sessionSerializeValue output data = some written) :
    ∃ bytes, ValueBytes data bytes ∧ written = output ++ bytes := by
  cases data with
  | string string =>
    rw [sessionSerializeValue] at h
    split_ifs at h with hlong
    rw [sessionWriteU32, if_pos (Nat.le_of_not_lt hlong)] at h
    cases h
    refine ⟨_, .string string (Nat.le_of_not_lt hlong), ?_⟩
    simp only [List.append_assoc, List.cons_append, List.nil_append]
  | int64 integer =>
    cases h
    refine ⟨_, .int64 integer, ?_⟩
    rw [sessionWriteU64, List.append_assoc]
    rfl
  | bool boolean =>
    cases h
    refine ⟨_, .bool boolean, ?_⟩
    rw [List.append_assoc]
    rfl
  | empty => cases h
  | pointer pointer => cases h
  | object data size => cases h

theorem sessionSerializeEntry_bytes {output written : Bytes} {slot : StringMapEntry Unit}
    (h : sessionSerializeEntry output slot = some written) :
    written.length ≤ SESSION_MAX_BYTES ∧
      ∃ bytes, EntryBytes slot bytes ∧ written = output ++ bytes := by
  unfold sessionSerializeEntry at h
  split_ifs at h with hkey
  have hkey := Nat.le_of_not_lt hkey
  rw [sessionWriteU16, if_pos hkey, Option.bind_some, Option.bind_eq_some_iff] at h
  obtain ⟨whole, hwhole, hlast⟩ := h
  split_ifs at hlast with hlong
  cases hlast
  obtain ⟨bytes, hbytes, rfl⟩ := sessionSerializeValue_bytes hwhole
  refine ⟨Nat.le_of_not_lt hlong, _, .entry hkey hbytes, ?_⟩
  simp only [List.append_assoc]

theorem sessionSerializeLoop_bytes {slots : List (StringMapEntry Unit)} {output written : Bytes}
    (h : slots.foldlM sessionSerializeEntry output = some written)
    (hshort : output.length ≤ SESSION_MAX_BYTES) :
    written.length ≤ SESSION_MAX_BYTES ∧
      ∃ bytes, EntriesBytes slots bytes ∧ written = output ++ bytes := by
  induction slots generalizing output with
  | nil =>
    cases h
    exact ⟨hshort, [], .nil, (List.append_nil _).symm⟩
  | cons slot slots ih =>
    rw [List.foldlM_cons, Option.bind_eq_bind, Option.bind_eq_some_iff] at h
    obtain ⟨middle, hslot, hrest⟩ := h
    obtain ⟨hmiddle, bytes, hbytes, rfl⟩ := sessionSerializeEntry_bytes hslot
    obtain ⟨hwritten, rest, hslots, rfl⟩ := ih hrest hmiddle
    refine ⟨hwritten, bytes ++ rest, .cons hbytes hslots, ?_⟩
    rw [List.append_assoc]

/-- What `session_serialize` has written when it returns true. -/
theorem sessionSerialize_bytes {values : SessionValues} {data : Bytes}
    (h : sessionSerialize values = some data) :
    (entries values.map.slots).length ≤ UINT16_MAX ∧ data.length ≤ SESSION_MAX_BYTES ∧
      ∃ bytes, EntriesBytes (entries values.map.slots) bytes ∧
        data = 1 :: (encode 2 (entries values.map.slots).length ++ bytes) := by
  unfold sessionSerialize at h
  rw [smLength, values.invariant.length, smIterate_entries] at h
  dsimp only at h
  split_ifs at h with hmany
  have hfew := Nat.le_of_not_lt hmany
  rw [sessionWriteU16, if_pos hfew, Option.bind_some] at h
  obtain ⟨hdata, bytes, hbytes, rfl⟩ := sessionSerializeLoop_bytes h (by
    rw [List.length_append, encode_length]
    decide)
  exact ⟨hfew, hdata, bytes, hbytes, rfl⟩

def Sees (data : Bytes) (offset : ℕ) (rest : Bytes) : Prop :=
  ∃ before, data = before ++ rest ∧ offset = before.length

variable {data left right rest : Bytes} {offset : ℕ}

theorem Sees.length (h : Sees data offset rest) : data.length = offset + rest.length := by
  obtain ⟨before, rfl, rfl⟩ := h
  exact List.length_append

theorem Sees.advance (h : Sees data offset (left ++ right)) :
    Sees data (offset + left.length) right := by
  obtain ⟨before, rfl, rfl⟩ := h
  exact ⟨before ++ left, (List.append_assoc _ _ _).symm, List.length_append.symm⟩

theorem Sees.slice (h : Sees data offset (left ++ right)) :
    stringvSlice data offset left.length = left := by
  obtain ⟨before, rfl, rfl⟩ := h
  rw [stringvSlice, List.drop_left, List.take_left]

theorem Sees.byteAt {byte : UInt8} (h : Sees data offset (byte :: rest)) :
    byteAt data offset = byte := by
  obtain ⟨before, rfl, rfl⟩ := h
  rw [Sessions.byteAt, List.getD_append_right _ _ _ _ (le_refl _), Nat.sub_self]
  rfl

theorem Sees.step {byte : UInt8} (h : Sees data offset (byte :: rest)) :
    Sees data (offset + 1) rest :=
  Sees.advance (show Sees data offset ([byte] ++ rest) from h)

theorem Sees.read {width n : ℕ} (h : Sees data offset (encode width n ++ rest))
    (hn : n < 256 ^ width) :
    sessionRead width data offset = some (n, offset + width) ∧ Sees data (offset + width) rest := by
  have hlength := h.length
  have hslice := h.slice
  have hadvance := h.advance
  rw [encode_length] at hslice hadvance
  rw [List.length_append, encode_length] at hlength
  refine ⟨?_, hadvance⟩
  rw [sessionRead, if_neg (by omega), hslice, decode_encode hn]

theorem sessionDeserializeValue_reads {data : Bytes} {offset : ℕ} (values : SessionValues)
    (key : Bytes) {bytes rest : Bytes} {value : StringMapData Unit} (hvalue : ValueBytes value bytes)
    (hsees : Sees data offset (bytes ++ rest)) :
    ∃ result, SessionValues.Stored values key value result ∧
      sessionDeserializeValue data offset key values = stored result (offset + bytes.length) := by
  cases hvalue with
  | string string h =>
    rw [List.cons_append] at hsees
    have htype := hsees.byteAt
    have hafter := hsees.step
    rw [List.append_assoc] at hafter
    obtain ⟨hread, hstring⟩ := hafter.read (show string.length < 256 ^ 4 by
      unfold UINT32_MAX at h
      omega)
    have hlength := hstring.length
    rw [List.length_append] at hlength
    refine ⟨_, values.setStringView_stored key string, ?_⟩
    unfold sessionDeserializeValue
    rw [htype, if_pos rfl, sessionReadU32, hread]
    dsimp only
    rw [if_neg (by omega), hstring.slice]
    congr 1
    rw [List.length_cons, List.length_append, encode_length]
    omega
  | int64 integer =>
    have htype := hsees.byteAt
    obtain ⟨hread, -⟩ := hsees.step.read (UInt64.toNat_lt integer.toUInt64)
    refine ⟨_, values.setValue_stored key (smInt integer) rfl, ?_⟩
    unfold sessionDeserializeValue
    rw [htype, if_neg (by decide), if_pos rfl, sessionReadU64, hread]
    dsimp only
    rw [UInt64.ofNat_toNat, Int64.toInt64_toUInt64, List.length_cons, encode_length]
  | bool boolean =>
    rw [List.cons_append, List.cons_append, List.nil_append] at hsees
    have htype := hsees.byteAt
    have hbyte := hsees.step.byteAt
    have hlength := hsees.step.length
    rw [List.length_cons] at hlength
    have hboolean : (if boolean then (1 : UInt8) else 0) ≤ 1 ∧
        ((if boolean then (1 : UInt8) else 0) != 0) = boolean := by
      cases boolean <;> decide
    refine ⟨_, values.setValue_stored key (smBool boolean) rfl, ?_⟩
    unfold sessionDeserializeValue
    rw [htype, if_neg (by decide), if_neg (by decide), if_pos rfl, hbyte, hboolean.2,
      if_neg (by
        rintro (hend | hlarge)
        · omega
        · exact absurd hboolean.1 (UInt8.not_le.mpr hlarge))]
    rfl

theorem sessionDeserializeEntry_reads {data : Bytes} {offset : ℕ} (values : SessionValues)
    {bytes rest : Bytes} {slot : StringMapEntry Unit} (hslot : EntryBytes slot bytes)
    (hsees : Sees data offset (bytes ++ rest)) :
    ∃ result, SessionValues.Stored values (slotKey slot) slot.value.data result ∧
      sessionDeserializeEntry data offset values = stored result (offset + bytes.length) := by
  cases hslot with
  | @entry bytes hkey hvalue =>
    rw [List.append_assoc] at hsees
    obtain ⟨hread, hkeySees⟩ := hsees.read (show (slotKey slot).length < 256 ^ 2 by
      unfold UINT16_MAX at hkey
      omega)
    rw [List.append_assoc] at hkeySees
    obtain ⟨result, hstored, hresult⟩ :=
      sessionDeserializeValue_reads values (slotKey slot) hvalue hkeySees.advance
    have hlength := hkeySees.length
    have hpositive := hvalue.length_pos
    rw [List.length_append, List.length_append] at hlength
    refine ⟨result, hstored, ?_⟩
    unfold sessionDeserializeEntry
    rw [sessionReadU16, hread]
    dsimp only
    rw [if_neg (by omega), hkeySees.slice, hresult]
    congr 1
    simp only [List.length_append, encode_length]
    omega

def setAll (contents : SessionContents) (slots : List (StringMapEntry Unit)) : SessionContents :=
  slots.foldl (fun contents slot => Function.update contents (slotKey slot) (some slot.value.data))
    contents

@[simp]
theorem setAll_cons (contents : SessionContents) (slot : StringMapEntry Unit)
    (slots : List (StringMapEntry Unit)) :
    setAll contents (slot :: slots) =
      setAll (Function.update contents (slotKey slot) (some slot.value.data)) slots := rfl

theorem setAll_eq_some {slots : List (StringMapEntry Unit)} (hnodup : (slots.map slotKey).Nodup)
    (contents : SessionContents) (key : Bytes) (value : StringMapData Unit) :
    setAll contents slots key = some value ↔
      (∃ slot ∈ slots, slotKey slot = key ∧ slot.value.data = value) ∨
        key ∉ slots.map slotKey ∧ contents key = some value := by
  induction slots generalizing contents with
  | nil => simp [setAll]
  | cons slot slots ih =>
    rw [List.map_cons, List.nodup_cons] at hnodup
    obtain ⟨hfresh, hnodup⟩ := hnodup
    have hrest := ih hnodup (Function.update contents (slotKey slot) (some slot.value.data))
    rw [setAll_cons, hrest]
    by_cases hkey : key = slotKey slot
    · subst hkey
      rw [Function.update_self]
      constructor
      · rintro (⟨other, hmem, hother, hvalue⟩ | ⟨-, hvalue⟩)
        · exact .inl ⟨other, List.mem_cons_of_mem _ hmem, hother, hvalue⟩
        · exact .inl ⟨slot, List.mem_cons_self, rfl, Option.some.inj hvalue⟩
      · rintro (⟨other, hmem, hother, hvalue⟩ | ⟨habsent, -⟩)
        · rcases List.mem_cons.mp hmem with rfl | hmem
          · exact .inr ⟨hfresh, by rw [hvalue]⟩
          · exact absurd (List.mem_map.mpr ⟨other, hmem, hother⟩) hfresh
        · exact absurd List.mem_cons_self habsent
    · rw [Function.update_of_ne hkey]
      simp only [List.mem_cons, List.map_cons, exists_eq_or_imp, Ne.symm hkey, hkey, false_and,
        false_or]

/-- The contents after one more entry have one more key at most. -/
theorem update_keys {contents : SessionContents} {keys : List Bytes}
    (hkeys : ∀ key, (contents key).isSome → key ∈ keys) (stored : Bytes)
    (value : StringMapData Unit) (key : Bytes)
    (h : (Function.update contents stored (some value) key).isSome) : key ∈ stored :: keys := by
  by_cases hkey : key = stored
  · rw [hkey]
    exact List.mem_cons_self
  · rw [Function.update_of_ne hkey] at h
    exact List.mem_cons_of_mem _ (hkeys key h)

/-- The loop reads the entries one by one; the map grows and stays far from its limit. -/
theorem sessionDeserializeLoop_reads {data rest : Bytes} {slots : List (StringMapEntry Unit)}
    {bytes : Bytes} (hslots : EntriesBytes slots bytes) {offset : ℕ} (values : SessionValues)
    (keys : List Bytes) (hsees : Sees data offset (bytes ++ rest)) (hcompact : Compact values.map)
    (hkeys : ∀ key, (values.contents key).isSome → key ∈ keys)
    (hfew : keys.length + slots.length < 2 ^ 32) :
    ∃ final, sessionDeserializeLoop data slots.length offset values =
      (some (offset + bytes.length), final) ∧ final.contents = setAll values.contents slots := by
  induction hslots generalizing offset values keys with
  | nil => exact ⟨values, rfl, rfl⟩
  | @cons slot slots bytes after hslot _ ih =>
    rw [List.append_assoc] at hsees
    rw [List.length_cons] at hfew
    obtain ⟨result, hstored, hresult⟩ := sessionDeserializeEntry_reads values hslot hsees
    have hok := hstored.served (SessionValues.not_atLimit hcompact hkeys (by omega))
    have hcontents := hstored.done hok
    have hnext := update_keys hkeys (slotKey slot) slot.value.data
    rw [← hcontents] at hnext
    obtain ⟨final, hloop, hfinal⟩ := ih _ _ hsees.advance (hstored.compact hcompact) hnext
      (by rw [List.length_cons]; omega)
    refine ⟨final, ?_, ?_⟩
    · rw [List.length_cons, sessionDeserializeLoop, hresult, stored, if_pos hok]
      dsimp only
      rw [hloop, List.length_append, Nat.add_assoc]
    · rw [hfinal, hcontents, setAll_cons]

theorem compact_empty : Compact SessionValues.empty.map := Nat.zero_le _

theorem setAll_entries (values : SessionValues) :
    setAll (fun _ => none) (entries values.map.slots) = values.contents := by
  funext key
  apply Option.ext
  intro value
  rw [setAll_eq_some (invariant_nodup values.invariant), SessionValues.contents,
    mapContents_eq_some values.invariant]
  simp only [reduceCtorEq, and_false, or_false]

def Decodes (data : Bytes) (contents : SessionContents) : Prop :=
  ∃ decoded, sessionDeserialize .empty data = (true, decoded) ∧ decoded.contents = contents

theorem decodes_unique {data : Bytes} {first second : SessionContents} (hfirst : Decodes data first)
    (hsecond : Decodes data second) : first = second := by
  obtain ⟨_, hone, rfl⟩ := hfirst
  obtain ⟨_, htwo, rfl⟩ := hsecond
  rw [hone] at htwo
  cases htwo
  rfl

theorem sessionSerialize_decodes {values : SessionValues} {data : Bytes}
    (h : sessionSerialize values = some data) : Decodes data values.contents := by
  obtain ⟨hfew, hshort, bytes, hbytes, rfl⟩ := sessionSerialize_bytes h
  have hsees : Sees (1 :: (encode 2 (entries values.map.slots).length ++ bytes)) 1
      (encode 2 (entries values.map.slots).length ++ bytes) := ⟨[1], rfl, rfl⟩
  obtain ⟨hread, hrest⟩ := hsees.read (show (entries values.map.slots).length < 256 ^ 2 by
    unfold UINT16_MAX at hfew
    omega)
  rw [← List.append_nil bytes] at hrest
  obtain ⟨final, hloop, hfinal⟩ := sessionDeserializeLoop_reads hbytes .empty [] hrest compact_empty (by simp) (by unfold UINT16_MAX at hfew; simp; omega)
  refine ⟨final, ?_, ?_⟩
  · unfold sessionDeserialize
    rw [if_neg (by
      rintro (hlength | hlong | hversion)
      · cases hlength
      · omega
      · exact hversion rfl), sessionReadU16, hread]
    dsimp only
    rw [List.append_nil] at hloop
    rw [hloop]
    have hend : 3 + bytes.length = (1 :: (encode 2 (entries values.map.slots).length ++ bytes)).length := by
      rw [List.length_cons, List.length_append, encode_length]
      omega
    rw [hend]
    dsimp only
    rw [beq_self_eq_true]
  · rw [hfinal, SessionValues.contents_empty, setAll_entries]

/-- Decoding what encoding has written answers true and gives the same keys, types and
    values, in whatever order the slots of the map lie. -/
theorem sessionDeserialize_serialize (values : SessionValues) (data : Bytes)
    (h : sessionSerialize values = some data) :
    (sessionDeserialize .empty data).1 = true ∧
      (sessionDeserialize .empty data).2.contents = values.contents := by
  obtain ⟨decoded, hdecoded, hcontents⟩ := sessionSerialize_decodes h
  rw [hdecoded]
  exact ⟨rfl, hcontents⟩

/-- A session with the least integer under the empty key, an empty string and a boolean. -/
def smallSession : SessionValues :=
  let values := (SessionValues.empty.setValue [] (smInt (-9223372036854775808))).2
  let values := (values.setStringView (sv "k") []).2
  (values.setValue (sv "b") (smBool true)).2

theorem sessionDeserialize_serialize_small :
    ∃ data, sessionSerialize smallSession = some data ∧ (sessionDeserialize .empty data).1 = true ∧
      (sessionDeserialize .empty data).2.contents = smallSession.contents := by
  have h : sessionSerialize smallSession = some [1, 0, 3, 0, 0, 2, 128, 0, 0, 0, 0, 0, 0, 0,
      0, 1, 98, 3, 1, 0, 1, 107, 1, 0, 0, 0, 0] := by
    unfold sessionSerialize
    rw [smIterate_entries]
    decide
  exact ⟨_, h, sessionDeserialize_serialize smallSession _ h⟩

end Ceasy.Sessions
