import Ceasy.SessionCodec

set_option autoImplicit false

/-!
# Decoding arbitrary bytes

The decoder reads the entries that the bytes begin with, one after the other, and
stops at the first that is not well formed. It is also written a second time with
reads that fail outside the bytes; that decoder never fails and agrees with the first.
-/
namespace Ceasy.Sessions
open StringView Allocator Collection LinearProbing BigEndian

/-- Entries and their bytes: the length of the key, the key, and a value. -/
inductive EncodedEntries : List (Bytes × StringMapData Unit) → Bytes → Prop where
  | nil : EncodedEntries [] []
  | cons {key value : Bytes} {data : StringMapData Unit} {entries : List (Bytes × StringMapData Unit)}
    {rest : Bytes} (hkey : key.length ≤ UINT16_MAX) (hvalue : ValueBytes data value)
    (hrest : EncodedEntries entries rest) :
    EncodedEntries ((key, data) :: entries) (encode 2 key.length ++ (key ++ value) ++ rest)

def BeginsEntry (bytes : Bytes) : Prop :=
  ∃ entry encoded rest, EncodedEntries [entry] encoded ∧ bytes = encoded ++ rest

def setEntries (contents : SessionContents) (entries : List (Bytes × StringMapData Unit)) :
    SessionContents :=
  entries.foldl (fun contents entry => Function.update contents entry.1 (some entry.2)) contents

@[simp]
theorem setEntries_cons (contents : SessionContents) (entry : Bytes × StringMapData Unit)
    (entries : List (Bytes × StringMapData Unit)) :
    setEntries contents (entry :: entries) =
      setEntries (Function.update contents entry.1 (some entry.2)) entries := rfl

variable {data left right rest : Bytes} {offset : ℕ}

/-- A read sees the number written there, or there are too few bytes. -/
theorem Sees.reads (h : Sees data offset rest) (width : ℕ) :
    sessionRead width data offset = none ∨
      ∃ n after, n < 256 ^ width ∧ rest = encode width n ++ after ∧
        sessionRead width data offset = some (n, offset + width) ∧
        Sees data (offset + width) after := by
  have hlength := h.length
  by_cases hfits : width ≤ rest.length
  · right
    have htaken : (rest.take width).length = width := List.length_take_of_le hfits
    have hrest : rest = encode width (decode (rest.take width)) ++ rest.drop width := by
      have hencode := encode_decode (rest.take width)
      rw [htaken] at hencode
      rw [hencode, List.take_append_drop]
    have hsmall : decode (rest.take width) < 256 ^ width := by
      have hlt := decode_lt (rest.take width)
      rwa [htaken] at hlt
    rw [hrest] at h
    obtain ⟨hread, hsees⟩ := h.read hsmall
    exact ⟨_, _, hsmall, hrest, hread, hsees⟩
  · left
    rw [sessionRead, if_pos (by omega)]

theorem boolean_byte {byte : UInt8} (h : byte ≤ 1) :
    (if (byte != 0) = true then (1 : UInt8) else 0) = byte := by
  by_cases hzero : byte = 0
  · rw [hzero]
    rfl
  · have hle := UInt8.le_iff_toNat_le.mp h
    have hne : byte.toNat ≠ 0 := fun heq => hzero (UInt8.toNat_inj.mp heq)
    have hone : byte.toNat = (1 : UInt8).toNat := Nat.le_antisymm hle (Nat.pos_of_ne_zero hne)
    rw [if_pos (bne_iff_ne.mpr hzero), UInt8.toNat_inj.mp hone]

theorem sessionDeserializeValue_cases (values : SessionValues) (key : Bytes)
    (h : Sees data offset rest) (hne : rest ≠ []) :
    sessionDeserializeValue data offset key values = (none, values) ∨
      ∃ value bytes after, ValueBytes value bytes ∧ rest = bytes ++ after := by
  obtain ⟨type, rest, rfl⟩ := List.exists_cons_of_ne_nil hne
  have hafter := h.step
  unfold sessionDeserializeValue
  rw [h.byteAt]
  dsimp only
  split_ifs with hstring hinteger hboolean hbad
  · subst hstring
    rw [sessionReadU32]
    rcases hafter.reads 4 with hnone | ⟨n, after, hn, rfl, hread, hsees⟩
    · left
      rw [hnone]
    · rw [hread]
      dsimp only
      split_ifs with hshort
      · exact .inl rfl
      · have hlength := hsees.length
        have htaken : (after.take n).length = n := List.length_take_of_le (by omega)
        refine .inr ⟨.string (after.take n), 1 :: (encode 4 n ++ after.take n), after.drop n, ?_, ?_⟩
        · have hbytes := ValueBytes.string (after.take n)
            (by rw [htaken]; exact Nat.le_of_lt_succ hn)
          rwa [htaken] at hbytes
        · rw [List.cons_append, List.append_assoc, List.take_append_drop]
  · subst hinteger
    rw [sessionReadU64]
    rcases hafter.reads 8 with hnone | ⟨n, after, hn, rfl, hread, hsees⟩
    · left
      rw [hnone]
    · refine .inr ⟨.int64 (UInt64.ofNat n).toInt64, 2 :: encode 8 n, after, ?_, rfl⟩
      have hbytes := ValueBytes.int64 (UInt64.ofNat n).toInt64
      rwa [UInt64.toUInt64_toInt64, UInt64.toNat_ofNat',
        Nat.mod_eq_of_lt (show n < 2 ^ 64 from hn)] at hbytes
  · exact .inl rfl
  · subst hboolean
    have hlength := hafter.length
    rw [not_or] at hbad
    cases rest with
    | nil => exact absurd (Nat.le_of_eq hlength) hbad.1
    | cons byte rest =>
      have hsmall : byte ≤ 1 := by
        have hle := UInt8.not_lt.mp hbad.2
        rwa [hafter.byteAt] at hle
      refine .inr ⟨.bool (byte != 0), [3, byte], rest, ?_, rfl⟩
      have hbytes := ValueBytes.bool (byte != 0)
      rwa [boolean_byte hsmall] at hbytes
  · exact .inl rfl

theorem sessionDeserializeEntry_cases (values : SessionValues) (h : Sees data offset rest) :
    sessionDeserializeEntry data offset values = (none, values) ∨ BeginsEntry rest := by
  unfold sessionDeserializeEntry
  rw [sessionReadU16]
  rcases h.reads 2 with hnone | ⟨n, after, hn, rfl, hread, hsees⟩
  · left
    rw [hnone]
  · have hlength := hsees.length
    rw [hread]
    dsimp only
    split_ifs with hshort
    · exact .inl rfl
    · have htaken : (after.take n).length = n := List.length_take_of_le (by omega)
      rw [← List.take_append_drop n after] at hsees
      have hvalue := hsees.advance
      rw [htaken] at hvalue
      have hne : after.drop n ≠ [] := by
        rw [ne_eq, List.drop_eq_nil_iff]
        omega
      rcases sessionDeserializeValue_cases values
        (stringvSlice data (offset + 2) n) hvalue hne with hnone | ⟨value, bytes, last, hbytes, hlast⟩
      · exact .inl hnone
      · have hencoded := @EncodedEntries.cons (after.take n) _ _ _ _
          (by rw [htaken]; exact Nat.le_of_lt_succ hn) hbytes .nil
        refine .inr ⟨_, _, last, hencoded, ?_⟩
        rw [htaken, List.append_nil, List.append_assoc, List.append_assoc, ← hlast,
          List.take_append_drop]

def entrySlot (entry : Bytes × StringMapData Unit) : StringMapEntry Unit where
  hash := 0
  key := { bytes := entry.1 }
  value := { data := entry.2 }
  ownsKey := false

theorem BeginsEntry.reads (h : BeginsEntry rest) (hsees : Sees data offset rest)
    (values : SessionValues) :
    ∃ entry encoded after result, EncodedEntries [entry] encoded ∧ rest = encoded ++ after ∧
      SessionValues.Stored values entry.1 entry.2 result ∧
      sessionDeserializeEntry data offset values = stored result (offset + encoded.length) := by
  obtain ⟨entry, encoded, after, hencoded, rfl⟩ := h
  have hentry := hencoded
  cases hencoded with
  | @cons key value kind _ _ hkey hvalue hnil =>
    cases hnil
    have hbytes : EntryBytes (entrySlot (key, kind)) (encode 2 key.length ++ (key ++ value) ++ []) := by
      rw [List.append_nil]
      exact .entry hkey hvalue
    obtain ⟨result, hstored, hresult⟩ := sessionDeserializeEntry_reads values hbytes hsees
    exact ⟨_, _, after, result, hentry, rfl, hstored, hresult⟩

/-- How the loop ends: all entries have been read, or no entry follows those read. -/
inductive LoopEnds (remaining offset : ℕ) (entries : List (Bytes × StringMapData Unit))
    (encoded after : Bytes) : Option ℕ → Prop where
  | finished (hall : entries.length = remaining) :
    LoopEnds remaining offset entries encoded after (some (offset + encoded.length))
  | stopped (hfewer : entries.length < remaining) (hnone : ¬ BeginsEntry after) :
    LoopEnds remaining offset entries encoded after none

theorem EncodedEntries.append {entry : Bytes × StringMapData Unit}
    {entries : List (Bytes × StringMapData Unit)} {first encoded : Bytes}
    (hfirst : EncodedEntries [entry] first) (h : EncodedEntries entries encoded) :
    EncodedEntries (entry :: entries) (first ++ encoded) := by
  cases hfirst with
  | cons hkey hvalue hnil =>
    cases hnil
    rw [List.append_nil]
    exact .cons hkey hvalue h

theorem LoopEnds.next {remaining offset : ℕ} {entries : List (Bytes × StringMapData Unit)}
    {encoded after : Bytes} {outcome : Option ℕ} (entry : Bytes × StringMapData Unit)
    (first : Bytes) (h : LoopEnds remaining (offset + first.length) entries encoded after outcome) :
    LoopEnds (remaining + 1) offset (entry :: entries) (first ++ encoded) after outcome := by
  cases h with
  | finished hall =>
    rw [Nat.add_assoc, ← List.length_append]
    exact .finished (congrArg Nat.succ hall)
  | stopped hfewer hnone => exact .stopped (Nat.succ_lt_succ hfewer) hnone

theorem sessionDeserializeLoop_prefix {data rest : Bytes} (remaining : ℕ) {offset : ℕ}
    (values : SessionValues) (keys : List Bytes) (hsees : Sees data offset rest)
    (hcompact : Compact values.map) (hkeys : ∀ key, (values.contents key).isSome → key ∈ keys)
    (hfew : keys.length + remaining < 2 ^ 32) :
    ∃ entries encoded after outcome final,
      sessionDeserializeLoop data remaining offset values = (outcome, final) ∧
      EncodedEntries entries encoded ∧ rest = encoded ++ after ∧
      final.contents = setEntries values.contents entries ∧
      LoopEnds remaining offset entries encoded after outcome := by
  induction remaining generalizing offset rest values keys with
  | zero => exact ⟨[], [], rest, _, values, rfl, .nil, rfl, rfl, .finished rfl⟩
  | succ remaining ih =>
    by_cases hbegins : BeginsEntry rest
    · obtain ⟨entry, bytes, after, result, hentry, rfl, hstored, hresult⟩ :=
        hbegins.reads hsees values
      have hok := hstored.served (SessionValues.not_atLimit hcompact hkeys (by omega))
      have hcontents := hstored.done hok
      have hnext := update_keys hkeys entry.1 entry.2
      rw [← hcontents] at hnext
      obtain ⟨entries, encoded, last, outcome, final, hloop, hencoded, rfl, hfinal, hends⟩ :=
        ih _ _ hsees.advance (hstored.compact hcompact) hnext (by rw [List.length_cons]; omega)
      refine ⟨entry :: entries, bytes ++ encoded, last, outcome, final, ?_, hentry.append hencoded,
        (List.append_assoc _ _ _).symm, ?_, hends.next entry bytes⟩
      · rw [sessionDeserializeLoop, hresult, stored, if_pos hok]
        exact hloop
      · rw [hfinal, hcontents, setEntries_cons]
    · have hfailed := (sessionDeserializeEntry_cases values hsees).resolve_right hbegins
      refine ⟨[], [], rest, none, values, ?_, .nil, rfl, rfl, .stopped (Nat.succ_pos _) hbegins⟩
      rw [sessionDeserializeLoop, hfailed]

/-- The version byte, the number of entries and the entries, with nothing left over. -/
structure SessionFormat (data : Bytes) (entries : List (Bytes × StringMapData Unit)) : Prop where
  size : data.length ≤ SESSION_MAX_BYTES
  few : entries.length ≤ UINT16_MAX
  layout : ∃ encoded, EncodedEntries entries encoded ∧
    data = 1 :: (encode 2 entries.length ++ encoded)

/-- The header is well formed and announces this many entries in what follows it. -/
structure SessionHeader (data : Bytes) (count : ℕ) (rest : Bytes) : Prop where
  size : data.length ≤ SESSION_MAX_BYTES
  few : count ≤ UINT16_MAX
  layout : data = 1 :: (encode 2 count ++ rest)

theorem sessionDeserialize_no_header (values : SessionValues)
    (h : ∀ count rest, ¬ SessionHeader data count rest) :
    sessionDeserialize values data = (false, values) := by
  unfold sessionDeserialize
  split_ifs with hrefused
  · rfl
  · simp only [not_or, not_lt, not_not] at hrefused
    obtain ⟨hne, hsize, hversion⟩ := hrefused
    obtain ⟨byte, rest, rfl⟩ := List.exists_cons_of_length_pos (Nat.pos_of_ne_zero hne)
    have hsees : Sees (byte :: rest) 0 (byte :: rest) := ⟨[], rfl, rfl⟩
    rw [sessionReadU16]
    rcases hsees.step.reads 2 with hnone | ⟨n, after, hn, rfl, hread, -⟩
    · rw [hnone]
    · rw [hsees.byteAt] at hversion
      subst hversion
      exact absurd ⟨hsize, Nat.le_of_lt_succ hn, rfl⟩ (h n after)

/-- Behind a well-formed header the decoder keeps the entries that it finds, and accepts
when they are as many as announced and nothing follows. -/
theorem sessionDeserialize_header {count : ℕ} (h : SessionHeader data count rest) :
    ∃ entries encoded after decoded,
      sessionDeserialize .empty data = (decide (entries.length = count ∧ after = []), decoded) ∧
      EncodedEntries entries encoded ∧ rest = encoded ++ after ∧
      decoded.contents = setEntries (fun _ => none) entries ∧
      entries.length ≤ count ∧ (entries.length < count → ¬ BeginsEntry after) := by
  obtain ⟨hsize, hcount, rfl⟩ := h
  have hsees : Sees (1 :: (encode 2 count ++ rest)) 1 (encode 2 count ++ rest) := ⟨[1], rfl, rfl⟩
  obtain ⟨hread, hrest⟩ := hsees.read (show count < 256 ^ 2 from Nat.lt_succ_of_le hcount)
  obtain ⟨entries, encoded, after, outcome, final, hloop, hencoded, rfl, hfinal, hends⟩ :=
    sessionDeserializeLoop_prefix count .empty [] hrest compact_empty (by simp)
      (by unfold UINT16_MAX at hcount; simp; omega)
  rw [SessionValues.contents_empty] at hfinal
  have hlength := hrest.length
  rw [List.length_append] at hlength
  unfold sessionDeserialize
  rw [if_neg (by
    rintro (hzero | hlong | hversion)
    · cases hzero
    · omega
    · exact hversion rfl), sessionReadU16, hread]
  dsimp only
  rw [show 1 + 2 = 3 from rfl] at hloop
  rw [hloop]
  cases hends with
  | finished hall =>
    refine ⟨entries, encoded, after, final, ?_, hencoded, rfl, hfinal, Nat.le_of_eq hall,
      fun hfewer => absurd hall (Nat.ne_of_lt hfewer)⟩
    dsimp only
    have hend : (3 + encoded.length == (1 :: (encode 2 count ++ (encoded ++ after))).length) =
        decide (entries.length = count ∧ after = []) := by
      rw [hlength, Bool.eq_iff_iff, beq_iff_eq, decide_eq_true_iff, ← List.length_eq_zero_iff]
      omega
    rw [hend]
  | stopped hfewer hnone =>
    refine ⟨entries, encoded, after, final, ?_, hencoded, rfl, hfinal, Nat.le_of_lt hfewer,
      fun _ => hnone⟩
    dsimp only
    rw [decide_eq_false fun hdone => absurd hdone.1 (Nat.ne_of_lt hfewer)]

theorem EncodedEntries.slots {entries : List (Bytes × StringMapData Unit)} {encoded : Bytes}
    (h : EncodedEntries entries encoded) : EntriesBytes (entries.map entrySlot) encoded := by
  induction h with
  | nil => exact .nil
  | @cons key value data entries rest hkey hvalue _ ih =>
    exact .cons (@EntryBytes.entry (entrySlot (key, data)) value hkey hvalue) ih

theorem setAll_entrySlot (contents : SessionContents)
    (entries : List (Bytes × StringMapData Unit)) :
    setAll contents (entries.map entrySlot) = setEntries contents entries :=
  List.foldl_map

theorem SessionFormat.header {entries : List (Bytes × StringMapData Unit)}
    (h : SessionFormat data entries) :
    ∃ encoded, EncodedEntries entries encoded ∧ SessionHeader data entries.length encoded := by
  obtain ⟨encoded, hencoded, hlayout⟩ := h.layout
  exact ⟨encoded, hencoded, h.size, h.few, hlayout⟩

theorem sessionDeserialize_format {entries : List (Bytes × StringMapData Unit)}
    (h : SessionFormat data entries) :
    (sessionDeserialize .empty data).1 = true ∧
      (sessionDeserialize .empty data).2.contents = setEntries (fun _ => none) entries := by
  obtain ⟨encoded, hencoded, hsize, hfew, rfl⟩ := h.header
  have hsees : Sees (1 :: (encode 2 entries.length ++ encoded)) 1
      (encode 2 entries.length ++ encoded) := ⟨[1], rfl, rfl⟩
  obtain ⟨hread, hrest⟩ := hsees.read (show entries.length < 256 ^ 2 from Nat.lt_succ_of_le hfew)
  rw [← List.append_nil encoded] at hrest
  obtain ⟨final, hloop, hfinal⟩ := sessionDeserializeLoop_reads hencoded.slots .empty [] hrest
    compact_empty (by simp) (by unfold UINT16_MAX at hfew; simp; omega)
  rw [setAll_entrySlot, SessionValues.contents_empty] at hfinal
  rw [List.length_map, List.append_nil] at hloop
  have hdecoded : sessionDeserialize .empty (1 :: (encode 2 entries.length ++ encoded)) =
      (true, final) := by
    unfold sessionDeserialize
    rw [if_neg (by
      rintro (hzero | hlong | hversion)
      · cases hzero
      · omega
      · exact hversion rfl), sessionReadU16, hread]
    dsimp only
    rw [hloop]
    dsimp only
    have hend : 1 + 2 + encoded.length = (1 :: (encode 2 entries.length ++ encoded)).length := by
      rw [List.length_cons, List.length_append, encode_length]
      omega
    rw [hend, beq_self_eq_true]
  rw [hdecoded]
  exact ⟨rfl, hfinal⟩

theorem sessionDeserialize_accepts :
    (sessionDeserialize .empty data).1 = true ↔ ∃ entries, SessionFormat data entries := by
  constructor
  · intro h
    by_cases hheader : ∃ count rest, SessionHeader data count rest
    · obtain ⟨count, rest, hheader⟩ := hheader
      obtain ⟨entries, encoded, after, decoded, hdecoded, hencoded, rfl, -, -, -⟩ :=
        sessionDeserialize_header hheader
      rw [hdecoded, decide_eq_true_iff] at h
      obtain ⟨rfl, rfl⟩ := h
      rw [List.append_nil] at hheader
      exact ⟨entries, hheader.size, hheader.few, encoded, hencoded, hheader.layout⟩
    · rw [sessionDeserialize_no_header .empty fun count rest h => hheader ⟨count, rest, h⟩] at h
      cases h
  · rintro ⟨entries, hformat⟩
    exact (sessionDeserialize_format hformat).1

namespace Checked

/-- A read of a byte, which fails outside the data. -/
def fetch (data : Bytes) (offset : ℕ) : Option UInt8 := data[offset]?

def fetchBytes (data : Bytes) (offset length : ℕ) : Option Bytes :=
  if offset + length ≤ data.length then some (stringvSlice data offset length) else none

def sessionRead (width : ℕ) (data : Bytes) (offset : ℕ) : Option (Option (ℕ × ℕ)) :=
  if data.length < offset ∨ data.length - offset < width then some none
  else (fetchBytes data offset width).map fun bytes => some (decode bytes, offset + width)

def sessionDeserializeValue (data : Bytes) (offset : ℕ) (key : Bytes) (values : SessionValues) :
    Option (Option ℕ × SessionValues) :=
  (fetch data offset).bind fun type =>
    let offset := offset + 1
    if type = 1 then
      (sessionRead 4 data offset).bind fun read =>
        match read with
        | none => some (none, values)
        | some (valueLength, offset) =>
          if data.length - offset < valueLength then some (none, values)
          else
            (fetchBytes data offset valueLength).map fun string =>
              stored (values.setStringView key string) (offset + valueLength)
    else if type = 2 then
      (sessionRead 8 data offset).map fun read =>
        match read with
        | none => (none, values)
        | some (integer, offset) =>
          stored (values.setValue key (smInt (UInt64.ofNat integer).toInt64)) offset
    else if type = 3 then
      if data.length ≤ offset then some (none, values)
      else
        (fetch data offset).map fun byte =>
          if 1 < byte then (none, values)
          else stored (values.setValue key (smBool (byte != 0))) (offset + 1)
    else some (none, values)

def sessionDeserializeEntry (data : Bytes) (offset : ℕ) (values : SessionValues) :
    Option (Option ℕ × SessionValues) :=
  (sessionRead 2 data offset).bind fun read =>
    match read with
    | none => some (none, values)
    | some (keyLength, offset) =>
      if data.length < offset ∨ data.length - offset < keyLength + 1 then some (none, values)
      else
        (fetchBytes data offset keyLength).bind fun key =>
          sessionDeserializeValue data (offset + keyLength) key values

def sessionDeserializeLoop (data : Bytes) : ℕ → ℕ → SessionValues →
    Option (Option ℕ × SessionValues)
  | 0, offset, values => some (some offset, values)
  | remaining + 1, offset, values =>
    (sessionDeserializeEntry data offset values).bind fun entry =>
      match entry with
      | (none, values) => some (none, values)
      | (some offset, values) => sessionDeserializeLoop data remaining offset values

def sessionDeserialize (values : SessionValues) (data : Bytes) : Option (Bool × SessionValues) :=
  if data.length = 0 ∨ SESSION_MAX_BYTES < data.length then some (false, values)
  else
    (fetch data 0).bind fun version =>
      if version ≠ 1 then some (false, values)
      else
        (sessionRead 2 data 1).bind fun read =>
          match read with
          | none => some (false, values)
          | some (count, _) =>
            (sessionDeserializeLoop data count 3 values).map fun result =>
              match result with
              | (none, values) => (false, values)
              | (some offset, values) => (offset == data.length, values)

theorem fetch_inside {offset : ℕ} (h : offset < data.length) :
    fetch data offset = some (byteAt data offset) := by
  rw [fetch, byteAt, List.getD_eq_getElem?_getD, List.getElem?_eq_getElem h, Option.getD_some]

theorem fetchBytes_inside {offset length : ℕ} (h : offset + length ≤ data.length) :
    fetchBytes data offset length = some (stringvSlice data offset length) := if_pos h

theorem sessionRead_inside (width : ℕ) (data : Bytes) (offset : ℕ) :
    sessionRead width data offset = some (Sessions.sessionRead width data offset) := by
  unfold sessionRead Sessions.sessionRead
  split_ifs with hshort
  · rfl
  · rw [fetchBytes_inside (by omega), Option.map_some]

theorem sessionRead_bound {width n next : ℕ} {offset : ℕ}
    (h : Sessions.sessionRead width data offset = some (n, next)) : next ≤ data.length := by
  unfold Sessions.sessionRead at h
  split_ifs at h with hshort
  cases h
  omega

theorem sessionDeserializeValue_inside {offset : ℕ} (h : offset < data.length) (key : Bytes)
    (values : SessionValues) :
    sessionDeserializeValue data offset key values =
      some (Sessions.sessionDeserializeValue data offset key values) := by
  unfold sessionDeserializeValue Sessions.sessionDeserializeValue
  rw [fetch_inside h, Option.bind_some]
  dsimp only
  by_cases hstring : byteAt data offset = 1
  · rw [if_pos hstring, if_pos hstring, sessionRead_inside, Option.bind_some, sessionReadU32]
    cases hread : Sessions.sessionRead 4 data (offset + 1) with
    | none => rfl
    | some read =>
      obtain ⟨valueLength, next⟩ := read
      have hbound := sessionRead_bound hread
      dsimp only
      split_ifs with hshort
      · rfl
      · rw [fetchBytes_inside (by omega), Option.map_some]
  rw [if_neg hstring, if_neg hstring]
  by_cases hinteger : byteAt data offset = 2
  · rw [if_pos hinteger, if_pos hinteger, sessionRead_inside]
    unfold sessionReadU64
    cases Sessions.sessionRead 8 data (offset + 1) <;> rfl
  rw [if_neg hinteger, if_neg hinteger]
  by_cases hboolean : byteAt data offset = 3
  · rw [if_pos hboolean, if_pos hboolean]
    by_cases hend : data.length ≤ offset + 1
    · rw [if_pos hend, if_pos (.inl hend)]
    · rw [if_neg hend, fetch_inside (Nat.lt_of_not_le hend), Option.map_some]
      simp only [hend, false_or]
  · rw [if_neg hboolean, if_neg hboolean]

theorem sessionDeserializeEntry_inside (data : Bytes) (offset : ℕ) (values : SessionValues) :
    sessionDeserializeEntry data offset values =
      some (Sessions.sessionDeserializeEntry data offset values) := by
  unfold sessionDeserializeEntry Sessions.sessionDeserializeEntry
  rw [sessionRead_inside, Option.bind_some, sessionReadU16]
  cases Sessions.sessionRead 2 data offset with
  | none => rfl
  | some read =>
    obtain ⟨keyLength, next⟩ := read
    dsimp only
    split_ifs with hshort
    · rfl
    · rw [fetchBytes_inside (by omega), Option.bind_some,
        sessionDeserializeValue_inside (by omega)]

theorem sessionDeserializeLoop_inside (data : Bytes) (remaining offset : ℕ)
    (values : SessionValues) :
    sessionDeserializeLoop data remaining offset values =
      some (Sessions.sessionDeserializeLoop data remaining offset values) := by
  induction remaining generalizing offset values with
  | zero => rfl
  | succ remaining ih =>
    rw [sessionDeserializeLoop, Sessions.sessionDeserializeLoop, sessionDeserializeEntry_inside,
      Option.bind_some]
    rcases Sessions.sessionDeserializeEntry data offset values with ⟨_ | next, read⟩
    · rfl
    · exact ih next read

/-- Every read of the decoder is inside the data: with reads that fail outside it, the
answer is the same. -/
theorem sessionDeserialize_inside (values : SessionValues) (data : Bytes) :
    sessionDeserialize values data = some (Sessions.sessionDeserialize values data) := by
  unfold sessionDeserialize Sessions.sessionDeserialize
  by_cases hrefused : data.length = 0 ∨ SESSION_MAX_BYTES < data.length
  · rw [if_pos hrefused, if_pos (by tauto)]
  rw [if_neg hrefused, fetch_inside (by omega), Option.bind_some]
  by_cases hversion : byteAt data 0 = 1
  · rw [if_neg (not_not_intro hversion), if_neg (by tauto), sessionRead_inside, Option.bind_some,
      sessionReadU16]
    cases Sessions.sessionRead 2 data 1 with
    | none => rfl
    | some read =>
      obtain ⟨count, next⟩ := read
      dsimp only
      rw [sessionDeserializeLoop_inside]
      rcases Sessions.sessionDeserializeLoop data count 3 values with ⟨_ | offset, read⟩ <;> rfl
  · rw [if_pos hversion, if_pos (by tauto)]

end Checked

/-- The decoder reads inside the bytes, accepts exactly the stored form, and sets the
entries in order. -/
theorem sessionDeserialize_exact (data : Bytes) :
    (∀ values, Checked.sessionDeserialize values data = some (sessionDeserialize values data)) ∧
    ((sessionDeserialize .empty data).1 = true ↔ ∃ entries, SessionFormat data entries) ∧
    ∀ entries, SessionFormat data entries →
      (sessionDeserialize .empty data).2.contents = setEntries (fun _ => none) entries :=
  ⟨fun values => Checked.sessionDeserialize_inside values data, sessionDeserialize_accepts,
    fun _ hformat => (sessionDeserialize_format hformat).2⟩

end Ceasy.Sessions
