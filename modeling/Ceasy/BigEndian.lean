import Mathlib

set_option autoImplicit false

/-!
# Big-endian numbers

A number written over a fixed count of bytes, the most significant byte first,
and read back by shifting the bytes in.
-/
namespace Ceasy.BigEndian

/-- The low `width` bytes of a number. -/
def encode : ℕ → ℕ → List UInt8
  | 0, _ => []
  | width + 1, n => UInt8.ofNat (n >>> (8 * width)) :: encode width n

def shiftIn (value : ℕ) (byte : UInt8) : ℕ := value <<< 8 ||| byte.toNat

def decode (bytes : List UInt8) : ℕ := bytes.foldl shiftIn 0

@[simp]
theorem encode_length (width n : ℕ) : (encode width n).length = width := by
  induction width with
  | zero => rfl
  | succ width ih => rw [encode, List.length_cons, ih]

theorem shiftIn_eq (value : ℕ) (byte : UInt8) : shiftIn value byte = value * 256 + byte.toNat := by
  have hbyte : byte.toNat < 2 ^ 8 := byte.toNat_lt
  rw [shiftIn, ← Nat.shiftLeft_add_eq_or_of_lt hbyte, Nat.shiftLeft_eq]

theorem foldl_shiftIn (value : ℕ) (bytes : List UInt8) :
    bytes.foldl shiftIn value = value * 256 ^ bytes.length + decode bytes := by
  induction bytes generalizing value with
  | nil => simp [decode]
  | cons byte bytes ih =>
    have hfirst := ih (shiftIn value byte)
    have hzero := ih (shiftIn 0 byte)
    rw [decode, List.foldl_cons, List.foldl_cons, hfirst, hzero, shiftIn_eq, shiftIn_eq,
      List.length_cons]
    ring

theorem decode_cons (byte : UInt8) (bytes : List UInt8) :
    decode (byte :: bytes) = byte.toNat * 256 ^ bytes.length + decode bytes := by
  rw [decode, List.foldl_cons, foldl_shiftIn, shiftIn_eq, Nat.zero_mul, Nat.zero_add]

/-- Reading back gives the number up to what its bytes can hold. -/
theorem decode_encode_mod (width n : ℕ) : decode (encode width n) = n % 256 ^ width := by
  induction width with
  | zero => simp [encode, decode, Nat.mod_one]
  | succ width ih =>
    have hshift : n >>> (8 * width) = n / 256 ^ width := by
      rw [Nat.shiftRight_eq_div_pow, Nat.pow_mul]
    have hsplit : n % 256 ^ (width + 1) = n % 256 ^ width + 256 ^ width * (n / 256 ^ width % 256) :=
      Nat.mod_pow_succ
    have hbyte : (UInt8.ofNat (n >>> (8 * width))).toNat = n / 256 ^ width % 256 := by
      rw [hshift]
      exact UInt8.toNat_ofNat'
    rw [encode, decode_cons, ih, encode_length, hbyte, hsplit]
    ring

theorem decode_encode {width n : ℕ} (h : n < 256 ^ width) : decode (encode width n) = n := by
  rw [decode_encode_mod, Nat.mod_eq_of_lt h]

theorem decode_lt (bytes : List UInt8) : decode bytes < 256 ^ bytes.length := by
  induction bytes with
  | nil => simp [decode]
  | cons byte bytes ih =>
    have hbyte : byte.toNat < 256 := byte.toNat_lt
    rw [decode_cons, List.length_cons, Nat.pow_succ]
    nlinarith

theorem decode_injective {first second : List UInt8} (hlength : first.length = second.length)
    (h : decode first = decode second) : first = second := by
  induction first generalizing second with
  | nil => exact (List.length_eq_zero_iff.mp hlength.symm).symm
  | cons byte first ih =>
    cases second with
    | nil => cases hlength
    | cons other second =>
      have hsame : first.length = second.length := Nat.succ.inj hlength
      have hfirst := decode_lt first
      have hsecond := decode_lt second
      rw [hsame] at hfirst
      rw [decode_cons, decode_cons, hsame] at h
      have hpos : 0 < 256 ^ second.length := Nat.pow_pos (by decide)
      have hbyte := congrArg (· / 256 ^ second.length) h
      simp only [Nat.mul_comm _ (256 ^ second.length), Nat.mul_add_div hpos,
        Nat.div_eq_of_lt hfirst, Nat.div_eq_of_lt hsecond, Nat.add_zero] at hbyte
      rw [hbyte] at h
      rw [UInt8.toNat_inj.mp hbyte, ih hsame (Nat.add_left_cancel h)]

/-- Writing a number that was read gives the bytes it was read from. -/
theorem encode_decode (bytes : List UInt8) : encode bytes.length (decode bytes) = bytes :=
  decode_injective (encode_length _ _) (decode_encode (decode_lt bytes))

end Ceasy.BigEndian
