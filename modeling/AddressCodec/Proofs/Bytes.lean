import AddressCodec.Bytes
import Mathlib.Algebra.Order.Ring.Nat
import Mathlib.Data.List.Induction
import Mathlib.Tactic.Common

/-!
# Bytes of scalars

Fixed-width numbers, blocks and strings are each known from their bytes: `BigEndian.decode_encode`
and `BigEndian.encode_decode`, `Bytes32.ofList?_eq_some_iff`.
-/

namespace AddressCodec

namespace BigEndian

/-- A number of few enough bytes is read back from them. -/
lemma decode_encode (count n : Nat) : decode (encode count n) = n % 256 ^ count := by
  induction count generalizing n with
  | zero => rw [Nat.pow_zero, Nat.mod_one]; rfl
  | succ count ih =>
    have low : (UInt8.ofNat n).toNat = n % 256 := UInt8.toNat_ofNat'
    rw [encode, decode_append_singleton, ih, low, Nat.pow_succ', Nat.mod_mul, Nat.add_comm]

/-- Some bytes spell a number of their width. -/
lemma decode_lt (bytes : List UInt8) : decode bytes < 256 ^ bytes.length := by
  induction bytes using List.reverseRecOn with
  | nil => exact Nat.one_pos
  | append_singleton bytes b ih =>
    have byte : b.toNat < 256 := b.toNat_lt
    rw [decode_append_singleton, List.length_append, List.length_singleton, Nat.pow_succ]
    omega

/-- Bytes are the bytes of the number they denote. -/
lemma encode_decode (bytes : List UInt8) : encode bytes.length (decode bytes) = bytes := by
  induction bytes using List.reverseRecOn with
  | nil => rfl
  | append_singleton bytes b ih =>
    have byte : b.toNat < 256 := b.toNat_lt
    have high : (256 * decode bytes + b.toNat) / 256 = decode bytes := by omega
    have low : UInt8.ofNat (256 * decode bytes + b.toNat) = b := by
      apply UInt8.toNat_inj.1
      rw [UInt8.toNat_ofNat']
      omega
    rw [List.length_append, List.length_singleton, decode_append_singleton, encode, high, low, ih]

end BigEndian

/-- A byte list makes 32 bytes exactly if it is their list. -/
lemma Bytes32.ofList?_eq_some_iff {bytes : List UInt8} {b : Bytes32} :
    Bytes32.ofList? bytes = some b ↔ bytes = b.bytes := by
  refine ⟨?_, ?_⟩
  · intro h
    rw [Bytes32.ofList?] at h
    split at h
    · cases h
      rfl
    · cases h
  · intro h
    rw [h, ofList?_bytes]

/-- A string has as many bytes as its size says. -/
@[simp] lemma Utf8.length_encode (s : String) : (Utf8.encode s).length = s.utf8ByteSize :=
  rfl

end AddressCodec
