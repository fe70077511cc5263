import AddressCodec.Bytes
import AddressCodec.Proofs.Bech32.Characters
import Mathlib.Tactic.Common

/-!
# Hexadecimal text

A digit has one byte, and this is read as the digit's value, in either case (`digit?_of_toLower`).
Main statement: `decode_of_lower`, bytes are read back from every text that is theirs in lowercase.
-/

namespace AddressCodec.Hex

/-- A digit takes one byte, from which its value is read. -/
lemma digit?_digitChar : ∀ d < 16,
    String.utf8EncodeChar (Nat.digitChar d) = [Utf8.leadByte (Nat.digitChar d)] ∧
      digit? (Utf8.leadByte (Nat.digitChar d)) = some (UInt8.ofNat d) := by
  decide

/-- The letters among the digits, in the other case. -/
lemma digit?_upper : ∀ d < 16, 97 ≤ (Nat.digitChar d).toNat →
    String.utf8EncodeChar (Char.ofNat ((Nat.digitChar d).toNat - 32))
        = [Utf8.leadByte (Char.ofNat ((Nat.digitChar d).toNat - 32))] ∧
      digit? (Utf8.leadByte (Char.ofNat ((Nat.digitChar d).toNat - 32)))
        = some (UInt8.ofNat d) := by
  decide

/-- The digits that are written are lowercase. -/
lemma toLower_digitChar : ∀ d < 16, (Nat.digitChar d).toLower = Nat.digitChar d := by
  decide

section
variable {c : Char} {d : Nat}

/-- A digit of either case takes one byte, from which its value is read. -/
lemma digit?_of_toLower (small : d < 16) (same : c.toLower = Nat.digitChar d) :
    String.utf8EncodeChar c = [Utf8.leadByte c] ∧
      digit? (Utf8.leadByte c) = some (UInt8.ofNat d) := by
  have number := congrArg Char.toNat same
  rw [Bech32.toNat_toLower] at number
  split at number
  · rename_i upper
    have other : c = Char.ofNat ((Nat.digitChar d).toNat - 32) := by
      rw [← number, Nat.add_sub_cancel, Char.ofNat_toNat]
    rw [other]
    exact digit?_upper d small (by omega)
  · rw [Char.toNat_inj.1 number]
    exact digit?_digitChar d small

/-- A digit of either case is read at any index. -/
lemma digitAt_of_toLower (small : d < 16) (same : c.toLower = Nat.digitChar d) (index : Nat) :
    digitAt index (Utf8.leadByte c) = .ok (UInt8.ofNat d) := by
  rw [digitAt, (digit?_of_toLower small same).2]

end

/-- A byte is known from its halves. -/
lemma halves (b : UInt8) : 16 * UInt8.ofNat (b.toNat / 16) + UInt8.ofNat (b.toNat % 16) = b := by
  have byte := b.toNat_lt
  have sixteen : (16 : UInt8).toNat = 16 := rfl
  apply UInt8.toNat_inj.1
  rw [UInt8.toNat_add, UInt8.toNat_mul, UInt8.toNat_ofNat', UInt8.toNat_ofNat', sixteen]
  omega

section
variable {cs : List Char} {bytes : List UInt8}

/-- Characters that are digits of bytes in lowercase begin with two for the first of these. -/
lemma exists_of_lower_eq_cons {b : UInt8} (same : Bech32.lower cs = chars (b :: bytes)) :
    ∃ high low rest, cs = high :: low :: rest ∧ high.toLower = Nat.digitChar (b.toNat / 16) ∧
      low.toLower = Nat.digitChar (b.toNat % 16) ∧ Bech32.lower rest = chars bytes := by
  rw [chars, List.flatMap_cons, ofByte, List.cons_append, List.cons_append] at same
  obtain ⟨high, tail, rfl, first, same⟩ := List.map_eq_cons_iff.1 same
  obtain ⟨low, rest, rfl, second, same⟩ := List.map_eq_cons_iff.1 same
  exact ⟨high, low, rest, rfl, first, second, same⟩

/-- The digits that are written are ASCII digits, or letters from a to f. -/
lemma toNat_digitChar : ∀ d < 16, 48 ≤ (Nat.digitChar d).toNat ∧ (Nat.digitChar d).toNat ≤ 57 ∨
    97 ≤ (Nat.digitChar d).toNat ∧ (Nat.digitChar d).toNat ≤ 102 := by
  decide

/-- Hexadecimal text in either case consists of ASCII digits and letters from a to f. -/
lemma toNat_of_lower (same : Bech32.lower cs = chars bytes) :
    ∀ c ∈ cs, 48 ≤ c.toNat ∧ c.toNat ≤ 57 ∨ 65 ≤ c.toNat ∧ c.toNat ≤ 70 ∨
      97 ≤ c.toNat ∧ c.toNat ≤ 102 := by
  intro c mem
  have inLower : c.toLower ∈ chars bytes := same ▸ List.mem_map_of_mem mem
  obtain ⟨b, -, digit⟩ := List.mem_flatMap.1 inLower
  have byte := b.toNat_lt
  have one : ∃ d < 16, c.toLower = Nat.digitChar d := by
    rcases List.mem_cons.1 digit with high | low
    · exact ⟨_, by omega, high⟩
    · exact ⟨_, by omega, List.mem_singleton.1 low⟩
  obtain ⟨d, small, same⟩ := one
  have range := toNat_digitChar d small
  rw [← same, Bech32.toNat_toLower] at range
  split at range <;> omega

/-- Hexadecimal text of bytes has an even length. -/
lemma even_length_of_lower (same : Bech32.lower cs = chars bytes) :
    (cs.flatMap String.utf8EncodeChar).length % 2 = 0 := by
  induction bytes generalizing cs with
  | nil =>
    rw [List.map_eq_nil_iff.1 same]
    rfl
  | cons b bytes ih =>
    have byte := b.toNat_lt
    obtain ⟨high, low, rest, rfl, first, second, same⟩ := exists_of_lower_eq_cons same
    have even := ih same
    rw [List.flatMap_cons, List.flatMap_cons, (digit?_of_toLower (by omega) first).1,
      (digit?_of_toLower (by omega) second).1, List.length_append, List.length_append,
      List.length_singleton, List.length_singleton]
    omega

/-- Pairs of digits in either case are read as the bytes they stand for. -/
lemma pairs_of_lower (same : Bech32.lower cs = chars bytes) (index : Nat) :
    pairs index (cs.flatMap String.utf8EncodeChar) = .ok bytes := by
  induction bytes generalizing cs index with
  | nil =>
    rw [List.map_eq_nil_iff.1 same]
    rfl
  | cons b bytes ih =>
    have byte := b.toNat_lt
    obtain ⟨high, low, rest, rfl, first, second, same⟩ := exists_of_lower_eq_cons same
    rw [List.flatMap_cons, List.flatMap_cons, (digit?_of_toLower (by omega) first).1,
      (digit?_of_toLower (by omega) second).1, List.singleton_append, List.singleton_append, pairs,
      digitAt_of_toLower (by omega) first, digitAt_of_toLower (by omega) second, ih same]
    exact congrArg (fun b => Except.ok (b :: bytes)) (halves b)

/-- Hexadecimal text in either case is read as the bytes it stands for. -/
theorem decode_of_lower (same : Bech32.lower cs = chars bytes) :
    decode (String.ofList cs) = .ok bytes := by
  rw [decode, Utf8.encode_ofList]
  simp only [even_length_of_lower same, Nat.zero_ne_one, if_false]
  exact pairs_of_lower same 0

end

/-- Written hexadecimal text is lowercase. -/
lemma lower_chars (bytes : List UInt8) : Bech32.lower (chars bytes) = chars bytes := by
  induction bytes with
  | nil => rfl
  | cons b bytes ih =>
    have byte := b.toNat_lt
    have digits : Bech32.lower (ofByte b) = ofByte b := by
      rw [ofByte, Bech32.lower, List.map_cons, List.map_singleton,
        toLower_digitChar _ (by omega), toLower_digitChar _ (by omega)]
    have both : chars (b :: bytes) = ofByte b ++ chars bytes := List.flatMap_cons
    rw [both, Bech32.lower, List.map_append]
    exact congrArg₂ (· ++ ·) digits ih

/-- Bytes are read back from their hexadecimal text. -/
theorem decode_encode (bytes : List UInt8) : decode (encode bytes) = .ok bytes :=
  decode_of_lower (lower_chars bytes)

/-- Bytes with one hexadecimal text are equal. -/
lemma encode_injective {bytes bytes' : List UInt8} (same : encode bytes = encode bytes') :
    bytes = bytes' := by
  have read := congrArg decode same
  rw [decode_encode, decode_encode] at read
  exact Except.ok.inj read

end AddressCodec.Hex
