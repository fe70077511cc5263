import AddressCodec.Proofs.Address.Layout
import AddressCodec.Proofs.Address.Line
import AddressCodec.Proofs.Checksum.Period

/-!
# Two wrong symbols

The text of an address has eight symbols for five bytes and six more (`exists_checks_of_format`), so
the texts of addresses with much extra data are longer than the period of the checksum. What the
checksum tells of two wrong symbols in texts of any length is `double_errors_detected_exactly`.
-/

namespace AddressCodec

open Checksum (verify)

namespace Address

/-- The text of an address is a line that checks; the symbols hold all its bits, fewer than five
more, and the checksum. -/
lemma exists_checks_of_format {a : Address} {text : String} (written : a.format = .ok text) :
    ∃ symbols, Checks text.toList a.network symbols ∧ ∃ zeros < 5,
      5 * symbols.length = 8 * (33 + a.extraSize) + zeros + 5 * Checksum.length := by
  obtain ⟨bytes, layout, data, regrouped, encoded⟩ := format_eq_ok_iff.1 written
  obtain ⟨-, payload, spells, whole⟩ := Bech32.encode_eq_ok_iff.1 encoded
  obtain ⟨-, -, -, zeros, few, bits⟩ := Regroup.regroup_pad_eq_ok_iff.1 regrouped
  rw [a.network.lower_hrp, String.ofList_toList] at spells
  refine ⟨data ++ Checksum.create a.network.hrp data, ⟨?_, spells.1, ?_⟩, zeros, few, ?_⟩
  · rw [whole, Bech32.assemble, String.toList_ofList, a.network.lower_hrp, a.network.toList_hrp,
      ← spells.2]
    rfl
  · exact Checksum.verify_create _ data
  · have count := congrArg List.length bits
    rw [Regroup.length_spell, List.length_append, Regroup.length_spell, List.length_replicate,
      (toData_eq_ok_iff_layout.1 layout).length_eq] at count
    rw [List.length_append, Checksum.length_create, Nat.mul_add, count]

/-- The text of an address has more symbols than the period of the checksum exactly if its extra
data takes 603 bytes or more. -/
lemma period_lt_length_iff {symbols : List UInt8} {size zeros : Nat} (few : zeros < 5)
    (count : 5 * symbols.length = 8 * (33 + size) + zeros + 5 * Checksum.length) :
    1023 < symbols.length ↔ 603 ≤ size := by
  rw [Checksum.length] at count
  omega

/-- In symbols that check, two wrong ones go unnoticed exactly if they are a multiple of 1023 places
apart and differ from the right ones in the same bits. So two wrong symbols that are nearer are
always noticed, and where there are symbols 1023 places apart, some are not. There are in the texts
of just those addresses whose extra data takes 603 bytes or more. -/
theorem double_errors_detected_exactly :
    (∀ (hrp : String) (symbols : List UInt8) (i j : Nat) (e f : UInt8),
      verify hrp symbols = true → i < j → j < symbols.length → e ≠ 0 → e < 32 → f ≠ 0 → f < 32 →
        (verify hrp ((symbols.modify i (· ^^^ e)).modify j (· ^^^ f)) = true ↔
          1023 ∣ j - i ∧ e = f)) ∧
    (∀ (a : Address) (text : String), a.format = .ok text →
      ∃ symbols, Checks text.toList a.network symbols ∧
        (603 ≤ a.extraSize ↔ ∃ i j e, i < j ∧ j < symbols.length ∧ e ≠ 0 ∧ e < 32 ∧
          verify a.network.hrp ((symbols.modify i (· ^^^ e)).modify j (· ^^^ e)) = true)) := by
  refine ⟨?_, ?_⟩
  · intro hrp symbols i j e f valid before inside he small hf small'
    exact Checksum.verify_modify_modify_iff valid before inside
      (Checksum.isSymbol_toUInt32 he small) (Checksum.isSymbol_toUInt32 hf small')
  · intro a text written
    obtain ⟨symbols, checks, zeros, few, count⟩ := exists_checks_of_format written
    refine ⟨symbols, checks, ?_⟩
    rw [← period_lt_length_iff few count]
    refine ⟨?_, ?_⟩
    · intro long
      have one := Checksum.isSymbol_toUInt32 (e := 1) (by decide) (by decide)
      exact ⟨0, 1023, 1, by decide, long, by decide, by decide,
        (Checksum.verify_modify_modify_iff checks.valid (by decide) long one one).2
          ⟨Nat.dvd_refl 1023, rfl⟩⟩
    · intro ⟨i, j, e, before, inside, ne, small, passes⟩
      have symbol := Checksum.isSymbol_toUInt32 ne small
      obtain ⟨far, -⟩ :=
        (Checksum.verify_modify_modify_iff checks.valid before inside symbol symbol).1 passes
      have := Nat.le_of_dvd (Nat.sub_pos_of_lt before) far
      omega

/-- Among as many symbols as it takes, the first and the last wrong in the same bit. -/
theorem double_errors_detected_exactly_zeros :
    ∃ symbols : List UInt8, symbols.length = 1024 ∧ verify "xel" symbols = true ∧
      verify "xel" ((symbols.modify 0 (· ^^^ 1)).modify 1023 (· ^^^ 1)) = true := by
  have length : (List.replicate 1018 0 ++ Checksum.create "xel" (List.replicate 1018 0)).length
      = 1024 := by
    rw [List.length_append, List.length_replicate, Checksum.length_create, Checksum.length]
  have valid : verify "xel" (List.replicate 1018 0
      ++ Checksum.create "xel" (List.replicate 1018 0)) = true :=
    (Checksum.verify_append_iff (Checksum.length_create _ _) (Checksum.create_lt _ _)).2 rfl
  refine ⟨_, length, valid, ?_⟩
  exact (double_errors_detected_exactly.1 _ _ 0 1023 1 1 valid (by decide) (by rw [length]; decide)
    (by decide) (by decide) (by decide) (by decide)).2 ⟨Nat.dvd_refl 1023, rfl⟩

end Address

end AddressCodec
