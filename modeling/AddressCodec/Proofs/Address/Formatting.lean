import AddressCodec.Proofs.Address.DoubleErrors
import AddressCodec.Proofs.Regroup.Cutting
import AddressCodec.Proofs.Wire.Violations

/-!
# When an address has a text

Writing the bytes of an address fails with the first length in its extra data that is over the
limit, or else if all of the extra data takes too many bytes, and for no other reason. Neither the
regrouping nor the checksummed text can fail on bytes that were written, so that the text of an
address fails as its bytes do (`format_fails_only_on_limits`).
-/

namespace AddressCodec.Address

open Bech32 (separator letter)

/-- The lengths in the extra data of an address that are over the limit, in wire order. -/
def violations (a : Address) : List WireError :=
  match a.extraData with
  | none => []
  | some e => e.violations

section Bytes

variable {a : Address}

/-- A length over the limit is reported before the size of all extra data is looked at. -/
lemma toData_of_violations {cause : WireError} {rest : List WireError}
    (broken : a.violations = cause :: rest) : a.toData = .error (.wire cause) := by
  obtain ⟨network, key, extra⟩ := a
  cases extra with
  | none => cases broken
  | some e =>
    have failed : e.toBytes = .error cause := Element.toBytes_eq_error broken
    simp only [toData, extraBytes, failed]
    rfl

/-- Extra data whose lengths can be written is refused for its size, if this is over the limit. -/
lemma toData_of_long (kept : a.violations = []) (long : 1024 < a.extraSize) :
    a.toData = .error (.address (.extraDataLimit a.extraSize 1024)) := by
  obtain ⟨network, key, extra⟩ := a
  cases extra with
  | none => cases long
  | some e =>
    have written := Element.toBytes_eq_ok kept
    have size := Element.length_of_toBytes written
    have exceeded : extraDataLimit < (Piece.wires e.pieces).length := size ▸ long
    simp only [toData, extraBytes, written]
    rw [if_pos exceeded, size]
    rfl

/-- Extra data whose lengths can be written, and whose size is within the limit, has bytes. -/
lemma exists_toData (kept : a.violations = []) (short : a.extraSize ≤ 1024) :
    ∃ data, a.toData = .ok data := by
  obtain ⟨network, key, extra⟩ := a
  cases extra with
  | none => exact ⟨_, toData_eq_ok_iff_layout.2 (.plain rfl)⟩
  | some e =>
    have written := Element.toBytes_eq_ok kept
    have inside := (Element.length_of_toBytes written).trans_le short
    exact ⟨_, toData_eq_ok_iff_layout.2 (.integrated rfl written inside)⟩

/-- No other layer has a part in writing the bytes. -/
lemma layer_of_toData_error {cause : CodecError} (failed : a.toData = .error cause) :
    (∃ inner, cause = .wire inner) ∨ ∃ inner, cause = .address inner := by
  cases listed : a.violations with
  | cons first rest =>
    cases (toData_of_violations listed).symm.trans failed
    exact .inl ⟨first, rfl⟩
  | nil =>
    by_cases short : a.extraSize ≤ 1024
    · obtain ⟨data, written⟩ := exists_toData listed short
      cases written.symm.trans failed
    · cases (toData_of_long listed (Nat.lt_of_not_le short)).symm.trans failed
      exact .inr ⟨_, rfl⟩

end Bytes

section Text

variable {a : Address}

/-- An address without bytes has no text, for the same reason. -/
lemma format_of_toData_error {cause : CodecError} (failed : a.toData = .error cause) :
    a.format = .error cause := by
  rw [format, failed]
  rfl

/-- Bytes can always be regrouped, and the symbols that come of them written on every network. -/
lemma exists_symbols (bytes : List UInt8) :
    ∃ symbols, Regroup.regroup 8 5 true bytes = .ok symbols ∧
      (∀ symbol ∈ symbols, symbol.toNat < 32) ∧
      ∀ n : Network, Bech32.encode n.hrp symbols = .ok (line n symbols) := by
  have widths : Regroup.ValidWidths 8 5 := ⟨by decide, by decide, by decide, by decide⟩
  obtain ⟨symbols, regrouped, small⟩ := Regroup.exists_regroup_pad widths (fit_bytes bytes)
  exact ⟨symbols, regrouped, small, encode_hrp_eq_line small⟩

/-- An address with bytes has a text. -/
lemma exists_format {data : List UInt8} (written : a.toData = .ok data) :
    ∃ text, a.format = .ok text := by
  obtain ⟨symbols, regrouped, -, encoded⟩ := exists_symbols data
  exact ⟨_, format_eq_ok_iff.2 ⟨data, written, symbols, regrouped, encoded a.network⟩⟩

/-- The text of an address fails with why its bytes do. -/
lemma toData_of_format_error {cause : CodecError} (failed : a.format = .error cause) :
    a.toData = .error cause := by
  cases written : a.toData with
  | ok data =>
    obtain ⟨text, formatted⟩ := exists_format written
    cases formatted.symm.trans failed
  | error other =>
    cases (format_of_toData_error written).symm.trans failed
    rfl

/-- A line that checks is in ASCII and has no uppercase characters. -/
lemma Checks.inLower {line : List Char} {n : Network} {symbols : List UInt8}
    (checks : Checks line n symbols) : ∀ c ∈ line, c.toNat < 128 ∧ c.isUpper = false := by
  have front : (['x', 'e', n.third, separator].all fun c =>
      decide (c.toNat < 128 ∧ c.isUpper = false)) = true := by
    cases n <;> decide
  have letters : (Bech32.alphabet.all fun c =>
      decide (c.toNat < 128 ∧ c.isUpper = false)) = true := by
    decide +kernel
  have whole : line = ['x', 'e', n.third, separator] ++ symbols.map letter := checks.whole
  rw [whole, List.forall_mem_append, List.forall_mem_map]
  refine ⟨?_, ?_⟩
  · intro c mem
    exact of_decide_eq_true (List.all_eq_true.1 front c mem)
  · intro symbol mem
    exact of_decide_eq_true
      (List.all_eq_true.1 letters _ (Bech32.letter_mem (checks.small symbol mem)))

/-- Four characters in front, one for five bits, and six of the checksum. -/
lemma length_of_format {text : String} (formatted : a.format = .ok text) :
    text.length = 10 + (8 * (33 + a.extraSize) + 4) / 5 := by
  obtain ⟨symbols, checks, zeros, few, count⟩ := exists_checks_of_format formatted
  have length := congrArg List.length checks.whole
  simp only [List.length_cons, List.length_map, String.length_toList] at length
  rw [Checksum.length] at count
  omega

/-- The text of an address consists of ASCII characters and has no capital letters. -/
lemma inLower_of_format {text : String} (formatted : a.format = .ok text) :
    ∀ c ∈ text.toList, c.toNat < 128 ∧ c.isUpper = false := by
  obtain ⟨symbols, checks, -⟩ := exists_checks_of_format formatted
  exact checks.inLower

end Text

/-- An address whose extra data has lengths over the limit fails with the first of them, whatever
else is wrong; one without, of which the extra data is too long altogether, fails with its size; all
others have bytes and a text. So neither the regrouping nor the checksummed text ever fails. A text
is in lowercase ASCII and as long as the extra data makes it. -/
theorem format_fails_only_on_limits :
    (∀ (a : Address) (cause : WireError) (rest : List WireError), a.violations = cause :: rest →
      a.toData = .error (.wire cause) ∧ a.format = .error (.wire cause)) ∧
    (∀ a : Address, a.violations = [] → 1024 < a.extraSize →
      a.toData = .error (.address (.extraDataLimit a.extraSize 1024)) ∧
      a.format = .error (.address (.extraDataLimit a.extraSize 1024))) ∧
    (∀ a : Address, a.violations = [] → a.extraSize ≤ 1024 →
      (∃ data, a.toData = .ok data) ∧ ∃ text, a.format = .ok text) ∧
    (∀ (a : Address) (text : String), a.format = .ok text →
      (∀ c ∈ text.toList, c.toNat < 128 ∧ c.isUpper = false) ∧
      text.length = 10 + (8 * (33 + a.extraSize) + 4) / 5) ∧
    (∀ (a : Address) (cause : Regroup.Error), a.format ≠ .error (.regroup cause)) ∧
    (∀ (a : Address) (cause : Bech32.Error), a.format ≠ .error (.text cause)) := by
  refine ⟨?_, ?_, ?_, ?_, ?_, ?_⟩
  · intro a cause rest broken
    have failed := toData_of_violations broken
    exact ⟨failed, format_of_toData_error failed⟩
  · intro a kept long
    have failed := toData_of_long kept long
    exact ⟨failed, format_of_toData_error failed⟩
  · intro a kept short
    obtain ⟨data, written⟩ := exists_toData kept short
    exact ⟨⟨data, written⟩, exists_format written⟩
  · intro a text formatted
    exact ⟨inLower_of_format formatted, length_of_format formatted⟩
  · intro a cause failed
    obtain ⟨inner, other⟩ | ⟨inner, other⟩ := layer_of_toData_error (toData_of_format_error failed)
    · cases other
    · cases other
  · intro a cause failed
    obtain ⟨inner, other⟩ | ⟨inner, other⟩ := layer_of_toData_error (toData_of_format_error failed)
    · cases other
    · cases other

/-- A key that is too long in front of an array with too many items, five strings that are too long
together, and no extra data. -/
theorem format_fails_only_on_limits_in_order :
    (∃ a : Address, a.extraData = some (.fields
        [(.string (String.ofList (List.replicate 300 'k')),
          .array (List.replicate 256 (.value (.bool true))))]) ∧
      a.violations = [.stringTooLong 300, .tooManyElements 256] ∧
      a.format = .error (.wire (.stringTooLong 300))) ∧
    (∃ a : Address, a.extraData = some (.array
        (List.replicate 5 (.value (.string (String.ofList (List.replicate 250 's')))))) ∧
      a.violations = [] ∧ 1024 < a.extraSize ∧
      a.format = .error (.address (.extraDataLimit a.extraSize 1024))) ∧
    ∃ (a : Address) (text : String), a.extraData = none ∧ a.format = .ok text ∧
      text.length = 63 := by
  refine ⟨?_, ?_, ?_⟩
  · refine ⟨integrated ⟨List.replicate 32 7, rfl⟩ .mainnet _, rfl, ?listed,
      (format_fails_only_on_limits.1 _ _ _ ?listed).2⟩
    case listed => decide +kernel
  · refine ⟨integrated ⟨List.replicate 32 7, rfl⟩ .testnet _, rfl, ?kept, ?long,
      (format_fails_only_on_limits.2.1 _ ?kept ?long).2⟩
    case kept => decide +kernel
    case long => decide +kernel
  · have short : (plain ⟨List.replicate 32 7, rfl⟩ .mainnet).extraSize ≤ 1024 := by decide
    obtain ⟨-, text, formatted⟩ := format_fails_only_on_limits.2.2.1 _ rfl short
    obtain ⟨-, length⟩ := format_fails_only_on_limits.2.2.2.1 _ text formatted
    exact ⟨_, text, rfl, formatted, length⟩

end AddressCodec.Address
