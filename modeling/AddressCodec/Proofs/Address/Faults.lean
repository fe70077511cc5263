import AddressCodec.Proofs.Address.Oversized
import AddressCodec.Proofs.Bech32.Faults
import AddressCodec.Proofs.Wire.Faults

/-!
# Faults of addresses

The errors that reading the text of an address reports, exactly: each of them is a fault of the text
(`fault_of_parse`), and each is reported for some text (`Fault.exists_text`). The list has no error
of writing, none of a symbol or word that is too wide, and no limit of the reader but as that of the
extra data.
-/

namespace AddressCodec

namespace Regroup

/-- Words that fit in their width can only leave too many bits over, or bits that are not zero. -/
lemma error_of_fit {source target : Nat} {words : List UInt8} {cause : Error}
    (valid : ValidWidths source target) (fit : Fit source words)
    (failed : regroup source target false words = .error cause) :
    cause = .leftoverWord ∨ cause = .nonZeroPadding := by
  rw [regroup, if_neg (validWidths_iff.1 valid), (find?_wide_eq_none_iff valid.source_le).2 fit]
    at failed
  simp only [finish] at failed
  split at failed
  next padded => cases padded
  next =>
    split at failed
    next => exact .inl (Except.error.inj failed).symm
    next =>
      split at failed
      next => exact .inr (Except.error.inj failed).symm
      next => cases failed

end Regroup

namespace Address

/-- Behind a human readable part of no network nothing else is looked at. -/
lemma parse_of_unknown {text hrp : String} {symbols : List UInt8}
    (decoded : Bech32.decode text = .ok (hrp, symbols))
    (unknown : ∀ network : Network, network.hrp ≠ hrp) :
    parse text = .error (.address (.unknownHrp hrp)) := by
  have none : Network.all.find? (fun n => n.hrp == hrp) = none := by
    refine List.find?_eq_none.2 fun network _ same => ?_
    exact unknown network (beq_iff_eq.1 same)
  have unnamed : Network.ofHrp hrp = .error (.unknownHrp hrp) := by rw [Network.ofHrp, none]
  rw [parse, decoded]
  show ((Network.ofHrp hrp).mapError CodecError.address >>= _) = _
  rw [unnamed]
  rfl

/-- What can be wrong with the bytes of an address. -/
inductive RawFault : CodecError → Prop
  | key {length : Nat} : 0 < length → length < 32 →
      RawFault (.address (.invalidPublicKeyLength length))
  | noType : RawFault (.address .missingType)
  | type {type : UInt8} : 2 ≤ type → RawFault (.address (.invalidType type))
  | trailing {count : Nat} : 0 < count → RawFault (.address (.trailingBytes count))
  | limit {size : Nat} : 1024 < size → size ≤ 1279 →
      RawFault (.address (.extraDataLimit size 1024))
  | wire {cause : WireError} : Reader.Fault cause → RawFault (.wire cause)

/-- What can be wrong with the text of an address. -/
inductive Fault (text : String) : CodecError → Prop
  | text {cause : Bech32.Error} : Bech32.Fault text cause → Fault text (.text cause)
  | leftover : Fault text (.regroup .leftoverWord)
  | padding : Fault text (.regroup .nonZeroPadding)
  | hrp {hrp : String} {data : List UInt8} : Bech32.decode text = .ok (hrp, data) →
      (∀ network : Network, network.hrp ≠ hrp) → Fault text (.address (.unknownHrp hrp))
  | raw {cause : CodecError} : RawFault cause → Fault text cause

/-- What the reader of trees says of the bytes is said of the extra data. -/
lemma extraOfBytes_of_fault {extra : List UInt8} {cause : WireError} {stop : Cursor}
    (run : Reader.element.run (.start extra (some 1024)) = .error cause stop)
    (fault : Reader.Fault cause) : extraOfBytes extra = .error (.wire cause) := by
  rw [extraOfBytes, extraDataLimit, run]
  cases fault <;> rfl

/-- What is wrong with the bytes of extra data is wrong with those of the address. -/
lemma rawFault_of_extraOfBytes {extra : List UInt8} {cause : CodecError}
    (failed : extraOfBytes extra = .error cause) : RawFault cause := by
  have within : (Cursor.start extra (some 1024)).Within := fun l _ => Nat.zero_le l
  cases run : Reader.element.run (.start extra (some 1024)) with
  | ok e next =>
    rw [extraOfBytes, extraDataLimit, run] at failed
    simp only at failed
    split at failed
    next => cases failed
    next left =>
      cases failed
      exact .trailing (Nat.pos_of_ne_zero left)
  | error reason stop =>
    -- The limit is rewritten to that of the extra data; every other error is passed on.
    rcases Reader.element_run_error within run with fault | ⟨l, size, limited, rfl, beyond, near⟩
    · cases (extraOfBytes_of_fault run fault).symm.trans failed
      exact .wire fault
    · rw [extraOfBytes, extraDataLimit, run] at failed
      cases limited
      cases failed
      exact .limit beyond near

/-- Bytes that are not empty are refused for a fault of the bytes. -/
lemma rawFault_of_ofData {bytes : List UInt8} {network : Network} {cause : CodecError}
    (ne : bytes ≠ []) (failed : ofData bytes network = .error cause) : RawFault cause := by
  rw [ofData] at failed
  cases packed : Bytes32.ofList? (bytes.take 32) with
  | none =>
    rw [packed] at failed
    cases failed
    rw [Bytes32.ofList?, dite_eq_right_iff] at packed
    refine .key (List.length_pos_iff.2 ne) (Nat.lt_of_not_le fun enough => ?_)
    cases packed (List.length_take_of_le enough)
  | some key =>
    rw [packed] at failed
    simp only at failed
    split at failed
    next =>
      cases failed
      exact .noType
    next => cases failed
    next extra some_extra _ =>
      cases failed
      exact .trailing (List.length_pos_iff.2 fun none => some_extra (none ▸ rfl))
    next extra _ => exact rawFault_of_extraOfBytes (Outcome.map_eq_error_iff.1 failed)
    next type _ _ zero one _ =>
      cases failed
      exact .type (by grind)

/-- Each fault is that of some bytes, on every network. -/
lemma RawFault.exists_data {cause : CodecError} (fault : RawFault cause) (network : Network) :
    ∃ data, data ≠ [] ∧ ofData data network = .error cause := by
  let key : Bytes32 := ⟨List.replicate 32 0, rfl⟩
  have ne (rest : List UInt8) : key.bytes ++ rest ≠ [] := nofun
  have behind (rest : List UInt8) : (key.bytes ++ rest).drop 32 = rest := rfl
  have packed (rest : List UInt8) : Bytes32.ofList? ((key.bytes ++ rest).take 32) = some key := rfl
  cases fault with
  | @key length pos short =>
    have whole : (List.replicate length (0 : UInt8)).length = length := List.length_replicate
    have packed : Bytes32.ofList? ((List.replicate length 0).take 32) = none := by
      rw [List.take_of_length_le (by omega), Bytes32.ofList?, dif_neg (by omega)]
    refine ⟨List.replicate length 0, List.length_pos_iff.1 (whole.symm ▸ pos), ?_⟩
    rw [ofData, packed, whole]
  | noType => exact ⟨_, ne [], rfl⟩
  | @type type other =>
    refine ⟨_, ne [type], ?_⟩
    have zero : type ≠ 0 := by grind
    have one : type ≠ 1 := by grind
    rw [ofData, packed, behind]
    dsimp only
    split
    next empty => cases empty
    next same => exact absurd (List.cons.inj same).1 zero
    next same => exact absurd (List.cons.inj same).1 zero
    next same => exact absurd (List.cons.inj same).1 one
    next same => rw [(List.cons.inj same).1]
  | @trailing count pos =>
    obtain ⟨more, rfl⟩ := Nat.exists_eq_add_one.2 pos
    refine ⟨_, ne (0 :: List.replicate (more + 1) 0), ?_⟩
    rw [ofData, packed, behind]
    show Except.error (CodecError.address (.trailingBytes (List.replicate (more + 1) 0).length)) = _
    rw [List.length_replicate]
  | limit beyond near =>
    obtain ⟨buffer, stop, run⟩ := Reader.exists_buffer_over beyond near
    refine ⟨_, ne (1 :: buffer), ?_⟩
    rw [ofData_integrated, extraOfBytes, extraDataLimit, run]
    rfl
  | wire fault =>
    obtain ⟨buffer, stop, run⟩ := fault.exists_buffer
    refine ⟨_, ne (1 :: buffer), ?_⟩
    rw [ofData_integrated, extraOfBytes_of_fault run fault]
    rfl

/-- Symbols that were read are regrouped to some bytes, if to any. -/
lemma ne_nil_of_regroup {symbols bytes : List UInt8} (some_symbols : symbols ≠ [])
    (regrouped : Regroup.regroup 5 8 false symbols = .ok bytes) : bytes ≠ [] := by
  rintro rfl
  have back := (Regroup.regroup_pad_eq_ok_iff_exact (by decide)).2 ⟨fit_bytes [], regrouped⟩
  have nothing : Regroup.regroup 8 5 true [] = .ok [] := by decide
  exact some_symbols (Except.ok.inj (back.symm.trans nothing))

/-- What reading the text of an address reports is a fault of the text. -/
lemma fault_of_parse {text : String} {cause : CodecError} (failed : parse text = .error cause) :
    Fault text cause := by
  cases decoded : Bech32.decode text with
  | error reason =>
    rw [parse, decoded] at failed
    cases failed
    exact .text (Bech32.decode_eq_error_iff.1 decoded)
  | ok parts =>
    obtain ⟨hrp, symbols⟩ := parts
    by_cases known : ∃ network : Network, network.hrp = hrp
    · obtain ⟨network, rfl⟩ := known
      -- Symbols that were read fit in five bits, so none of them is too wide to be regrouped.
      obtain ⟨some_symbols, small⟩ := Bech32.symbols_of_decode decoded
      rw [parse_of_decode decoded] at failed
      rcases Outcome.bind_eq_error_iff.1 failed with stuck | ⟨bytes, regrouped, failed⟩
      · obtain ⟨reason, uneven, rfl⟩ := Outcome.mapError_eq_error_iff.1 stuck
        have widths : Regroup.ValidWidths 5 8 := ⟨by decide, by decide, by decide, by decide⟩
        rcases Regroup.error_of_fit widths small uneven with rfl | rfl
        · exact .leftover
        · exact .padding
      · have regrouped := Outcome.mapError_eq_ok_iff.1 regrouped
        exact .raw (rawFault_of_ofData (ne_nil_of_regroup some_symbols regrouped) failed)
    · have unknown := not_exists.1 known
      rw [parse_of_unknown decoded unknown] at failed
      cases failed
      exact .hrp decoded unknown

/-- The text of some symbols on a network is read as these. -/
lemma decode_line {symbols : List UInt8} (small : ∀ symbol ∈ symbols, symbol.toNat < 32)
    (ne : symbols ≠ []) (n : Network) :
    Bech32.decode (line n symbols) = .ok (n.hrp, symbols) := by
  have written := encode_hrp_eq_line small n
  have inLower := Bech32.lower_of_encode_eq_ok written
  refine Bech32.decode_eq_ok_iff_encode.2
    ⟨Bech32.mixesCase_of_lower_eq inLower, n.lower_hrp, ne, ?_⟩
  rw [inLower, String.ofList_toList]
  exact written

/-- Each fault is reported for some text. -/
lemma Fault.exists_text {text : String} {cause : CodecError} (fault : Fault text cause) :
    ∃ other, parse other = .error cause := by
  cases fault with
  | text fault =>
    refine ⟨text, ?_⟩
    rw [parse, Bech32.decode_eq_error_iff.2 fault]
    rfl
  | leftover =>
    refine ⟨line .mainnet [0], ?_⟩
    have stuck : Regroup.regroup 5 8 false [0] = .error .leftoverWord := by decide
    rw [parse_of_decode (decode_line (by simp) (by simp) .mainnet), stuck]
    rfl
  | padding =>
    refine ⟨line .mainnet [0, 1], ?_⟩
    have stuck : Regroup.regroup 5 8 false [0, 1] = .error .nonZeroPadding := by decide
    rw [parse_of_decode (decode_line (by simp) (by simp) .mainnet), stuck]
    rfl
  | hrp decoded unknown => exact ⟨text, parse_of_unknown decoded unknown⟩
  | raw fault =>
    obtain ⟨data, ne, failed⟩ := fault.exists_data .mainnet
    obtain ⟨-, symbols, text, -, -, failed⟩ := refused_of_ofData ne failed
    exact ⟨text, failed⟩

/-- Errors that reading never reports: those of writing and of names, of symbols, words and widths
that are too large, of a sink or a buffer, and of a limit or of bytes left over that are not those
of the address. -/
def Unheard : CodecError → Prop
  | .text .emptyHrp | .text (.invalidSymbol _) => True
  | .regroup (.invalidWidth _ _) | .regroup (.wordTooWide _ _) => True
  | .address (.unknownNetwork _) => True
  | .wire (.sizeLimit _ _) | .wire (.trailingBytes _) | .wire (.stringTooLong _) => True
  | .wire (.tooManyElements _) | .wire .sinkFull => True
  | _ => False

/-- No fault of a text is an error that reading never reports. -/
lemma Fault.not_unheard {text : String} {cause : CodecError} (fault : Fault text cause) :
    ¬ Unheard cause := by
  cases fault with
  | text fault => cases fault <;> exact id
  | leftover => exact id
  | padding => exact id
  | hrp decoded unknown => exact id
  | raw fault =>
    cases fault with
    | wire fault => cases fault <;> exact id
    | _ => exact id

/-- What reading the text of an address reports is a fault of that text and none of the errors of
other layers, and each fault that is listed is reported for some text. -/
theorem parsing_reports_faults :
    (∀ text cause, parse text = .error cause → Fault text cause ∧ ¬ Unheard cause) ∧
    ∀ text cause, Fault text cause → ∃ other, parse other = .error cause := by
  refine ⟨?_, fun text cause => Fault.exists_text⟩
  intro text cause failed
  have fault := fault_of_parse failed
  exact ⟨fault, fault.not_unheard⟩

/-- Six characters behind the separator are too few, and the largest size over the limit is
reported. -/
theorem parsing_reports_faults_at_the_bounds :
    let short := CodecError.text (.invalidSeparator (some 3))
    let long := CodecError.address (.extraDataLimit 1279 1024)
    parse "xel:qqqqqq" = .error short ∧ Fault "xel:qqqqqq" short ∧
      Fault "xel:qqqqqq" long ∧ ∃ other, parse other = .error long := by
  intro short long
  obtain ⟨reported, reached⟩ := parsing_reports_faults
  have failed : parse "xel:qqqqqq" = .error short := by rfl
  have fault : Fault "xel:qqqqqq" long := .raw (.limit (by decide) (by decide))
  exact ⟨failed, (reported _ _ failed).1, fault, reached _ _ fault⟩

end Address

end AddressCodec
