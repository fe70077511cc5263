import AddressCodec.Proofs.Address.Formatting
import AddressCodec.Proofs.Wire.Limit

/-!
# Extra data over the limit

What stands in a buffer as extra data over the limit is refused for its size, wherever in the tree
the limit falls and whatever follows the tree: a reader under the limit gives up on the way to where
one without it would stop (`extraOfBytes_of_long`). Extra data within the limit that is followed by
other bytes is refused for these (`extraOfBytes_of_trailing`). Bytes that are refused are so in text
too, for the same reason (`refused_of_ofData`).
-/

namespace AddressCodec.Address

section ExtraData

variable {e : Element} {bytes : List UInt8}

/-- Without a limit an element is read from its bytes, whatever follows them. -/
lemma element_run_append (distinct : e.DistinctKeys) (written : e.toBytes = .ok bytes)
    (more : List UInt8) :
    Reader.element.run (.start (bytes ++ more) none) = .ok e ⟨more, e.encodedSize, none⟩ := by
  have size : e.encodedSize = 0 + bytes.length := by
    rw [Element.length_of_toBytes written, Nat.zero_add]
  exact Reader.element_run_eq_ok_iff.2
    ⟨bytes, Element.spells_iff.2 ⟨distinct, written⟩, rfl, size, rfl, nofun⟩

/-- Under the limit of extra data, it is stopped there or finds the same. -/
lemma limits_append (distinct : e.DistinctKeys) (written : e.toBytes = .ok bytes)
    (more : List UInt8) :
    Reader.Limits extraDataLimit (.ok e ⟨more, e.encodedSize, none⟩)
      (Reader.element.run (.start (bytes ++ more) (some extraDataLimit))) := by
  rw [← element_run_append distinct written more]
  exact Reader.element_limits rfl (Nat.zero_le extraDataLimit)

/-- The bytes of an element over the limit are refused for it, whatever follows. -/
lemma extraOfBytes_of_long (distinct : e.DistinctKeys) (written : e.toBytes = .ok bytes)
    (long : extraDataLimit < e.encodedSize) (more : List UInt8) :
    ∃ size, extraDataLimit < size ∧ size ≤ e.encodedSize ∧
      extraOfBytes (bytes ++ more) = .error (.address (.extraDataLimit size extraDataLimit)) := by
  -- The run without a limit ends beyond it, and the limited one gives up before that place.
  obtain ⟨size, stop, run, passed, reached⟩ := (limits_append distinct written more).2 long
  refine ⟨size, passed, reached, ?_⟩
  rw [extraOfBytes, run]

/-- Bytes behind those of an element within the limit are counted and refused. -/
lemma extraOfBytes_of_trailing (distinct : e.DistinctKeys) (written : e.toBytes = .ok bytes)
    (short : e.encodedSize ≤ extraDataLimit) {more : List UInt8} (some_more : more ≠ []) :
    extraOfBytes (bytes ++ more) = .error (.address (.trailingBytes more.length)) := by
  have run := (limits_append distinct written more).1 short
  rw [extraOfBytes, run]
  exact if_neg (mt List.eq_nil_of_length_eq_zero some_more)

end ExtraData

/-- Behind a key and the type byte 1 everything is extra data. -/
lemma ofData_integrated (key : Bytes32) (extra : List UInt8) (network : Network) :
    ofData (key.bytes ++ 1 :: extra) network
      = (extraOfBytes extra).map (integrated key network) := by
  rw [ofData, List.take_left' key.length_eq, List.drop_left' key.length_eq, Bytes32.ofList?_bytes]
  rfl

/-- Some bytes are refused on a network, and the text that is written for them is too, for the same
reason. -/
structure Refused (data : List UInt8) (network : Network) (cause : CodecError) : Prop where
  raw : ofData data network = .error cause
  text : ∃ symbols text, Regroup.regroup 8 5 true data = .ok symbols ∧
    Bech32.encode network.hrp symbols = .ok text ∧ parse text = .error cause

/-- Bytes that are refused by themselves are refused in the text that is written for them. -/
lemma refused_of_ofData {data : List UInt8} {network : Network} {cause : CodecError}
    (ne : data ≠ []) (failed : ofData data network = .error cause) :
    Refused data network cause := by
  obtain ⟨symbols, regrouped, -, encoded⟩ := exists_symbols data
  have inLower := Bech32.lower_of_encode_eq_ok (encoded network)
  refine ⟨failed, symbols, _, regrouped, encoded network, ?_⟩
  rw [← failed]
  refine parse_eq_ofData (Bech32.mixesCase_of_lower_eq inLower) ne regrouped ?_
  rw [inLower, String.ofList_toList]
  exact encoded network

/-- Behind a key and the type byte, the bytes of an element that are more than the limit are refused
for a size over the limit, and not more than they are, whatever follows them; and within the limit,
bytes that follow them are refused for their number. Elements have no repeated keys here, as all
that are read. -/
theorem oversized_extra_data_is_refused (e : Element) (bytes : List UInt8) (key : Bytes32)
    (network : Network) (more : List UInt8) (distinct : e.DistinctKeys)
    (written : e.toBytes = .ok bytes) :
    let data := key.bytes ++ 1 :: (bytes ++ more)
    (1024 < e.encodedSize → ∃ size, 1024 < size ∧ size ≤ e.encodedSize ∧
      Refused data network (.address (.extraDataLimit size 1024))) ∧
    (e.encodedSize ≤ 1024 → more ≠ [] →
      Refused data network (.address (.trailingBytes more.length))) := by
  intro data
  have ne : data ≠ [] := List.append_ne_nil_of_right_ne_nil _ (List.cons_ne_nil _ _)
  have read : ofData data network = (extraOfBytes (bytes ++ more)).map (integrated key network) :=
    ofData_integrated key _ network
  refine ⟨?_, ?_⟩
  · intro long
    obtain ⟨size, passed, reached, failed⟩ := extraOfBytes_of_long distinct written long more
    refine ⟨size, passed, reached, refused_of_ofData ne ?_⟩
    rw [read, failed]
    rfl
  · intro short some_more
    refine refused_of_ofData ne ?_
    rw [read, extraOfBytes_of_trailing distinct written short some_more]
    rfl

/-- Five strings that are too long together with a byte behind them, and a number with two. -/
theorem oversized_extra_data_is_refused_behind_strings :
    let key : Bytes32 := ⟨List.replicate 32 7, rfl⟩
    let strings : Element := .array
      (List.replicate 5 (.value (.string (String.ofList (List.replicate 250 's')))))
    (∃ bytes size, strings.toBytes = .ok bytes ∧ 1024 < size ∧ size ≤ 1267 ∧
      Refused (key.bytes ++ 1 :: (bytes ++ [9])) .mainnet (.address (.extraDataLimit size 1024))) ∧
    Refused (key.bytes ++ 1 :: ([0, 2, 5] ++ [9, 9])) .testnet (.address (.trailingBytes 2)) := by
  intro key strings
  refine ⟨?_, ?_⟩
  · have kept : strings.violations = [] := by decide +kernel
    have size : strings.encodedSize = 1267 := by decide +kernel
    have distinct : strings.DistinctKeys :=
      ⟨trivial, trivial, trivial, trivial, trivial, trivial⟩
    have written := Element.toBytes_eq_ok kept
    obtain ⟨long, -⟩ := oversized_extra_data_is_refused strings _ key .mainnet [9] distinct written
    obtain ⟨reported, passed, reached, refused⟩ := long (by rw [size]; decide)
    exact ⟨_, reported, written, passed, size ▸ reached, refused⟩
  · let number : Element := .value (.uint .w8 5)
    have written : number.toBytes = .ok [0, 2, 5] := by rfl
    obtain ⟨-, trailing⟩ :=
      oversized_extra_data_is_refused number [0, 2, 5] key .testnet [9, 9] trivial written
    exact trailing (by decide) (by decide)

end AddressCodec.Address
