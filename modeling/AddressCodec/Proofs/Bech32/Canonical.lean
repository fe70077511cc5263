import AddressCodec.Proofs.Bech32.Characters
import AddressCodec.Proofs.Checksum.Codewords

/-!
# Checksummed text has one form

When writing succeeds (`encode_eq_ok_iff`) and when reading does (`decode_eq_ok_iff`). Reading
accepts exactly what writing produces, up to letter case (`decode_eq_ok_iff_encode`).
-/

namespace AddressCodec.Bech32

/-- What can stand in front of the separator: printable characters in one case, at least one. -/
structure IsHrp (hrp : List Char) : Prop where
  ne_nil : hrp ≠ []
  printable : ∀ byte ∈ Utf8.encode (String.ofList hrp), 33 ≤ byte ∧ byte ≤ 126
  oneCase : mixesCase hrp = false

/-- The text of a human readable part in lowercase and a payload. -/
def assemble (hrp payload : List Char) : String :=
  String.ofList (lower hrp ++ separator :: payload)

/-- A string can stand in front of the separator if it is not empty, its bytes are printable and its
letters are of one case. -/
lemma isHrp_toList_iff {hrp : String} :
    IsHrp hrp.toList ↔ hrp ≠ "" ∧ (∀ byte ∈ Utf8.encode hrp, 33 ≤ byte ∧ byte ≤ 126) ∧
      mixesCase hrp.toList = false := by
  have empty : hrp.toList = [] ↔ hrp = "" := String.toList_eq_nil_iff
  refine ⟨?_, ?_⟩
  · intro h
    refine ⟨mt empty.2 h.ne_nil, ?_, h.oneCase⟩
    rw [← @String.ofList_toList hrp]
    exact h.printable
  · intro h
    obtain ⟨ne, printable, oneCase⟩ := h
    refine ⟨mt empty.1 ne, ?_, oneCase⟩
    rw [String.ofList_toList]
    exact printable

/-- What can stand in front of the separator can stand there in lowercase. -/
lemma IsHrp.lower {hrp : List Char} (h : IsHrp hrp) : IsHrp (lower hrp) where
  ne_nil := by
    rw [Bech32.lower, Ne, List.map_eq_nil_iff]
    exact h.ne_nil
  printable := by
    rw [forall_printable_iff, Bech32.lower, List.forall_mem_map]
    intro c mem
    rw [isHrpChar_toLower]
    exact forall_printable_iff.1 h.printable c mem
  oneCase := mixesCase_lower hrp

/-- An assembled text is lowercase. -/
lemma lower_toList_assemble (hrp : List Char) {payload : List Char} {symbols : List UInt8}
    (spells : Spells symbols payload) :
    Bech32.lower (assemble hrp payload).toList = (assemble hrp payload).toList := by
  have tail := spells.lower_eq
  unfold assemble Bech32.lower at *
  rw [String.toList_ofList, List.map_append, List.map_cons, tail]
  simp [separator]

/-- The payload of assembled text is what stands behind its last separator. -/
lemma splitLast?_assemble (hrp : List Char) {payload : List Char} {symbols : List UInt8}
    (spells : Spells symbols payload) :
    splitLast? separator (assemble hrp payload).toList = some (Bech32.lower hrp, payload) := by
  rw [assemble, String.toList_ofList]
  exact splitLast?_eq_some_iff.2 ⟨rfl, spells.separator_notMem⟩

/-- Writing succeeds exactly with a human readable part and symbols of five bits, and puts the
checksum behind the symbols. -/
lemma encode_eq_ok_iff {hrp : String} {data : List UInt8} {text : String} :
    encode hrp data = .ok text ↔ IsHrp hrp.toList ∧ ∃ payload,
      Spells (data ++ Checksum.create (String.ofList (lower hrp.toList)) data) payload ∧
      text = assemble hrp.toList payload := by
  simp only [encode, Outcome.check_eq_ok_iff, Outcome.bind_eq_ok_iff, Outcome.pure_eq_ok_iff,
    mapM_charOf_eq_ok_iff]
  refine ⟨?_, ?_⟩
  · intro both
    obtain ⟨ne, ⟨⟩, printable, oneCase, payload, spells, rfl⟩ := both
    exact ⟨⟨ne, checkHrp_eq_ok_iff.1 printable, Bool.not_eq_true _ ▸ oneCase⟩, payload, spells, rfl⟩
  · intro both
    obtain ⟨⟨ne, printable, oneCase⟩, payload, spells, rfl⟩ := both
    exact ⟨ne, (), checkHrp_eq_ok_iff.2 printable, by simp [oneCase], payload, spells, rfl⟩

/-- What is written is in lowercase. -/
lemma lower_of_encode_eq_ok {hrp text : String} {data : List UInt8}
    (written : encode hrp data = .ok text) : lower text.toList = text.toList := by
  obtain ⟨-, payload, spells, whole⟩ := encode_eq_ok_iff.1 written
  rw [whole]
  exact lower_toList_assemble _ spells

/-- Reading text of one case that, in lowercase, is a human readable part, a separator and the
characters of enough symbols comes down to the checksum. -/
lemma decode_eq_of_spells {text hrp : String} {payload : List Char} {symbols : List UInt8}
    (oneCase : mixesCase text.toList = false)
    (whole : lower text.toList = hrp.toList ++ separator :: payload) (ne : hrp.toList ≠ [])
    (printable : ∀ byte ∈ Utf8.encode hrp, 33 ≤ byte ∧ byte ≤ 126)
    (spells : Spells symbols payload) (enough : Checksum.length < symbols.length) :
    decode text = if Checksum.verify hrp symbols
      then .ok (hrp, symbols.take (symbols.length - Checksum.length))
      else .error .invalidChecksum := by
  have found := splitLast?_eq_some_iff.2 ⟨whole, spells.separator_notMem⟩
  have room : ¬ (hrp.toList = [] ∨ Utf8.byteLength payload ≤ Checksum.length) := by
    rw [not_or, spells.byteLength_eq, Nat.not_le]
    exact ⟨ne, enough⟩
  have checked : checkHrp hrp.toList = .ok () := by
    rw [checkHrp_eq_ok_iff, String.ofList_toList]
    exact printable
  have read := mapM_symbolOf_eq_ok_iff.2 spells
  simp only [decode, oneCase, found, if_neg room, checked, read, String.ofList_toList]
  rfl

/-- Reading succeeds exactly on text of one case that, in lowercase, is a human readable part, the
last separator, and the characters of a valid payload with something in front of its checksum. -/
lemma decode_eq_ok_iff {text hrp : String} {data : List UInt8} :
    decode text = .ok (hrp, data) ↔ mixesCase text.toList = false ∧ ∃ payload symbols,
      lower text.toList = hrp.toList ++ separator :: payload ∧ hrp.toList ≠ [] ∧
      (∀ byte ∈ Utf8.encode hrp, 33 ≤ byte ∧ byte ≤ 126) ∧ Spells symbols payload ∧
      Checksum.length < symbols.length ∧ Checksum.verify hrp symbols = true ∧
      data = symbols.take (symbols.length - Checksum.length) := by
  refine ⟨?_, ?_⟩
  · intro read
    simp only [decode, Outcome.check_eq_ok_iff] at read
    obtain ⟨oneCase, read⟩ := read
    refine ⟨Bool.not_eq_true _ ▸ oneCase, ?_⟩
    -- Reading stops at the first check that fails; a result has passed them all.
    cases found : splitLast? separator (lower text.toList) with
    | none =>
      rw [found] at read
      cases read
    | some parts =>
      obtain ⟨before, after⟩ := parts
      obtain ⟨whole, _⟩ := splitLast?_eq_some_iff.1 found
      simp only [found, Outcome.check_eq_ok_iff, Outcome.bind_eq_ok_iff,
        mapM_symbolOf_eq_ok_iff] at read
      obtain ⟨enough, _, printable, symbols, spells, accepted⟩ := read
      split at accepted
      next valid =>
        cases accepted
        rw [not_or, spells.byteLength_eq, Nat.not_le] at enough
        rw [String.toList_ofList]
        exact ⟨after, symbols, whole, enough.1, checkHrp_eq_ok_iff.1 printable, spells, enough.2,
          valid, rfl⟩
      next => cases accepted
  · intro ⟨oneCase, payload, symbols, whole, ne, printable, spells, enough, valid, rest⟩
    rw [decode_eq_of_spells oneCase whole ne printable spells enough, if_pos valid, rest]

/-- A payload and its checksum are spelled together exactly if the payload has five-bit symbols. -/
lemma exists_spells_iff {hrp : String} {data : List UInt8} :
    (∃ payload, Spells (data ++ Checksum.create hrp data) payload) ↔
      ∀ symbol ∈ data, symbol.toNat < 32 := by
  refine ⟨?_, ?_⟩
  · intro both symbol mem
    obtain ⟨payload, small, -⟩ := both
    exact small symbol (List.mem_append_left _ mem)
  · intro small
    refine ⟨_, ?_, rfl⟩
    rw [List.forall_mem_append]
    exact ⟨small, Checksum.create_lt hrp data⟩

/-- Text can be written exactly with a human readable part and symbols of five bits. -/
lemma exists_encode_iff {hrp : String} {data : List UInt8} :
    (∃ text, encode hrp data = .ok text) ↔
      IsHrp hrp.toList ∧ ∀ symbol ∈ data, symbol.toNat < 32 := by
  simp only [encode_eq_ok_iff]
  rw [← @exists_spells_iff (String.ofList (lower hrp.toList))]
  refine ⟨?_, ?_⟩
  · intro both
    obtain ⟨text, isHrp, payload, spells, -⟩ := both
    exact ⟨isHrp, payload, spells⟩
  · intro both
    obtain ⟨isHrp, payload, spells⟩ := both
    exact ⟨_, isHrp, payload, spells, rfl⟩

/-- A human readable part in lowercase gives the same text. -/
lemma encode_lower {hrp text : String} {data : List UInt8} (h : encode hrp data = .ok text) :
    encode (String.ofList (lower hrp.toList)) data = .ok text := by
  obtain ⟨isHrp, payload, spells, rfl⟩ := encode_eq_ok_iff.1 h
  apply encode_eq_ok_iff.2
  rw [String.toList_ofList, lower_lower]
  refine ⟨isHrp.lower, payload, spells, ?_⟩
  rw [assemble, assemble, lower_lower]

/-- Reading accepts exactly what writing produces for a human readable part in lowercase and some
symbols, in either case. -/
lemma decode_eq_ok_iff_encode {text hrp : String} {data : List UInt8} :
    decode text = .ok (hrp, data) ↔ mixesCase text.toList = false ∧
      lower hrp.toList = hrp.toList ∧ data ≠ [] ∧
      encode hrp data = .ok (String.ofList (lower text.toList)) := by
  rw [decode_eq_ok_iff]
  apply and_congr_right
  intro oneCase
  refine ⟨?_, ?_⟩
  · intro both
    obtain ⟨payload, symbols, whole, ne, printable, spells, enough, valid, rfl⟩ := both
    -- the last six symbols are the only ones that make the others valid
    have parts := List.take_append_drop (symbols.length - Checksum.length) symbols
    have check : symbols.drop (symbols.length - Checksum.length)
        = Checksum.create hrp (symbols.take (symbols.length - Checksum.length)) := by
      apply (Checksum.verify_append_iff _ _).1
      · rw [parts]
        exact valid
      · rw [List.length_drop]
        omega
      · exact fun symbol mem => spells.1 symbol (List.mem_of_mem_drop mem)
    have inLower : lower hrp.toList = hrp.toList := by
      have := congrArg lower whole
      rw [lower_lower, whole] at this
      simp only [lower, List.map_append] at this
      exact (List.append_inj_left this (by simp)).symm
    refine ⟨inLower, ?_, ?_⟩
    · intro empty
      have := congrArg List.length empty
      rw [List.length_take, List.length_nil] at this
      omega
    · apply encode_eq_ok_iff.2
      rw [inLower, String.ofList_toList, ← check, parts]
      refine ⟨⟨ne, ?_, ?_⟩, payload, spells, ?_⟩
      · rw [String.ofList_toList]
        exact printable
      · rw [← inLower]
        exact mixesCase_lower _
      · rw [assemble, inLower, whole]
  · intro both
    obtain ⟨inLower, ne, written⟩ := both
    obtain ⟨isHrp, payload, spells, whole⟩ := encode_eq_ok_iff.1 written
    rw [inLower, String.ofList_toList] at spells
    rw [assemble, inLower, String.ofList_inj] at whole
    have count : (data ++ Checksum.create hrp data).length = data.length + Checksum.length := by
      rw [List.length_append, Checksum.length_create]
    refine ⟨payload, _, whole, isHrp.ne_nil, ?_, spells, ?_, ?_, ?_⟩
    · have := isHrp.printable
      rwa [String.ofList_toList] at this
    · have := List.length_pos_iff.2 ne
      omega
    · exact Checksum.verify_create _ data
    · rw [count, Nat.add_sub_cancel, List.take_left]

/-- Text without symbols in front of the checksum is written but not read. -/
lemma decode_ne_ok_of_encode_nil {hrp text : String} (h : encode hrp [] = .ok text) :
    ∀ result, decode text ≠ .ok result := by
  intro both read
  obtain ⟨hrp', data⟩ := both
  obtain ⟨isHrp, payload, spells, rfl⟩ := encode_eq_ok_iff.1 h
  obtain ⟨-, payload', symbols, whole, -, -, spells', enough, -, -⟩ := decode_eq_ok_iff.1 read
  rw [lower_toList_assemble _ spells] at whole
  have split := splitLast?_assemble hrp.toList spells
  rw [splitLast?_eq_some_iff.2 ⟨whole, spells'.separator_notMem⟩] at split
  obtain ⟨-, rfl⟩ := Prod.mk.inj (Option.some.inj split)
  have six : payload'.length = Checksum.length := by
    rw [spells.length_eq, List.nil_append, Checksum.length_create]
  rw [← spells'.length_eq, six] at enough
  exact Nat.lt_irrefl _ enough

/-- Reading accepts exactly the texts that writing produces for a human readable part in lowercase
and at least one symbol, in either case. Everything that consists of printable characters in one
case and of five-bit symbols can be written, in lowercase, and of what can be written only text
without symbols is not read. -/
theorem decode_inverts_encode :
    (∀ (text hrp : String) (data : List UInt8), decode text = .ok (hrp, data) ↔
      mixesCase text.toList = false ∧ lower hrp.toList = hrp.toList ∧ data ≠ [] ∧
        encode hrp data = .ok (String.ofList (lower text.toList))) ∧
    (∀ (hrp : String) (data : List UInt8), (∃ text, encode hrp data = .ok text) ↔
      hrp ≠ "" ∧ (∀ byte ∈ Utf8.encode hrp, 33 ≤ byte ∧ byte ≤ 126) ∧
        mixesCase hrp.toList = false ∧ ∀ symbol ∈ data, symbol < 32) ∧
    (∀ (hrp : String) (data : List UInt8) (text : String), encode hrp data = .ok text →
      encode (String.ofList (lower hrp.toList)) data = .ok text ∧
        ((∃ result, decode text = .ok result) ↔ data ≠ [])) := by
  refine ⟨fun text hrp data => decode_eq_ok_iff_encode, ?_, ?_⟩
  · intro hrp data
    simp only [UInt8.lt_iff_toNat_lt, UInt8.reduceToNat]
    rw [exists_encode_iff, isHrp_toList_iff, and_assoc, and_assoc]
  · intro hrp data text written
    refine ⟨encode_lower written, ?_⟩
    refine ⟨?_, ?_⟩
    · intro h empty
      obtain ⟨result, read⟩ := h
      rw [empty] at written
      exact decode_ne_ok_of_encode_nil written result read
    · intro ne
      have inLower := encode_lower written
      obtain ⟨-, payload, spells, rfl⟩ := encode_eq_ok_iff.1 written
      have text := lower_toList_assemble hrp.toList spells
      refine ⟨(String.ofList (lower hrp.toList), data), decode_eq_ok_iff_encode.2 ⟨?_, ?_, ne, ?_⟩⟩
      · exact mixesCase_of_lower_eq text
      · rw [String.toList_ofList, lower_lower]
      · rw [text, String.ofList_toList]
        exact inLower

end AddressCodec.Bech32
