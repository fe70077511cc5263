import AddressCodec.Address.Codec
import AddressCodec.Proofs.Address.Raw
import AddressCodec.Proofs.Bech32.Canonical
import AddressCodec.Proofs.Regroup.Stream

/-!
# Addresses and their texts

Each layer of the text of an address is undone by its inverse alone, so a text is read as an address
exactly if its lowercase is the text that is written for that address (`parse_inverts_format`).
-/

namespace AddressCodec

namespace Network

/-- A network is found by its human readable part and by no other. -/
lemma ofHrp_eq_ok_iff {hrp : String} {network : Network} :
    ofHrp hrp = .ok network ↔ network.hrp = hrp := by
  rw [ofHrp]
  cases found : all.find? (fun n => n.hrp == hrp) with
  | none =>
    have other := List.find?_eq_none.1 found
    refine iff_of_false (by simp) ?_
    intro same
    apply other network
    · cases network <;> decide
    · exact beq_iff_eq.2 same
  | some n =>
    have hit := List.find?_some found
    rw [← beq_iff_eq.1 hit]
    cases n <;> cases network <;> decide

/-- The human readable parts of the networks are lowercase. -/
lemma lower_hrp (n : Network) : Bech32.lower n.hrp.toList = n.hrp.toList := by
  cases n <;> decide

end Network

namespace Address

/-- The text of an address is made of its bytes, cut into symbols. -/
lemma format_eq_ok_iff {a : Address} {text : String} :
    a.format = .ok text ↔ ∃ bytes, a.toData = .ok bytes ∧
      ∃ symbols, Regroup.regroup 8 5 true bytes = .ok symbols ∧
        Bech32.encode a.network.hrp symbols = .ok text := by
  simp only [format, Outcome.bind_eq_ok_iff, Outcome.mapError_eq_ok_iff]

/-- An address is read from the symbols of its text, put together to bytes. -/
lemma parse_eq_ok_iff {a : Address} {text : String} :
    parse text = .ok a ↔ ∃ network symbols, Bech32.decode text = .ok (network.hrp, symbols) ∧
      ∃ bytes, Regroup.regroup 5 8 false symbols = .ok bytes ∧ ofData bytes network = .ok a := by
  simp only [parse, Outcome.bind_eq_ok_iff, Outcome.mapError_eq_ok_iff, Network.ofHrp_eq_ok_iff]
  refine ⟨?_, ?_⟩
  · intro ⟨⟨hrp, symbols⟩, decoded, network, same, bytes, regrouped, read⟩
    have same : network.hrp = hrp := same
    rw [← same] at decoded
    exact ⟨network, symbols, decoded, bytes, regrouped, read⟩
  · intro ⟨network, symbols, decoded, bytes, regrouped, read⟩
    exact ⟨⟨network.hrp, symbols⟩, decoded, network, rfl, bytes, regrouped, read⟩

/-- An address has bytes for its key and one more. -/
lemma ne_nil_of_toData {a : Address} {bytes : List UInt8} (written : a.toData = .ok bytes) :
    bytes ≠ [] := by
  obtain ⟨rest, _, whole⟩ := toData_eq_ok_iff.1 written
  intro empty
  have length := congrArg List.length (whole.symm.trans empty)
  rw [List.length_append, a.publicKey.length_eq, List.length_nil] at length
  omega

/-- Bytes are words of eight bits. -/
lemma fit_bytes (bytes : List UInt8) : Regroup.Fit 8 bytes :=
  fun word _ => word.toNat_lt

/-- Behind a human readable part that names a network, the symbols decide. -/
lemma parse_of_decode {text : String} {network : Network} {symbols : List UInt8}
    (decoded : Bech32.decode text = .ok (network.hrp, symbols)) :
    parse text = (Regroup.regroup 5 8 false symbols).mapError .regroup >>= fun bytes =>
      ofData bytes network := by
  have named : Network.ofHrp network.hrp = .ok network := Network.ofHrp_eq_ok_iff.2 rfl
  rw [parse, decoded]
  show ((Network.ofHrp network.hrp).mapError CodecError.address >>= _) = _
  rw [named]
  rfl

/-- What is written for some bytes on a network is read, in either case, as these bytes are. -/
lemma parse_eq_ofData {text : String} {network : Network} {bytes symbols : List UInt8}
    (oneCase : Bech32.mixesCase text.toList = false) (ne : bytes ≠ [])
    (regrouped : Regroup.regroup 8 5 true bytes = .ok symbols)
    (encoded : Bech32.encode network.hrp symbols = .ok (String.ofList (Bech32.lower text.toList))) :
    parse text = ofData bytes network := by
  -- Eight bits are regrouped to five, so that the way back is defined by the way there.
  obtain ⟨_, undone⟩ := (Regroup.regroup_pad_eq_ok_iff_exact (by decide)).1 regrouped
  have some_symbols : symbols ≠ [] := by
    intro empty
    rw [empty] at undone
    have nothing : Regroup.regroup 5 8 false [] = .ok [] := by decide
    exact ne (Except.ok.inj (undone.symm.trans nothing))
  rw [parse_of_decode (Bech32.decode_eq_ok_iff_encode.2
    ⟨oneCase, network.lower_hrp, some_symbols, encoded⟩), undone]
  rfl

/-- A text is read as an address exactly if it has one case and is, in lowercase, the text of that
address. -/
lemma parse_eq_ok_iff_format {text : String} {a : Address} :
    parse text = .ok a ↔ a.DistinctKeys ∧ Bech32.mixesCase text.toList = false ∧
      a.format = .ok (String.ofList (Bech32.lower text.toList)) := by
  rw [format_eq_ok_iff]
  refine ⟨?_, ?_⟩
  · intro read
    obtain ⟨network, symbols, decoded, bytes, regrouped, read⟩ := parse_eq_ok_iff.1 read
    obtain ⟨oneCase, inLower, ne, encoded⟩ := Bech32.decode_eq_ok_iff_encode.1 decoded
    obtain ⟨sameNetwork, distinct, written⟩ := ofData_eq_ok_iff.1 read
    rw [← sameNetwork] at encoded
    exact ⟨distinct, oneCase, bytes, written, symbols,
      (Regroup.regroup_pad_eq_ok_iff_exact (by decide)).2 ⟨fit_bytes bytes, regrouped⟩, encoded⟩
  · intro ⟨distinct, oneCase, bytes, written, symbols, regrouped, encoded⟩
    rw [parse_eq_ofData oneCase (ne_nil_of_toData written) regrouped encoded]
    exact ofData_eq_ok_iff.2 ⟨rfl, distinct, written⟩

/-- What is written is in lowercase. -/
lemma lower_of_format_eq_ok {a : Address} {text : String} (written : a.format = .ok text) :
    Bech32.lower text.toList = text.toList := by
  obtain ⟨_, _, symbols, _, encoded⟩ := format_eq_ok_iff.1 written
  exact Bech32.lower_of_encode_eq_ok encoded

/-- What is written is read back. -/
lemma parse_of_format_eq_ok {a : Address} {text : String} (distinct : a.DistinctKeys)
    (written : a.format = .ok text) : parse text = .ok a := by
  have inLower := lower_of_format_eq_ok written
  refine parse_eq_ok_iff_format.2 ⟨distinct, Bech32.mixesCase_of_lower_eq inLower, ?_⟩
  rw [inLower, String.ofList_toList]
  exact written

/-- A text is read as an address exactly if it has one case and is, in lowercase, the text that is
written for that address. So addresses and accepted texts in lowercase belong together one to
one. -/
theorem parse_inverts_format :
    (∀ (text : String) (a : Address), parse text = .ok a ↔
      a.DistinctKeys ∧ Bech32.mixesCase text.toList = false ∧
        a.format = .ok (String.ofList (Bech32.lower text.toList))) ∧
    (∀ (text : String) (a : Address), a.DistinctKeys ∧ a.format = .ok text ↔
      parse text = .ok a ∧ Bech32.lower text.toList = text.toList) := by
  refine ⟨fun text a => parse_eq_ok_iff_format, ?_⟩
  intro text a
  refine ⟨?_, ?_⟩
  · intro ⟨distinct, written⟩
    exact ⟨parse_of_format_eq_ok distinct written, lower_of_format_eq_ok written⟩
  · intro ⟨parsed, inLower⟩
    obtain ⟨distinct, _, written⟩ := parse_eq_ok_iff_format.1 parsed
    rw [inLower, String.ofList_toList] at written
    exact ⟨distinct, written⟩

end Address

end AddressCodec
