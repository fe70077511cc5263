import AddressCodec.Proofs.Address.Raw

/-!
# The layout of raw addresses

The bytes of an address are its key, a type byte and the bytes of its extra data, with nothing
behind them (`toData_eq_ok_iff_layout`). Reading is the inverse of writing, and the limits of both
sides let the same extra data through (`raw_layout_is_a_bijection`).
-/

namespace AddressCodec

/-- The bytes of an element are as many as its size says. -/
lemma Element.length_of_toBytes {e : Element} {bytes : List UInt8}
    (written : e.toBytes = .ok bytes) : bytes.length = e.encodedSize := by
  obtain ⟨-, wire⟩ := Element.toBytes_eq_ok_iff.1 written
  exact (congrArg List.length wire).trans e.length_wires

namespace Address

/-- How the bytes of an address are laid out. -/
inductive Layout (a : Address) : List UInt8 → Prop where
  | plain (absent : a.extraData = none) : Layout a (a.publicKey.bytes ++ [0])
  | integrated {e : Element} {written : List UInt8} (present : a.extraData = some e)
      (bytes : e.toBytes = .ok written) (short : written.length ≤ extraDataLimit) :
      Layout a (a.publicKey.bytes ++ 1 :: written)

/-- An address is written as the bytes that are laid out for it, and no others. -/
lemma toData_eq_ok_iff_layout {a : Address} {bytes : List UInt8} :
    a.toData = .ok bytes ↔ a.Layout bytes := by
  rw [toData_eq_ok_iff]
  refine ⟨?_, ?_⟩
  · intro ⟨rest, written, whole⟩
    rw [whole]
    cases tail_eq_ok_iff.1 written with
    | inl plain =>
      obtain ⟨absent, zero⟩ := plain
      rw [zero]
      exact .plain absent
    | inr integrated =>
      obtain ⟨e, written, present, extra, one⟩ := integrated
      obtain ⟨extra, short⟩ := extraBytes_eq_ok_iff.1 extra
      rw [one]
      exact .integrated present extra short
  · intro layout
    cases layout with
    | plain absent => exact ⟨_, tail_eq_ok_iff.2 (.inl ⟨absent, rfl⟩), rfl⟩
    | integrated present written short =>
      have extra := extraBytes_eq_ok_iff.2 ⟨written, short⟩
      exact ⟨_, tail_eq_ok_iff.2 (.inr ⟨_, _, present, extra, rfl⟩), rfl⟩

/-- Number of bytes that extra data takes. -/
def extraSize (a : Address) : Nat :=
  match a.extraData with
  | none => 0
  | some e => e.encodedSize

/-- The bytes of an address are its key's, the type's and those of its extra data. -/
lemma Layout.length_eq {a : Address} {bytes : List UInt8} (layout : a.Layout bytes) :
    bytes.length = 33 + a.extraSize := by
  cases layout with
  | plain absent =>
    rw [extraSize, absent, List.length_append, a.publicKey.length_eq]
    rfl
  | @integrated e _ present written short =>
    rw [extraSize, present, List.length_append, a.publicKey.length_eq, List.length_cons,
      Element.length_of_toBytes written]
    show 32 + (e.encodedSize + 1) = 33 + e.encodedSize
    omega

/-- Behind the key stands the type byte. -/
lemma Layout.getElem?_eq {a : Address} {bytes : List UInt8} (layout : a.Layout bytes) :
    bytes[32]? = some a.typeByte := by
  have behind : ∀ rest : List UInt8, (a.publicKey.bytes ++ rest)[32]? = rest.head? := by
    intro rest
    rw [List.getElem?_append_right (Nat.le_of_eq a.publicKey.length_eq), a.publicKey.length_eq,
      List.head?_eq_getElem?]
  cases layout with
  | plain absent =>
    rw [behind, typeByte, isIntegrated, absent]
    rfl
  | integrated present written short =>
    rw [behind, typeByte, isIntegrated, present]
    rfl

/-- The type is 1 exactly if there is extra data. -/
lemma typeByte_eq_one_iff {a : Address} : a.typeByte = 1 ↔ ∃ e, a.extraData = some e := by
  rw [typeByte, isIntegrated]
  cases a.extraData with
  | none =>
    refine iff_of_false (by decide) ?_
    rintro ⟨e, given⟩
    cases given
  | some e => exact iff_of_true rfl ⟨e, rfl⟩

/-- Extra data that is written alone is written in an address exactly if it is within the limit. -/
lemma exists_toData_integrated_iff {e : Element} {written : List UInt8}
    (bytes : e.toBytes = .ok written) {key : Bytes32} {network : Network} :
    (∃ data, (integrated key network e).toData = .ok data) ↔ e.encodedSize ≤ extraDataLimit := by
  rw [← Element.length_of_toBytes bytes]
  refine ⟨?_, ?_⟩
  · intro ⟨data, inAddress⟩
    cases toData_eq_ok_iff_layout.1 inAddress with
    | plain absent => cases absent
    | integrated present others short =>
      cases present
      cases bytes.symm.trans others
      exact short
  · intro short
    exact ⟨_, toData_eq_ok_iff_layout.2 (.integrated rfl bytes short)⟩

/-- Extra data that is written alone is read in an address exactly if it is within the limit. -/
lemma exists_ofData_integrated_iff {e : Element} {written : List UInt8} (distinct : e.DistinctKeys)
    (bytes : e.toBytes = .ok written) {key : Bytes32} {network : Network} :
    (∃ a, ofData (key.bytes ++ 1 :: written) network = .ok a) ↔
      e.encodedSize ≤ extraDataLimit := by
  rw [← Element.length_of_toBytes bytes]
  refine ⟨?_, ?_⟩
  · intro ⟨a, read⟩
    obtain ⟨-, -, -, tail⟩ := ofData_append_eq_ok_iff.1 read
    cases tail_eq_ok_iff.1 tail with
    | inl plain => cases plain.2
    | inr integrated =>
      obtain ⟨f, others, -, extra, whole⟩ := integrated
      cases whole
      exact (extraBytes_eq_ok_iff.1 extra).2
  · intro short
    refine ⟨integrated key network e, ofData_append_eq_ok_iff.2 ⟨rfl, rfl, ?_, ?_⟩⟩
    · intro f present
      cases present
      exact distinct
    · have extra := extraBytes_eq_ok_iff.2 ⟨bytes, short⟩
      exact tail_eq_ok_iff.2 (.inr ⟨e, written, rfl, extra, rfl⟩)

/-- Bytes are read as an address exactly if they are the bytes of that address: its key, a type byte
that is 1 just when there is extra data, and the bytes of the extra data. Extra data that can be
written passes the limit in writing an address and in reading it at the same size. -/
theorem raw_layout_is_a_bijection :
    (∀ (bytes : List UInt8) (network : Network) (a : Address), ofData bytes network = .ok a ↔
      a.network = network ∧ a.DistinctKeys ∧ a.toData = .ok bytes) ∧
    (∀ (a : Address) (bytes : List UInt8), a.toData = .ok bytes ↔ a.Layout bytes) ∧
    (∀ (a : Address) (bytes : List UInt8), a.Layout bytes →
      bytes.length = 33 + a.extraSize ∧ bytes[32]? = some a.typeByte ∧
        (a.typeByte = 1 ↔ ∃ e, a.extraData = some e)) ∧
    (∀ (e : Element) (written : List UInt8) (key : Bytes32) (network : Network),
      e.DistinctKeys → e.toBytes = .ok written →
        ((∃ bytes, (integrated key network e).toData = .ok bytes) ↔
          e.encodedSize ≤ extraDataLimit) ∧
        ((∃ a, ofData (key.bytes ++ 1 :: written) network = .ok a) ↔
          e.encodedSize ≤ extraDataLimit)) := by
  refine ⟨fun bytes network a => ofData_eq_ok_iff, fun a bytes => toData_eq_ok_iff_layout, ?_, ?_⟩
  · intro a bytes layout
    exact ⟨layout.length_eq, layout.getElem?_eq, typeByte_eq_one_iff⟩
  · intro e written key network distinct bytes
    exact ⟨exists_toData_integrated_iff bytes, exists_ofData_integrated_iff distinct bytes⟩

/-- Fields without entries are extra data too: they are written behind the type byte 1, and read. -/
theorem raw_layout_is_a_bijection_empty_fields :
    (integrated ⟨List.replicate 32 7, rfl⟩ .testnet (.fields [])).Layout
      (List.replicate 32 7 ++ [1, 2, 0]) ∧
    ∃ a, ofData (List.replicate 32 7 ++ [1, 2, 0]) .testnet = .ok a := by
  have bytes : (Element.fields []).toBytes = .ok [2, 0] := by decide
  refine ⟨?_, ?_⟩
  · exact (raw_layout_is_a_bijection.2.1 _ _).1 (by decide)
  · have both := raw_layout_is_a_bijection.2.2.2 (.fields []) [2, 0] ⟨List.replicate 32 7, rfl⟩
      .testnet ⟨List.nodup_nil, trivial⟩ bytes
    exact both.2.2 (by decide)

end Address

end AddressCodec
