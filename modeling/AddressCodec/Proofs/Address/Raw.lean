import AddressCodec.Address.Codec
import AddressCodec.Proofs.Outcome
import AddressCodec.Proofs.Wire.Codec

/-!
# The raw layout

Bytes are read as an address exactly if they are the bytes of that address (`ofData_eq_ok_iff`). The
limit on extra data lets the same trees through on both sides (`extraOfBytes_eq_ok_iff`).
-/

namespace AddressCodec.Address

/-- Extra data is written as its bytes, if these are within the limit. -/
lemma extraBytes_eq_ok_iff {extra : Element} {bytes : List UInt8} :
    extraBytes extra = .ok bytes ↔
      extra.toBytes = .ok bytes ∧ bytes.length ≤ extraDataLimit := by
  rw [extraBytes]
  cases extra.toBytes with
  | error cause => simp
  | ok written =>
    by_cases long : extraDataLimit < written.length
    · refine iff_of_false (by simp [long]) ?_
      intro ⟨same, short⟩
      cases same
      exact Nat.not_lt_of_le short long
    · simp only [if_neg long]
      refine ⟨?_, ?_⟩
      · intro same
        cases same
        exact ⟨rfl, Nat.le_of_not_lt long⟩
      · intro both
        rw [Except.ok.inj both.1]

/-- Extra data is read from exactly the bytes it is written to. -/
lemma extraOfBytes_eq_ok_iff {bytes : List UInt8} {extra : Element} :
    extraOfBytes bytes = .ok extra ↔ extra.DistinctKeys ∧ extraBytes extra = .ok bytes := by
  have whole : extraOfBytes bytes = .ok extra ↔ ∃ next,
      Reader.element.run (.start bytes (some extraDataLimit)) = .ok extra next ∧
        next.remaining = 0 := by
    rw [extraOfBytes]
    cases Reader.element.run (.start bytes (some extraDataLimit)) with
    | error cause next => cases cause <;> simp
    | ok found next =>
      by_cases done : next.remaining = 0
      · simp [done]
      · simp [done]
  rw [whole, Reader.element_run_start_eq_ok_iff, extraBytes_eq_ok_iff]
  simp

/-- What stands behind the public key. -/
def tail (extra : Option Element) : Except CodecError (List UInt8) :=
  match extra with
  | none => .ok [0]
  | some e => (extraBytes e).map fun bytes => 1 :: bytes

/-- The bytes of an address are those of its key and what stands behind it. -/
lemma toData_eq_ok_iff {a : Address} {bytes : List UInt8} :
    a.toData = .ok bytes ↔
      ∃ rest, tail a.extraData = .ok rest ∧ bytes = a.publicKey.bytes ++ rest := by
  obtain ⟨network, key, extra⟩ := a
  cases extra with
  | none => simp [toData, tail, typeByte, isIntegrated, eq_comm]
  | some e =>
    simp only [toData, tail, Outcome.map_eq_ok_iff]
    refine ⟨?_, ?_⟩
    · intro ⟨written, extra, whole⟩
      exact ⟨_, ⟨written, extra, rfl⟩, whole.symm⟩
    · intro ⟨rest, ⟨written, extra, rest_eq⟩, whole⟩
      refine ⟨written, extra, ?_⟩
      rw [whole, ← rest_eq]
      rfl

/-- Behind the key there is a byte that tells whether extra data follows. -/
lemma tail_eq_ok_iff {extra : Option Element} {rest : List UInt8} :
    tail extra = .ok rest ↔ (extra = none ∧ rest = [0]) ∨
      ∃ e written, extra = some e ∧ extraBytes e = .ok written ∧ rest = 1 :: written := by
  cases extra with
  | none => simp [tail, eq_comm]
  | some e =>
    rw [tail, Outcome.map_eq_ok_iff]
    simp [eq_comm]

/-- What is read behind a public key is what is written there. -/
lemma ofData_append_eq_ok_iff {key : Bytes32} {rest : List UInt8} {network : Network}
    {a : Address} : ofData (key.bytes ++ rest) network = .ok a ↔
      a.network = network ∧ a.publicKey = key ∧ a.DistinctKeys ∧ tail a.extraData = .ok rest := by
  have front : (key.bytes ++ rest).take 32 = key.bytes := List.take_left' key.length_eq
  have back : (key.bytes ++ rest).drop 32 = rest := List.drop_left' key.length_eq
  have parts : a.network = network ∧ a.publicKey = key ↔ a = ⟨network, key, a.extraData⟩ := by
    obtain ⟨network', key', extra⟩ := a
    simp
  rw [ofData, front, back, Bytes32.ofList?_bytes, tail_eq_ok_iff, ← and_assoc, parts]
  dsimp only
  refine ⟨?_, ?_⟩
  · -- Reading branches on the byte behind the key: none, a 0 with nothing or something behind it, a
    -- 1, or another one.
    intro read
    split at read
    · cases read
    · cases read
      exact ⟨rfl, fun e none => (by cases none), .inl ⟨rfl, rfl⟩⟩
    · cases read
    · rename_i written
      obtain ⟨e, extra, same⟩ := Outcome.map_eq_ok_iff.1 read
      obtain ⟨distinct, extra⟩ := extraOfBytes_eq_ok_iff.1 extra
      cases same
      refine ⟨rfl, ?_, .inr ⟨e, written, rfl, extra, rfl⟩⟩
      intro e' same
      cases same
      exact distinct
    · cases read
  · intro ⟨whole, distinct, written⟩
    rcases written with ⟨plain, rest_eq⟩ | ⟨e, written, extra, bytes, rest_eq⟩
    · rw [rest_eq, whole, plain]
      rfl
    · rw [rest_eq]
      have read := extraOfBytes_eq_ok_iff.2 ⟨distinct e extra, bytes⟩
      rw [whole, extra]
      show (extraOfBytes written).map (integrated key network) = _
      rw [read]
      rfl

/-- Bytes are read as an address exactly if they are its bytes. -/
lemma ofData_eq_ok_iff {bytes : List UInt8} {network : Network} {a : Address} :
    ofData bytes network = .ok a ↔
      a.network = network ∧ a.DistinctKeys ∧ a.toData = .ok bytes := by
  -- Fewer bytes than a key are no address, and no address has so few.
  cases packed : Bytes32.ofList? (bytes.take 32) with
  | none =>
    refine iff_of_false ?_ ?_
    · rw [ofData, packed]
      simp
    · intro ⟨_, _, written⟩
      obtain ⟨rest, _, whole⟩ := toData_eq_ok_iff.1 written
      rw [whole, List.take_left' a.publicKey.length_eq, Bytes32.ofList?_bytes] at packed
      cases packed
  | some key =>
    have whole : bytes = key.bytes ++ bytes.drop 32 := by
      rw [← Bytes32.ofList?_eq_some_iff.1 packed, List.take_append_drop]
    rw [whole, ofData_append_eq_ok_iff, toData_eq_ok_iff]
    apply and_congr_right
    intro _
    refine ⟨?_, ?_⟩
    · intro ⟨sameKey, distinct, rest⟩
      exact ⟨distinct, _, rest, by rw [sameKey]⟩
    · intro ⟨distinct, rest, written, both⟩
      have sameLength : key.bytes.length = a.publicKey.bytes.length := by
        rw [key.length_eq, a.publicKey.length_eq]
      obtain ⟨sameKey, sameRest⟩ := List.append_inj both sameLength
      exact ⟨Bytes32.ext sameKey.symm, distinct, sameRest ▸ written⟩

end AddressCodec.Address
