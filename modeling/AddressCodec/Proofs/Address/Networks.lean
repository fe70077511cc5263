import AddressCodec.Proofs.Address.Formatting

/-!
# One address on two networks

The bytes of an address do not name its network, so that on all networks they fail alike or are
regrouped to the same symbols (`format_alike`). The texts differ in the character that tells the
network and in the checksum, which is never the same: it would make one list of symbols valid on two
networks (`create_injective`).
-/

namespace AddressCodec

open Bech32 (letter)
open Checksum (verify create)

namespace Network

/-- On two networks, symbols have different checksums. -/
lemma create_injective {n m : Network} {data : List UInt8}
    (same : create n.hrp data = create m.hrp data) : n = m := by
  have first := Checksum.verify_create n.hrp data
  have second := Checksum.verify_create m.hrp data
  rw [← same] at second
  exact eq_of_verify first second

end Network

namespace Address

/-- The texts of an address on all networks fail for one reason, or carry the same symbols. -/
lemma format_alike (key : Bytes32) (extra : Option Element) :
    (∃ cause, ∀ n : Network, (Address.mk n key extra).format = .error cause) ∨
    ∃ data : List UInt8, (∀ symbol ∈ data, symbol.toNat < 32) ∧
      ∀ n : Network, (Address.mk n key extra).format = .ok (line n data) := by
  have shared : ∀ n m : Network,
      (Address.mk n key extra).toData = (Address.mk m key extra).toData := by
    intro n m
    cases extra <;> rfl
  cases written : (Address.mk .mainnet key extra).toData with
  | error cause =>
    refine .inl ⟨cause, fun n => ?_⟩
    exact format_of_toData_error ((shared n .mainnet).trans written)
  | ok bytes =>
    -- The symbols depend on the bytes alone; the network comes in with the text around them.
    obtain ⟨data, regrouped, small, encoded⟩ := exists_symbols bytes
    refine .inr ⟨data, small, fun n => format_eq_ok_iff.2 ⟨bytes, ?_, data, regrouped, encoded n⟩⟩
    exact (shared n .mainnet).trans written

/-- An address has the same bytes on both networks. Its texts fail for the same reason, or they are
of one length and carry the same symbols, and differ in the third character, which tells the
network, and in the six symbols of the checksum. No symbols at all are valid on both networks. -/
theorem networks_differ_in_mark_and_checksum :
    (∀ (key : Bytes32) (extra : Option Element),
      (Address.mk .mainnet key extra).toData = (Address.mk .testnet key extra).toData ∧
      ((∃ cause, (Address.mk .mainnet key extra).format = .error cause ∧
          (Address.mk .testnet key extra).format = .error cause) ∨
        ∃ (main test : String) (data mainCheck testCheck : List UInt8),
          (Address.mk .mainnet key extra).format = .ok main ∧
          (Address.mk .testnet key extra).format = .ok test ∧ main.length = test.length ∧
          main.toList = 'x' :: 'e' :: 'l' :: ':' :: (data ++ mainCheck).map letter ∧
          test.toList = 'x' :: 'e' :: 't' :: ':' :: (data ++ testCheck).map letter ∧
          (∀ symbol ∈ data ++ (mainCheck ++ testCheck), symbol < 32) ∧
          mainCheck.length = 6 ∧ testCheck.length = 6 ∧ mainCheck ≠ testCheck)) ∧
    (∀ symbols : List UInt8,
      (verify Network.mainnet.hrp symbols && verify Network.testnet.hrp symbols) = false) := by
  refine ⟨fun key extra => ⟨by cases extra <;> rfl, ?_⟩, fun symbols => ?_⟩
  · obtain ⟨cause, failed⟩ | ⟨data, small, written⟩ := format_alike key extra
    · exact .inl ⟨cause, failed .mainnet, failed .testnet⟩
    · refine .inr ⟨_, _, data, create Network.mainnet.hrp data, create Network.testnet.hrp data,
        written .mainnet, written .testnet, ?_, String.toList_ofList, String.toList_ofList, ?_,
        Checksum.length_create _ _, Checksum.length_create _ _, ?_⟩
      · simp [line]
      · have checks := fun n : Network => Checksum.create_lt n.hrp data
        intro symbol mem
        refine UInt8.lt_iff_toNat_lt.2 ?_
        exact List.forall_mem_append.2
          ⟨small, List.forall_mem_append.2 ⟨checks .mainnet, checks .testnet⟩⟩ symbol mem
      · intro same
        cases Network.create_injective same
  · rw [← Bool.not_eq_true, Bool.and_eq_true]
    intro ⟨main, test⟩
    cases Network.eq_of_verify main test

end Address

end AddressCodec
