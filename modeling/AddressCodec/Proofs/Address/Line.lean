import AddressCodec.Proofs.Address.Text
import Mathlib.Data.List.Basic

/-!
# The lines of accepted texts

In lowercase an accepted text is one line: the human readable part of the network, the one
separator, and the characters of symbols with a valid checksum (`exists_checks_of_parse`). The
lines of all networks agree but for one character in front of the separator, which is one value in
what the checksum covers, so that no symbols are valid on two networks (`Network.eq_of_verify`).
-/

namespace AddressCodec

open Bech32 (separator letter lower mixesCase)

namespace Network

/-- The character in which the human readable parts of the networks differ. -/
def third : Network → Char
  | mainnet => 'l'
  | testnet => 't'

/-- The value under the checksum in which the networks differ. -/
def mark : Network → UInt8
  | mainnet => 12
  | testnet => 20

/-- The human readable parts of the networks differ in their third character only. -/
lemma toList_hrp (n : Network) : n.hrp.toList = ['x', 'e', n.third] := by
  cases n <;> decide

/-- Under the checksum, the human readable parts of the networks differ in the last value only. -/
lemma expand_hrp (n : Network) : Checksum.expand n.hrp = [3, 3, 3, 0, 24, 5, n.mark] := by
  cases n <;> decide

/-- The third character tells the network. -/
lemma third_injective {n m : Network} (same : n.third = m.third) : n = m := by
  cases n <;> cases m <;> first | rfl | exact absurd same (by decide)

/-- The value in which the networks differ tells the network. -/
lemma mark_injective {n m : Network} (same : n.mark = m.mark) : n = m := by
  cases n <;> cases m <;> first | rfl | exact absurd same (by decide)

/-- No network has an empty human readable part. -/
lemma hrp_ne_nil (n : Network) : n.hrp.toList ≠ [] := by
  rw [toList_hrp]
  exact List.cons_ne_nil _ _

/-- The human readable parts consist of printable characters. -/
lemma printable_hrp (n : Network) : ∀ byte ∈ Utf8.encode n.hrp, 33 ≤ byte ∧ byte ≤ 126 := by
  cases n <;> decide +kernel

/-- No symbols are valid on two networks. -/
lemma eq_of_verify {n m : Network} {symbols : List UInt8}
    (first : Checksum.verify n.hrp symbols = true)
    (second : Checksum.verify m.hrp symbols = true) : n = m := by
  rw [Checksum.verify, beq_iff_eq, expand_hrp] at first second
  have same := first.trans second.symm
  exact mark_injective (@Checksum.residue_substitution [3, 3, 3, 0, 24, 5] symbols _ _ same)

end Network

namespace Address

/-- A line of lowercase characters with a valid checksum. -/
structure Checks (line : List Char) (network : Network) (symbols : List UInt8) : Prop where
  whole : line = 'x' :: 'e' :: network.third :: separator :: symbols.map letter
  small : ∀ symbol ∈ symbols, symbol.toNat < 32
  valid : Checksum.verify network.hrp symbols = true

/-- The text of some symbols on a network. -/
def line (n : Network) (data : List UInt8) : String :=
  String.ofList
    ('x' :: 'e' :: n.third :: separator :: (data ++ Checksum.create n.hrp data).map letter)

/-- Symbols of five bits can be written on every network. -/
lemma encode_hrp_eq_line {data : List UInt8} (small : ∀ symbol ∈ data, symbol.toNat < 32)
    (n : Network) : Bech32.encode n.hrp data = .ok (line n data) := by
  refine Bech32.encode_eq_ok_iff.2 ⟨⟨n.hrp_ne_nil, ?_, ?_⟩, ?_⟩
  · rw [String.ofList_toList]
    exact n.printable_hrp
  · exact Bech32.mixesCase_of_lower_eq n.lower_hrp
  · rw [n.lower_hrp, String.ofList_toList]
    refine ⟨_, ⟨List.forall_mem_append.2 ⟨small, Checksum.create_lt n.hrp data⟩, rfl⟩, ?_⟩
    rw [Bech32.assemble, n.lower_hrp, n.toList_hrp]
    rfl

/-- A text that is accepted has one case and checks in lowercase. -/
lemma exists_checks_of_parse {text : String} {a : Address} (accepted : parse text = .ok a) :
    mixesCase text.toList = false ∧ ∃ symbols, Checksum.length < symbols.length ∧
      Checks (lower text.toList) a.network symbols := by
  obtain ⟨network, data, decoded, bytes, _, read⟩ := parse_eq_ok_iff.1 accepted
  obtain ⟨sameNetwork, _, _⟩ := ofData_eq_ok_iff.1 read
  obtain ⟨oneCase, payload, symbols, whole, _, _, spells, enough, valid, _⟩ :=
    Bech32.decode_eq_ok_iff.1 decoded
  rw [network.toList_hrp, spells.2] at whole
  rw [sameNetwork]
  exact ⟨oneCase, symbols, enough, whole, spells.1, valid⟩

/-- Lowercasing a line lowercases what stands before, at and behind a place. -/
lemma lower_append_cons (before after : List Char) (c : Char) :
    lower (before ++ c :: after) = lower before ++ c.toLower :: lower after := by
  rw [lower, List.map_append, List.map_cons]
  rfl

/-- In an accepted text the one separator stands between the human readable part of the network and
the characters of the symbols. -/
lemma Checks.parts {front payload : List Char} {n : Network} {symbols : List UInt8}
    (checks : Checks (lower (front ++ separator :: payload)) n symbols) :
    lower front = n.hrp.toList ∧ lower payload = symbols.map letter := by
  have spells : Bech32.Spells symbols (symbols.map letter) := ⟨checks.small, rfl⟩
  have outside : separator ∉ n.hrp.toList := by
    cases n <;> decide
  have whole : n.hrp.toList ++ separator :: symbols.map letter
      = lower front ++ separator :: lower payload := by
    have here : separator.toLower = separator := by decide
    rw [n.toList_hrp, ← here, ← lower_append_cons, here, checks.whole]
    rfl
  obtain ⟨left, _, right⟩ :=
    (List.append_cons_inj_of_notMem outside spells.separator_notMem).1 whole
  exact ⟨left.symm, right.symm⟩

end Address

end AddressCodec
