import AddressCodec.Address.Codec
import AddressCodec.Proofs.Bech32.Guarded
import AddressCodec.Proofs.Regroup.Guarded
import AddressCodec.Proofs.Wire.Guarded

/-!
# Addresses in checked operations

Reading and writing of addresses once more, over the layers in checked operations: whatever a text
is, and whatever an address, no layer is asked for something out of its range. Extra data is read
under a limit that leaves room for any step behind it (`near_start`); writing it takes no operation
that has a range.
-/

namespace AddressCodec.Address

open Checked

/-- Reads extra data that takes all of some bytes. -/
def extraOfBytes? (bytes : List UInt8) : Option (Except CodecError Element) := do
  match ← Reader.element?.run.run (.start bytes (some extraDataLimit)) with
  | (.error (.sizeLimit size limit), _) => return .error (.address (.extraDataLimit size limit))
  | (.error cause, _) => return .error (.wire cause)
  | (.ok e, c) =>
    if c.remaining = 0 then return .ok e
    else return .error (.address (.trailingBytes c.remaining))

/-- Reads the bytes of an address on a network. -/
def ofData? (bytes : List UInt8) (network : Network) : Option (Except CodecError Address) :=
  match Bytes32.ofList? (bytes.take 32) with
  | none => some (.error (.address (.invalidPublicKeyLength bytes.length)))
  | some key =>
    match bytes.drop 32 with
    | [] => some (.error (.address .missingType))
    | 0 :: [] => some (.ok (plain key network))
    | 0 :: extra => some (.error (.address (.trailingBytes extra.length)))
    | 1 :: extra => (extraOfBytes? extra).map (Except.map (integrated key network))
    | type :: _ => some (.error (.address (.invalidType type)))

/-- Reads the text of an address. -/
def parse? (text : String) : Option (Except CodecError Address) := ExceptT.run do
  let (hrp, symbols) ← layer .text (Bech32.decode? text)
  let network ← Checked.plain ((Network.ofHrp hrp).mapError .address)
  let bytes ← layer .regroup (Regroup.regroup? 5 8 false symbols)
  ExceptT.mk (ofData? bytes network)

/-- The text of an address. -/
def format? (a : Address) : Option (Except CodecError String) := ExceptT.run do
  let bytes ← Checked.plain a.toData
  let symbols ← layer .regroup (Regroup.regroup? 8 5 true bytes)
  layer .text (Bech32.encode? a.network.hrp symbols)

/-- The limit of extra data is far from 32 bits. -/
lemma near_start (bytes : List UInt8) : (Cursor.start bytes (some extraDataLimit)).Near := by
  rintro l ⟨⟩
  exact ⟨Nat.zero_le _, by decide⟩

/-- Reading extra data stays in range on all bytes. -/
lemma extraOfBytes?_eq (bytes : List UInt8) : extraOfBytes? bytes = some (extraOfBytes bytes) := by
  rw [extraOfBytes?, extraOfBytes, Reader.element?_run (near_start bytes)]
  cases Reader.element.run (.start bytes (some extraDataLimit)) with
  | error cause stop => cases cause <;> rfl
  | ok e next =>
    show (if next.remaining = 0 then _ else _) = some (if next.remaining = 0 then _ else _)
    split <;> rfl

/-- Reading the bytes of an address stays in range on all bytes. -/
lemma ofData?_eq (bytes : List UInt8) (network : Network) :
    ofData? bytes network = some (ofData bytes network) := by
  rw [ofData?, ofData]
  cases Bytes32.ofList? (bytes.take 32) with
  | none => rfl
  | some key =>
    generalize bytes.drop 32 = rest
    dsimp only
    split
    next => rfl
    next => rfl
    next => simp only
    next extra => exact congrArg (Option.map _) (extraOfBytes?_eq extra)
    next => simp only

/-- Reading the text of an address stays in range on all texts. -/
lemma parse?_eq (text : String) : parse? text = some (parse text) := by
  refine (yields_layer (Bech32.decode?_eq text)).bind fun decoded _ => ?_
  refine (yields_plain _).bind fun network _ => ?_
  refine (yields_layer (Regroup.regroup?_eq 5 8 false decoded.2)).bind fun bytes _ => ?_
  exact ofData?_eq bytes network

/-- Writing the text of an address stays in range on all addresses. -/
lemma format?_eq (a : Address) : format? a = some a.format := by
  refine (yields_plain _).bind fun bytes _ => ?_
  refine (yields_layer (Regroup.regroup?_eq 8 5 true bytes)).bind fun symbols _ => ?_
  exact yields_layer (Bech32.encode?_eq a.network.hrp symbols)

/-- Reading and writing yield the same in checked operations, on all input: no cut of a text between
the bytes of a character or beyond its end, no negative difference, no shift or sum that loses bits,
no symbol without a character and no byte beyond the end of a buffer is ever asked for. -/
theorem parsing_and_formatting_stay_in_range :
    (∀ text, Bech32.decode? text = some (Bech32.decode text)) ∧
      (∀ hrp data, Bech32.encode? hrp data = some (Bech32.encode hrp data)) ∧
      (∀ text, parse? text = some (parse text)) ∧ ∀ a : Address, format? a = some a.format :=
  ⟨Bech32.decode?_eq, Bech32.encode?_eq, parse?_eq, format?_eq⟩

end AddressCodec.Address
