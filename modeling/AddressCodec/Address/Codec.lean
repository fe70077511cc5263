import AddressCodec.Address.Basic
import AddressCodec.Wire.Reader
import AddressCodec.Wire.Writer

/-!
# Addresses as bytes, as text and in JSON

The bytes of an address are the public key, a type byte, and the extra data of an integrated
address. Writing refuses extra data over a limit by its size; reading refuses it as soon as the
limit would be passed, and refuses every byte that is left over. The text has the bytes as 5-bit
symbols with a checksum, under the human readable part of the network. In JSON an address is a
string that holds its text.
-/

namespace AddressCodec.Address

/-! ## Bytes -/

/-- The most bytes extra data may take. -/
def extraDataLimit : Nat := 1024

/-- The bytes of extra data within the limit. -/
def extraBytes (extra : Element) : Except CodecError (List UInt8) :=
  match extra.toBytes with
  | .error cause => .error (.wire cause)
  | .ok bytes =>
    if extraDataLimit < bytes.length then
      .error (.address (.extraDataLimit bytes.length extraDataLimit))
    else .ok bytes

/-- The bytes of an address. -/
def toData (a : Address) : Except CodecError (List UInt8) :=
  match a.extraData with
  | none => .ok (a.publicKey.bytes ++ [a.typeByte])
  | some extra => (extraBytes extra).map fun bytes => a.publicKey.bytes ++ a.typeByte :: bytes

/-- Reads extra data that takes all of some bytes. -/
def extraOfBytes (bytes : List UInt8) : Except CodecError Element :=
  match Reader.element.run (.start bytes (some extraDataLimit)) with
  | .error (.sizeLimit size limit) _ => .error (.address (.extraDataLimit size limit))
  | .error cause _ => .error (.wire cause)
  | .ok e c =>
    if c.remaining = 0 then .ok e else .error (.address (.trailingBytes c.remaining))

/-- Reads the bytes of an address on a network. -/
def ofData (bytes : List UInt8) (network : Network) : Except CodecError Address :=
  match Bytes32.ofList? (bytes.take 32) with
  | none => .error (.address (.invalidPublicKeyLength bytes.length))
  | some key =>
    match bytes.drop 32 with
    | [] => .error (.address .missingType)
    | 0 :: [] => .ok (plain key network)
    | 0 :: extra => .error (.address (.trailingBytes extra.length))
    | 1 :: extra => (extraOfBytes extra).map (integrated key network)
    | type :: _ => .error (.address (.invalidType type))

/-! ## Text -/

/-- The text of an address. -/
def format (a : Address) : Except CodecError String := do
  let bytes ← a.toData
  let symbols ← (Regroup.regroup 8 5 true bytes).mapError .regroup
  (Bech32.encode a.network.hrp symbols).mapError .text

/-- Reads the text of an address. -/
def parse (text : String) : Except CodecError Address := do
  let (hrp, symbols) ← (Bech32.decode text).mapError .text
  let network ← (Network.ofHrp hrp).mapError .address
  let bytes ← (Regroup.regroup 5 8 false symbols).mapError .regroup
  ofData bytes network

/-- Whether a text is an address of some network. -/
def isValid (text : String) : Bool := (parse text).isOk

/-! ## JSON -/

/-- The text of an address as a JSON string. -/
def jsonText (a : Address) : Except CodecError String :=
  a.format.map fun text => (Json.string text).text

open Json.Parser in
/-- Reads an address. What is wrong with it is known as soon as its string has been read, whatever
follows the string. -/
def parser : Json.Parser CodecError Address := do
  match parse (← Json.Parser.string) with
  | .ok a => return a
  | .error cause => reject cause

/-- What is told of a text that is no address. A key that the extra data has twice is named in any
case, as in the text of an element; any other cause where the text is one string, and else only that
the text is malformed. -/
def told (text : String) : Json.Failure CodecError → Json.Failure CodecError
  | .malformed => .malformed
  | .rejected (.wire (.duplicateKey key)) => .rejected (.wire (.duplicateKey key))
  | .rejected cause =>
    match (Json.Parser.string : Json.Parser CodecError String).whole text with
    | .ok _ => .rejected cause
    | .error _ => .malformed

/-- Reads an address that is a whole text. -/
def ofJsonText (text : String) : Except (Json.Failure CodecError) Address :=
  (parser.whole text).mapError (told text)

end AddressCodec.Address
