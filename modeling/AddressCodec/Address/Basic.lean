import AddressCodec.Bech32
import AddressCodec.Element.Basic
import AddressCodec.Json.Basic
import AddressCodec.Json.Record
import AddressCodec.Regroup

/-!
# Addresses

A public key on a network, plain or integrated with extra data. The network selects the human
readable part of an address's text and nothing else. What can be wrong with an address is an
`AddressError`; the errors of its text, bits and extra data come with these in `CodecError`.
-/

namespace AddressCodec

/-! ## Errors -/

/-- Why a name, a human readable part or raw bytes are no part of an address. -/
inductive AddressError where
  | unknownHrp (hrp : String)
  | unknownNetwork (name : String)
  | invalidType (type : UInt8)
  | invalidPublicKeyLength (length : Nat)
  | missingType
  | extraDataLimit (size limit : Nat)
  | trailingBytes (count : Nat)
  deriving DecidableEq, Repr

/-- The wording of an error, with the values that caused it. -/
def AddressError.message : AddressError → String
  | .unknownHrp hrp => s!"unknown address prefix: {hrp}"
  | .unknownNetwork name => s!"unknown network: {name}"
  | .invalidType type => s!"invalid address type: {type}"
  | .invalidPublicKeyLength length => s!"expected a 32 bytes public key, got {length} bytes"
  | .missingType => "address type is missing"
  | .extraDataLimit size limit =>
    s!"extra data of {size} bytes exceeds the limit of {limit} bytes"
  | .trailingBytes count => s!"{count} unexpected bytes after the address data"

/-- Why an address cannot be read or written, by the layer that found out. -/
inductive CodecError where
  | text (cause : Bech32.Error)
  | regroup (cause : Regroup.Error)
  | wire (cause : WireError)
  | address (cause : AddressError)
  deriving DecidableEq, Repr

/-- The wording of an error is that of the layer which found it. -/
def CodecError.message : CodecError → String
  | .text cause => cause.message
  | .regroup cause => cause.message
  | .wire cause => cause.message
  | .address cause => cause.message

/-! ## Networks -/

/-- The networks. -/
inductive Network where
  | mainnet
  | testnet
  deriving DecidableEq, Repr

namespace Network

/-- All networks. -/
def all : List Network := [mainnet, testnet]

/-- The name of a network, as reports and JSON give it. -/
def name : Network → String
  | mainnet => "mainnet"
  | testnet => "testnet"

/-- The human readable part of a network's addresses. -/
def hrp : Network → String
  | mainnet => "xel"
  | testnet => "xet"

/-- Whether a network is the main one. -/
def isMainnet (n : Network) : Bool := n == mainnet

/-- The network with exactly this human readable part. -/
def ofHrp (hrp : String) : Except AddressError Network :=
  match all.find? (·.hrp == hrp) with
  | some n => .ok n
  | none => .error (.unknownHrp hrp)

/-- The network of a name, in letters of either case. -/
def ofName (name : String) : Except AddressError Network :=
  match all.find? (·.name.toList == Bech32.lower name.toList) with
  | some n => .ok n
  | none => .error (.unknownNetwork name)

/-- A network in JSON: its name. -/
def toJson (n : Network) : Json := .string n.name

open Json.Parser in
/-- Reads a network by its exact name. -/
def parser {ε : Type} (depth : Nat) : Json.Parser ε Network := do
  let s ← Json.Parser.name depth
  match all.find? (·.name == s) with
  | some n => return n
  | none => fail

/-- Reads a network from a whole JSON text. -/
def ofJsonText {ε : Type} (text : String) : Except (Json.Failure ε) Network :=
  (parser Json.maxNesting).whole text

end Network

/-! ## Addresses -/

/-- An address; a plain one carries no extra data. -/
structure Address where
  network : Network
  publicKey : Bytes32
  extraData : Option Element
  deriving Repr

namespace Address

/-- The address of a key without extra data. -/
def plain (publicKey : Bytes32) (network : Network) : Address := ⟨network, publicKey, none⟩

/-- The address of a key with extra data. -/
def integrated (publicKey : Bytes32) (network : Network) (extra : Element) : Address :=
  ⟨network, publicKey, some extra⟩

/-- Whether an address carries extra data; empty collections are extra data too. -/
def isIntegrated (a : Address) : Bool := a.extraData.isSome

/-- The byte that says whether extra data follows. -/
def typeByte (a : Address) : UInt8 := if a.isIntegrated then 1 else 0

/-- The address with other extra data, or with none. -/
def setExtraData (a : Address) (extra : Option Element) : Address := { a with extraData := extra }

/-- The address with this extra data in place of any it has. -/
def withExtraData (a : Address) (extra : Element) : Address := a.setExtraData (some extra)

/-- The address without extra data. -/
def clearExtraData (a : Address) : Address := a.setExtraData none

/-- The extra data of an address, and the address without it. -/
def takeExtraData (a : Address) : Option Element × Address := (a.extraData, a.clearExtraData)

/-- Whether the maps of the extra data have no key twice. -/
def DistinctKeys (a : Address) : Prop := ∀ e ∈ a.extraData, e.DistinctKeys

/-- Whether two addresses are equal when the order of the entries of maps does not count. -/
def same (a b : Address) : Bool :=
  a.network == b.network && a.publicKey == b.publicKey &&
    match a.extraData, b.extraData with
    | none, none => true
    | some e, some f => e.same f
    | _, _ => false

end Address

end AddressCodec
