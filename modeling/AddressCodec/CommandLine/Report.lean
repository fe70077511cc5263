import AddressCodec.Address.Codec
import AddressCodec.Element.Json

/-!
# What commands print

Each command has a result, and each result two forms: lines to be read by a person, and a JSON
object on one line.
-/

namespace AddressCodec.CommandLine

/-- The forms of what is printed. -/
inductive OutputFormat where
  | plain
  | json
  deriving DecidableEq, Repr

/-- The format of exactly this name. -/
def OutputFormat.ofName? : String → Option OutputFormat
  | "plain" => some plain
  | "json" => some json
  | _ => none

/-- What a command found out. -/
inductive Report where
  | decoded (a : Address)
  | encoded (text : String)
  /-- Whether a text is an address, and if not, why. -/
  | validated (fault : Option String)

namespace Report

/-- A result as lines to be read by a person. -/
def lines : Report → List String
  | decoded a =>
    ["network: " ++ a.network.name,
      "type: " ++ (if a.isIntegrated then "integrated" else "normal"),
      "public key: " ++ Hex.encode a.publicKey.bytes]
      ++ (a.extraData.map fun extra => "extra data: " ++ extra.jsonText).toList
  | encoded text => [text]
  | validated none => ["valid"]
  | validated (some fault) => ["invalid: " ++ fault]

/-- A result as JSON; what is absent has no member. -/
def toJson : Report → Json
  | decoded a =>
    .object ([("network", a.network.toJson), ("integrated", .bool a.isIntegrated),
      ("public_key", .string (Hex.encode a.publicKey.bytes))]
      ++ (a.extraData.map fun extra => ("extra_data", extra.toJson)).toList)
  | encoded text => .object [("address", .string text)]
  | validated fault =>
    .object (("valid", .bool fault.isNone) ::
      (fault.map fun why => ("error", Json.string why)).toList)

/-- What is printed of a result in a format, less the last line break. -/
def print (format : OutputFormat) (r : Report) : String :=
  match format with
  | .plain => "\n".intercalate r.lines
  | .json => r.toJson.text

end Report

end AddressCodec.CommandLine
