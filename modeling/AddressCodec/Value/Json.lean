import AddressCodec.Json.Basic
import AddressCodec.Json.Record
import AddressCodec.Value.Basic

/-!
# Values in JSON

A value is a pair of its type's name and what it holds: a truth value, a string or a number. Numbers
of 128 bits are strings of decimal digits, since few readers of JSON keep so many, and hashes are
strings of hexadecimal digits.
-/

namespace AddressCodec.Value

/-- What a value holds, in JSON. -/
def contentJson : Value → Json
  | bool b => .bool b
  | string s => .string s
  | uint .w128 n => .string (String.ofList (Nat.toDigits 10 n.toNat))
  | uint _ n => .number n.toNat
  | hash h => .string (Hex.encode h.bytes)

/-- A value in JSON: the name of its type, and what it holds. -/
def toJson (v : Value) : Json :=
  .object [("type", .string v.kind.name), ("value", v.contentJson)]

/-- What may be held by a value, before its type is known. -/
inductive Scalar where
  | bool (b : Bool)
  | number (n : Nat)
  | string (s : String)
  deriving DecidableEq, Repr

/-- The number of a text of decimal digits, behind at most one plus sign. -/
def decimal? (s : String) : Option Nat :=
  let digits := match s.toList with
    | '+' :: rest => rest
    | cs => cs
  if digits ≠ [] ∧ digits.all Char.isDigit then some (Nat.ofDigitChars 10 digits 0) else none

/-- The integer of a width that is equal to a number, if there is one. -/
def ofNat? (w : Width) (n : Nat) : Option Value :=
  let i := BitVec.ofNat w.bits n
  if i.toNat = n then some (uint w i) else none

/-- The value of a type that holds a scalar. -/
def ofScalar? : Kind → Scalar → Option Value
  | .bool, .bool b => some (bool b)
  | .string, .string s => some (string s)
  | .uint .w128, .string s => (decimal? s).bind (ofNat? .w128)
  | .uint .w128, _ => none
  | .uint w, .number n => ofNat? w n
  | .hash, .string s => (Hex.decode s).toOption.bind fun bytes => (Bytes32.ofList? bytes).map hash
  | _, _ => none

open Json.Parser in
/-- A truth value, a string or a number, told apart by the first character. -/
def scalar {ε : Type} : Json.Parser ε Scalar := do
  blanks
  match ← peek with
  | some '"' => return .string (← Json.Parser.string)
  | some 't' => word "true"; return .bool true
  | some 'f' => word "false"; return .bool false
  | _ => return .number (← natural)

open Json.Parser in
/-- The type whose name a parser reads. -/
def kindNamed {ε : Type} (name : Json.Parser ε String) : Json.Parser ε Kind := do
  match Kind.ofName? (← name) with
  | some k => return k
  | none => fail

open Json.Parser in
/-- Reads a type and what is held. In a list the type is a string; in an object its name may stand
in an object of its own. -/
def content {ε : Type} (depth : Nat) : Json.Parser ε (Kind × Scalar) := do
  match ← token with
  | '[' => listedPair (kindNamed Json.Parser.string) scalar
  | '{' => namedPair "type" "value" (kindNamed (name depth)) scalar
  | _ => fail

open Json.Parser in
/-- Reads a value that may nest to a depth. -/
def parser {ε : Type} : (depth : Nat) → Json.Parser ε Value
  | 0 => fail
  | depth + 1 => do
    let (kind, held) ← content depth
    match ofScalar? kind held with
    | some v => return v
    | none => fail

/-- Reads a value from a whole JSON text. -/
def ofJsonText {ε : Type} (text : String) : Except (Json.Failure ε) Value :=
  (parser Json.maxNesting).whole text

end AddressCodec.Value
