import AddressCodec.Bytes

/-!
# Scalar values

The leaves and keys of extra data: truth values, strings, unsigned integers of five widths and
hashes. A value carries its type, so the same number in two widths is two values.
-/

namespace AddressCodec

/-- The widths of unsigned integers. -/
inductive Width where
  | w8 | w16 | w32 | w64 | w128
  deriving DecidableEq, Repr

/-- Number of bytes of a width. -/
def Width.bytes : Width → Nat
  | .w8 => 1
  | .w16 => 2
  | .w32 => 4
  | .w64 => 8
  | .w128 => 16

/-- Number of bits of a width. -/
def Width.bits (w : Width) : Nat := 8 * w.bytes

/-- A scalar. -/
inductive Value where
  | bool (b : Bool)
  | string (s : String)
  | uint (w : Width) (n : BitVec w.bits)
  | hash (h : Bytes32)
  deriving DecidableEq, Repr

namespace Value

/-- The types of scalars. -/
inductive Kind where
  | bool
  | string
  | uint (w : Width)
  | hash
  deriving DecidableEq, Repr

namespace Kind

/-- All types, in the order of their tags. -/
def all : List Kind :=
  [bool, string, uint .w8, uint .w16, uint .w32, uint .w64, uint .w128, hash]

/-- The byte that announces a type. -/
def tag : Kind → UInt8
  | bool => 0
  | string => 1
  | uint .w8 => 2
  | uint .w16 => 3
  | uint .w32 => 4
  | uint .w64 => 5
  | uint .w128 => 6
  | hash => 7

/-- The type that a byte announces. -/
def ofTag? (t : UInt8) : Option Kind :=
  all.find? (·.tag == t)

/-- The name of a type in JSON. -/
def name : Kind → String
  | bool => "bool"
  | string => "string"
  | uint .w8 => "u8"
  | uint .w16 => "u16"
  | uint .w32 => "u32"
  | uint .w64 => "u64"
  | uint .w128 => "u128"
  | hash => "hash"

/-- The type with this name in JSON. -/
def ofName? (s : String) : Option Kind :=
  all.find? (·.name == s)

/-- Every type is found by its tag. -/
theorem ofTag?_tag (k : Kind) : ofTag? k.tag = some k := by
  rcases k with _ | _ | w | _ <;> first | rfl | (cases w <;> rfl)

end Kind

/-- The type of a value. -/
def kind : Value → Kind
  | bool _ => .bool
  | string _ => .string
  | uint w _ => .uint w
  | hash _ => .hash

/-- Number of bytes after the tag. -/
def payloadSize : Value → Nat
  | bool _ => 1
  | string s => 1 + s.utf8ByteSize
  | uint w _ => w.bytes
  | hash _ => 32

/-- Number of bytes a value takes on the wire, its tag included. -/
def encodedSize (v : Value) : Nat := 1 + v.payloadSize

/-- The truth value that a value is. -/
def asBool? : Value → Option Bool
  | bool b => some b
  | _ => none

/-- The string that a value is. -/
def asString? : Value → Option String
  | string s => some s
  | _ => none

/-- The hash that a value is. -/
def asHash? : Value → Option Bytes32
  | hash h => some h
  | _ => none

/-- The number of an integer of any width. -/
def asNat? : Value → Option Nat
  | uint _ n => some n.toNat
  | _ => none

/-- The number of an integer of any width, if it fits in 64 bits. -/
def asWord? (v : Value) : Option Nat :=
  v.asNat?.filter (· < UInt64.size)

/-- Order of two values of one type: false before true, strings by their bytes, numbers by size,
hashes by their bytes. -/
def comparePayload : Value → Value → Ordering
  | bool a, bool b => compare a b
  | string s, string t => compare (Utf8.encode s) (Utf8.encode t)
  | uint _ n, uint _ m => compare n.toNat m.toNat
  | hash h, hash k => compare h.bytes k.bytes
  | _, _ => .eq

/-- Order of values: by type, then by what they hold. -/
def compare (v w : Value) : Ordering :=
  (Ord.compare v.kind.tag w.kind.tag).then (comparePayload v w)

/-- Values in ascending order. -/
def sort (values : List Value) : List Value :=
  values.mergeSort fun v w => (v.compare w).isLE

/-! ## Values in messages

How a value is named in an error message: strings in quotes, numbers with their type behind them,
hashes as bare digits.
-/

/-- The characters that name a value. -/
def displayChars : Value → List Char
  | bool b => (if b then "true" else "false").toList
  | string s => Text.Quoted.string s
  | uint w n => Nat.toDigits 10 n.toNat ++ (Kind.uint w).name.toList
  | hash h => Hex.chars h.bytes

/-- The name of a value in a message. -/
def display (v : Value) : String :=
  String.ofList v.displayChars

end Value

end AddressCodec
