import AddressCodec.Text

/-!
# Bytes

What bytes stand for: opaque blocks of 32 bytes, natural numbers, strings and hexadecimal text. Main
statement: `Utf8.decode?_eq_some_iff`, a byte list is read as a string if and only if it is the byte
form of that string.
-/

/-! ## Blocks of 32 bytes

Public keys and hashes are opaque blocks of exactly 32 bytes.
-/

namespace AddressCodec

/-- A list of exactly 32 bytes. -/
@[ext]
structure Bytes32 where
  bytes : List UInt8
  length_eq : bytes.length = 32
  deriving DecidableEq, Repr

/-- Takes a byte list of the right length. -/
def Bytes32.ofList? (bytes : List UInt8) : Option Bytes32 :=
  if h : bytes.length = 32 then some ⟨bytes, h⟩ else none

/-- A block is read back from its bytes. -/
theorem Bytes32.ofList?_bytes (b : Bytes32) : Bytes32.ofList? b.bytes = some b := by
  simp [Bytes32.ofList?, b.length_eq]

end AddressCodec

/-! ## Big-endian numbers

A natural number as a fixed count of bytes, the most significant first.
-/

namespace AddressCodec.BigEndian

/-- The low `count` bytes of a number. -/
def encode : (count : Nat) → Nat → List UInt8
  | 0, _ => []
  | count + 1, n => encode count (n / 256) ++ [UInt8.ofNat n]

/-- The number that a byte list denotes. -/
def decode (bytes : List UInt8) : Nat :=
  bytes.foldl (fun n b => 256 * n + b.toNat) 0

/-- A number takes the bytes it is given, whatever its size. -/
@[simp] theorem length_encode (count n : Nat) : (encode count n).length = count := by
  induction count generalizing n with
  | zero => rfl
  | succ count ih => simp [encode, ih]

/-- Appending a byte shifts the number by one byte. -/
theorem decode_append_singleton (bytes : List UInt8) (b : UInt8) :
    decode (bytes ++ [b]) = 256 * decode bytes + b.toNat := by
  simp [decode]

end AddressCodec.BigEndian

/-! ## UTF-8

The byte form of a string and its exact inverse.
-/

namespace AddressCodec.Utf8

/-- The UTF-8 bytes of a string. -/
def encode (s : String) : List UInt8 :=
  s.toByteArray.data.toList

/-- The string with these UTF-8 bytes, if there is one. -/
def decode? (bytes : List UInt8) : Option String :=
  String.fromUTF8? bytes.toByteArray

/-- The first byte of the UTF-8 form of a character. -/
def leadByte (c : Char) : UInt8 :=
  (String.utf8EncodeChar c).head String.utf8EncodeChar_ne_nil

/-- Number of bytes that a run of characters takes in UTF-8. -/
def byteLength (cs : List Char) : Nat :=
  (cs.flatMap String.utf8EncodeChar).length

/-- The bytes of a string are the bytes of its characters, in order. -/
theorem encode_ofList (cs : List Char) :
    encode (String.ofList cs) = cs.flatMap String.utf8EncodeChar := by
  simp [encode, String.toByteArray_ofList, List.utf8Encode]

/-- Decoding accepts exactly what encoding produces. -/
theorem decode?_eq_some_iff {bytes : List UInt8} {s : String} :
    decode? bytes = some s ↔ encode s = bytes := by
  have toBytes : encode s = bytes ↔ s.toByteArray = bytes.toByteArray := by
    rw [encode, ByteArray.ext_iff, List.data_toByteArray, ← Array.toList_inj]
  rw [toBytes, decode?, String.fromUTF8?]
  split
  next h => simp [String.fromUTF8, ← String.toByteArray_inj, eq_comm]
  next h => simp only [reduceCtorEq, false_iff]; exact fun e => h (e ▸ s.isValidUTF8)

end AddressCodec.Utf8

/-! ## Hexadecimal text

Two digits a byte, the high half first. Writing uses lowercase digits, reading takes either case.
Positions in errors count UTF-8 bytes of the text that was read.
-/

namespace AddressCodec.Hex

/-- Why a text is not hexadecimal. -/
inductive Error where
  | oddLength
  | invalidDigit (byte : UInt8) (index : Nat)
  deriving DecidableEq, Repr

/-- The wording of an error; a bad byte is shown as the character of its number. -/
def Error.message : Error → String
  | .oddLength => "Odd number of digits"
  | .invalidDigit byte index =>
    let shown := String.ofList (Text.Quoted.char (Char.ofNat byte.toNat))
    s!"Invalid character {shown} at position {index}"

/-- The two digits of a byte. -/
def ofByte (b : UInt8) : List Char :=
  [Nat.digitChar (b.toNat / 16), Nat.digitChar (b.toNat % 16)]

/-- The lowercase digits of a byte list. -/
def chars (bytes : List UInt8) : List Char :=
  bytes.flatMap ofByte

/-- The lowercase hexadecimal text of a byte list. -/
def encode (bytes : List UInt8) : String :=
  String.ofList (chars bytes)

/-- The value of an ASCII digit of either case. -/
def digit? (b : UInt8) : Option UInt8 :=
  if 48 ≤ b ∧ b ≤ 57 then some (b - 48)
  else if 97 ≤ b ∧ b ≤ 102 then some (b - 87)
  else if 65 ≤ b ∧ b ≤ 70 then some (b - 55)
  else none

/-- The value of the digit at an index; a bad digit is reported with its index. -/
def digitAt (index : Nat) (b : UInt8) : Except Error UInt8 :=
  match digit? b with
  | some d => .ok d
  | none => .error (.invalidDigit b index)

/-- Reads digit pairs, the first of them at an index. -/
def pairs (index : Nat) : List UInt8 → Except Error (List UInt8)
  | [] => .ok []
  | [_] => .error .oddLength
  | high :: low :: rest => do
    let h ← digitAt index high
    let l ← digitAt (index + 1) low
    let tail ← pairs (index + 2) rest
    return (16 * h + l) :: tail

/-- Reads a whole text; an odd length is reported before any bad digit, and of bad digits the
first. -/
def decode (text : String) : Except Error (List UInt8) :=
  let bytes := Utf8.encode text
  if bytes.length % 2 = 1 then .error .oddLength else pairs 0 bytes

end AddressCodec.Hex
