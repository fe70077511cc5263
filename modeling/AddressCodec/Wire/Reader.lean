import AddressCodec.Bytes
import AddressCodec.Element.Basic

/-!
# Reading elements from bytes

A reader moves a cursor over a byte buffer. What it has passed it keeps, also when it fails: tags,
counts and length bytes, a byte that is no truth value and the bytes of a bad string are behind the
cursor, while a payload of fixed width that is too short is not touched. A limit on the position is
checked before the end of the buffer.

The tree is read by recursion on a depth. Each level of nesting takes a byte of its own, so the
bytes that are left are depth enough, and `Reader.element` asks for no other.
-/

namespace AddressCodec

/-- A position in a byte buffer: what is left to read, how much was read, and the position that may
not be passed. -/
structure Cursor where
  rest : List UInt8
  position : Nat
  limit : Option Nat
  deriving DecidableEq, Repr

namespace Cursor

/-- The cursor in front of a buffer. -/
def start (bytes : List UInt8) (limit : Option Nat) : Cursor := ⟨bytes, 0, limit⟩

/-- Number of bytes left to read. -/
def remaining (c : Cursor) : Nat := c.rest.length

/-- The cursor behind the next bytes. -/
def advance (c : Cursor) (count : Nat) : Cursor :=
  { c with rest := c.rest.drop count, position := c.position + count }

end Cursor

/-- A step that moves the cursor and may fail, and leaves the cursor where it stopped. -/
abbrev Reader := EStateM WireError Cursor

namespace Reader

/-- Fails if the limit is passed by reading some bytes more. -/
def checkLimit (size : Nat) : Reader Unit := do
  let c ← get
  match c.limit with
  | some limit => if limit < c.position + size then throw (.sizeLimit (c.position + size) limit)
  | none => pure ()

/-- Fails if the limit or the end of the buffer comes before the end of the next bytes. -/
def reserve (size : Nat) : Reader Unit := do
  checkLimit size
  let c ← get
  if (c.rest.take size).length < size then throw .unexpectedEnd

/-- The next bytes, wherever the limit is. If there are too few this is an error of the buffer, so
they have to be looked for before. -/
def raw (count : Nat) : Reader (List UInt8) := do
  let c ← get
  let taken := c.rest.take count
  if taken.length < count then throw .sinkFull
  set (c.advance count)
  return taken

/-- The next bytes; fails without moving if the limit or the end of the buffer comes first. -/
def bytes (count : Nat) : Reader (List UInt8) := do
  reserve count
  raw count

/-- The next byte. -/
def byte : Reader UInt8 := do
  let taken ← bytes 1
  return taken.headD 0

/-- A truth value: the byte zero or one. -/
def bool : Reader Bool := do
  let b ← byte
  if b = 0 then return false
  else if b = 1 then return true
  else throw (.invalidBool b)

/-- A string behind its length byte. -/
def string : Reader String := do
  let length := (← byte).toNat
  checkLimit length
  let c ← get
  if (c.rest.take length).length < length then throw (.invalidStringLength length c.remaining)
  match Utf8.decode? (← raw length) with
  | some s => return s
  | none => throw .invalidString

/-- An integer of a width, its high byte first. -/
def uint (w : Width) : Reader (BitVec w.bits) := do
  let taken ← bytes w.bytes
  return BitVec.ofNat w.bits (BigEndian.decode taken)

/-- The 32 bytes of a hash. -/
def hash : Reader Bytes32 := do
  let taken ← bytes 32
  match Bytes32.ofList? taken with
  | some h => return h
  | none => throw .unexpectedEnd

/-- What follows a type tag. -/
def payload : Value.Kind → Reader Value
  | .bool => Value.bool <$> bool
  | .string => Value.string <$> string
  | .uint w => Value.uint w <$> uint w
  | .hash => Value.hash <$> hash

/-- A value behind its type tag. -/
def value : Reader Value := do
  let tag ← byte
  match Value.Kind.ofTag? tag with
  | some kind => payload kind
  | none => throw (.unknownValueKind tag)

/-- A step repeated a number of times. -/
def times {α : Type} (step : Reader α) : Nat → Reader (List α)
  | 0 => return []
  | count + 1 => do
    let a ← step
    let rest ← times step count
    return a :: rest

/-- Entries of a map behind those already read. A key counts as repeated once the element under it
has been read. -/
def entries (element : Reader Element) :
    Nat → List (Value × Element) → Reader (List (Value × Element))
  | 0, read => return read
  | count + 1, read => do
    let key ← value
    let e ← element
    if (read.map Prod.fst).contains key then throw (.duplicateKey key)
    entries element count (read ++ [(key, e)])

/-- An element that nests to at most a depth. -/
def elementWithin : (depth : Nat) → Reader Element
  | 0 => do
    let _ ← byte
    throw .unexpectedEnd
  | depth + 1 => do
    let tag ← byte
    match Element.Kind.ofTag? tag with
    | none => throw (.unknownElementKind tag)
    | some .value => Element.value <$> value
    | some .array => do
      let count ← byte
      Element.array <$> times (elementWithin depth) count.toNat
    | some .fields => do
      let count ← byte
      Element.fields <$> entries (elementWithin depth) count.toNat []

/-- An element, read to whatever depth the bytes that are left allow. -/
def element : Reader Element := do
  let c ← get
  elementWithin c.remaining

end Reader

/-- Reads an element that takes the whole of a byte list. -/
def Element.ofBytes (bytes : List UInt8) : Except WireError Element :=
  match Reader.element.run (.start bytes none) with
  | .error e _ => .error e
  | .ok e c => if c.remaining = 0 then .ok e else .error (.trailingBytes c.remaining)

/-- What a reader is asked for next. -/
inductive ReadRequest where
  | element
  | value
  deriving DecidableEq, Repr

/-- What a reader found. -/
inductive ReadAnswer where
  | element (e : Element)
  | value (v : Value)
  | failed (cause : WireError)
  deriving Repr

/-- Answers one request and moves the cursor. -/
def Cursor.answer (c : Cursor) : ReadRequest → ReadAnswer × Cursor
  | .element =>
    match Reader.element.run c with
    | .ok e next => (.element e, next)
    | .error cause next => (.failed cause, next)
  | .value =>
    match Reader.value.run c with
    | .ok v next => (.value v, next)
    | .error cause next => (.failed cause, next)

/-- Answers requests one after the other, and shows the cursor after each. -/
def Cursor.session (c : Cursor) : List ReadRequest → List (ReadAnswer × Cursor)
  | [] => []
  | request :: requests =>
    let answered := c.answer request
    answered :: answered.2.session requests

end AddressCodec
