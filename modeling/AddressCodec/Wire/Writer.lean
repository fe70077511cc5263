import AddressCodec.Bytes
import AddressCodec.Element.Basic

/-!
# Writing elements to bytes

A writer appends to a sink, which may have room for a limited number of bytes only. A write that
does not fit leaves the part that does and fails. The tag of a string or collection is written
before its length is checked, its length byte after that; children follow in order, a key before
its element.
-/

namespace AddressCodec

/-- The bytes written so far, and how many there may be in all. -/
structure Sink where
  content : Array UInt8
  capacity : Option Nat
  deriving DecidableEq, Repr

namespace Sink

/-- A sink nothing has been written to. -/
def empty (capacity : Option Nat) : Sink := ⟨#[], capacity⟩

/-- The longest part of some bytes that a sink has room for. -/
def fitting (sink : Sink) (bytes : List UInt8) : List UInt8 :=
  match sink.capacity with
  | none => bytes
  | some capacity => bytes.take (capacity - sink.content.size)

/-- The sink behind some bytes. -/
def append (sink : Sink) (bytes : List UInt8) : Sink :=
  { sink with content := sink.content ++ bytes }

end Sink

/-- A step that appends to a sink and may fail, and leaves what was written. -/
abbrev Writer := EStateM WireError Sink

namespace Writer

/-- The most bytes a string may have, and the most entries a collection may have. -/
def maxLength : Nat := 255

/-- Writes bytes, or as many of them as fit. -/
def bytes (bs : List UInt8) : Writer Unit := do
  let sink ← get
  let fitting := sink.fitting bs
  set (sink.append fitting)
  if fitting.length < bs.length then throw .sinkFull

/-- Writes one byte. -/
def byte (b : UInt8) : Writer Unit := bytes [b]

/-- Writes the count of a collection, if a byte can hold it. -/
def count (length : Nat) : Writer Unit := do
  if maxLength < length then throw (.tooManyElements length)
  byte (UInt8.ofNat length)

/-- Writes what follows a type tag. -/
def payload : Value → Writer Unit
  | .bool b => byte (if b then 1 else 0)
  | .string s => do
    let text := Utf8.encode s
    if maxLength < text.length then throw (.stringTooLong text.length)
    byte (UInt8.ofNat text.length)
    bytes text
  | .uint w n => bytes (BigEndian.encode w.bytes n.toNat)
  | .hash h => bytes h.bytes

/-- Writes a value behind its type tag, and tells how many bytes that took. -/
def value (v : Value) : Writer Nat := do
  byte v.kind.tag
  payload v
  return v.encodedSize

mutual

/-- Writes an element and all below it, and tells how many bytes that took. -/
def element : Element → Writer Nat
  | .value v => do
    byte Element.Kind.value.tag
    let size ← value v
    return 1 + size
  | .array elements => do
    byte Element.Kind.array.tag
    count elements.length
    let size ← items elements
    return 2 + size
  | .fields mapped => do
    byte Element.Kind.fields.tag
    count mapped.length
    let size ← entries mapped
    return 2 + size

/-- Writes the items of an array in order, and tells how many bytes that took. -/
def items : List Element → Writer Nat
  | [] => return 0
  | e :: elements => do
    let first ← element e
    let rest ← items elements
    return first + rest

/-- Writes the entries of a map in order, each key before its element, and tells how many bytes that
took. -/
def entries : List (Value × Element) → Writer Nat
  | [] => return 0
  | (key, e) :: mapped => do
    let keySize ← value key
    let size ← element e
    let rest ← entries mapped
    return keySize + size + rest

end

end Writer

/-- The bytes of an element. -/
def Element.toBytes (e : Element) : Except WireError (List UInt8) :=
  match (Writer.element e).run (.empty none) with
  | .ok _ sink => .ok sink.content.toList
  | .error cause _ => .error cause

/-- What a writer is asked for next. -/
inductive WriteRequest where
  | element (e : Element)
  | value (v : Value)
  deriving Repr

/-- Answers one request with the number of bytes written or the reason why not all were. -/
def Sink.answer (sink : Sink) (request : WriteRequest) : Except WireError Nat × Sink :=
  let outcome := match request with
    | .element e => (Writer.element e).run sink
    | .value v => (Writer.value v).run sink
  match outcome with
  | .ok size next => (.ok size, next)
  | .error cause next => (.error cause, next)

/-- Answers requests one after the other, and shows the sink after each. -/
def Sink.session (sink : Sink) : List WriteRequest → List (Except WireError Nat × Sink)
  | [] => []
  | request :: requests =>
    let answered := sink.answer request
    answered :: answered.2.session requests

end AddressCodec
