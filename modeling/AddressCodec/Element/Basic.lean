import AddressCodec.Value.Basic

/-!
# Elements

Extra data is a tree: a scalar, an array of elements, or fields, which map scalar keys to elements.
Fields keep their entries in order. The type admits repeated keys; `DistinctKeys` says that no
fields node has them, and every reader and builder of this library yields such elements only.
What can go wrong when an element is read or written is a `WireError`.
-/

namespace AddressCodec

/-- A node of the tree. -/
inductive Element where
  | value (v : Value)
  | array (items : List Element)
  | fields (entries : List (Value × Element))
  deriving Repr

namespace Element

/-- The kinds of nodes. -/
inductive Kind where
  | value
  | array
  | fields
  deriving DecidableEq, Repr

namespace Kind

/-- All kinds, in the order of their tags. -/
def all : List Kind := [value, array, fields]

/-- The byte that announces a kind. -/
def tag : Kind → UInt8
  | value => 0
  | array => 1
  | fields => 2

/-- The kind that a byte announces. -/
def ofTag? (t : UInt8) : Option Kind :=
  all.find? (·.tag == t)

/-- The name of a kind in JSON. -/
def name : Kind → String
  | value => "value"
  | array => "array"
  | fields => "fields"

/-- The kind with this name in JSON. -/
def ofName? (s : String) : Option Kind :=
  all.find? (·.name == s)

/-- Every kind is found by its tag. -/
theorem ofTag?_tag (k : Kind) : ofTag? k.tag = some k := by
  cases k <;> rfl

end Kind

/-- The kind of a node. -/
def kind : Element → Kind
  | value _ => .value
  | array _ => .array
  | fields _ => .fields

/-- The scalar of a node that is one. -/
def asValue? : Element → Option Value
  | value v => some v
  | _ => none

/-- The items of a node that is an array. -/
def asArray? : Element → Option (List Element)
  | array items => some items
  | _ => none

/-- The entries of a node that is a map, in order. -/
def asFields? : Element → Option (List (Value × Element))
  | fields entries => some entries
  | _ => none

/-- The element under a key, if the node is a map that has it. -/
def get? (e : Element) (key : Value) : Option Element :=
  e.asFields?.bind (·.lookup key)

/-- Puts an element under a key: in the key's place if it is there, at the end if it is not. -/
def insert (key : Value) (e : Element) : List (Value × Element) → List (Value × Element)
  | [] => [(key, e)]
  | (k, old) :: rest => if k = key then (k, e) :: rest else (k, old) :: insert key e rest

/-- The map built by inserting entries in order, so that of a repeated key the first position and
the last element stay. -/
def ofEntries (entries : List (Value × Element)) : Element :=
  fields (entries.foldl (fun built (key, e) => insert key e built) [])

mutual

/-- Number of bytes an element takes on the wire, whether or not it can be written. -/
def encodedSize : Element → Nat
  | value v => 1 + v.encodedSize
  | array items => 2 + sizeOfItems items
  | fields entries => 2 + sizeOfEntries entries

/-- Number of bytes the items of an array take. -/
def sizeOfItems : List Element → Nat
  | [] => 0
  | e :: items => e.encodedSize + sizeOfItems items

/-- Number of bytes the keys and elements of a map take. -/
def sizeOfEntries : List (Value × Element) → Nat
  | [] => 0
  | (key, e) :: entries => key.encodedSize + e.encodedSize + sizeOfEntries entries

end

mutual

/-- No fields node of the tree has two entries with one key. -/
def DistinctKeys : Element → Prop
  | value _ => True
  | array items => ItemsDistinct items
  | fields entries => (entries.map Prod.fst).Nodup ∧ EntriesDistinct entries

/-- No fields node in the items of an array has a key twice. -/
def ItemsDistinct : List Element → Prop
  | [] => True
  | e :: items => e.DistinctKeys ∧ ItemsDistinct items

/-- No fields node under the keys of a map has a key twice. -/
def EntriesDistinct : List (Value × Element) → Prop
  | [] => True
  | (_, e) :: entries => e.DistinctKeys ∧ EntriesDistinct entries

end

mutual

/-- Whether two elements are equal when the order of the entries of maps does not count. -/
def same : Element → Element → Bool
  | value v, value w => v == w
  | array items, array others => sameItems items others
  | fields entries, fields others =>
    entries.length == others.length && entriesIn others entries
  | _, _ => false

/-- Whether two lists of items are as long and equal place by place. -/
def sameItems : List Element → List Element → Bool
  | [], [] => true
  | e :: items, f :: others => e.same f && sameItems items others
  | _, _ => false

/-- Whether every entry of a map has an equal element under its key in another one. -/
def entriesIn (others : List (Value × Element)) : List (Value × Element) → Bool
  | [] => true
  | (key, e) :: entries =>
    (match others.lookup key with
      | some f => e.same f
      | none => false) && entriesIn others entries

end

end Element

/-! ## Errors of the wire format -/

/-- Why an element cannot be read or written. -/
inductive WireError where
  | unknownElementKind (tag : UInt8)
  | unknownValueKind (tag : UInt8)
  | invalidBool (byte : UInt8)
  | unexpectedEnd
  | invalidStringLength (length remaining : Nat)
  | invalidString
  | stringTooLong (bytes : Nat)
  | tooManyElements (count : Nat)
  | duplicateKey (key : Value)
  | sizeLimit (size limit : Nat)
  | trailingBytes (count : Nat)
  /-- The layer below fails: a sink has no room left, or a buffer is read beyond its end. -/
  | sinkFull
  deriving DecidableEq, Repr

/-- The wording of an error, with the values that caused it. -/
def WireError.message : WireError → String
  | .unknownElementKind tag => s!"invalid data element type: {tag}"
  | .unknownValueKind tag => s!"invalid value type: {tag}"
  | .invalidBool byte => s!"invalid boolean value: {byte}"
  | .unexpectedEnd => "unexpected end of data"
  | .invalidStringLength length remaining =>
    s!"string of {length} bytes exceeds the {remaining} remaining bytes"
  | .invalidString => "string is not valid UTF-8"
  | .stringTooLong bytes => s!"string max limit is 255 bytes, got {bytes}"
  | .tooManyElements count => s!"collections are limited to 255 entries, got {count}"
  | .duplicateKey key => "duplicate key in fields: " ++ key.display
  | .sizeLimit size limit => s!"data needs {size} bytes, the limit is {limit} bytes"
  | .trailingBytes count => s!"{count} unexpected bytes after the data element"
  | .sinkFull => "failed to write whole buffer"

end AddressCodec
