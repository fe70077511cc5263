import AddressCodec.Element.Basic
import AddressCodec.Value.Json

/-!
# Elements in JSON

A node is an object whose only member is named for the node's kind and holds the value, the list of
items or the list of entries; an entry is a pair of its key and its element.
-/

namespace AddressCodec.Element

mutual

/-- An element in JSON, its entries in their order. -/
def toJson : Element → Json
  | value v => .object [(Kind.value.name, v.toJson)]
  | array items => .object [(Kind.array.name, .list (itemsJson items))]
  | fields entries => .object [(Kind.fields.name, .list (entriesJson entries))]

/-- The items of an array in JSON. -/
def itemsJson : List Element → List Json
  | [] => []
  | e :: items => e.toJson :: itemsJson items

/-- The entries of a map in JSON, each an object of its key and its element. -/
def entriesJson : List (Value × Element) → List Json
  | [] => []
  | (key, e) :: entries =>
    .object [("key", key.toJson), ("value", e.toJson)] :: entriesJson entries

end

/-- The JSON text of an element. -/
def jsonText (e : Element) : String := e.toJson.text

/-- The first key of a list that stands earlier in it, where some keys are already known. -/
def firstRepeated? (known : List Value) : List Value → Option Value
  | [] => none
  | key :: keys => if known.contains key then some key else firstRepeated? (key :: known) keys

open Json.Parser in
/-- Closes a map that has been read, unless it has a key twice. -/
def mapOf (entries : List (Value × Element)) : Json.Parser WireError Element :=
  match firstRepeated? [] (entries.map Prod.fst) with
  | some key => reject (.duplicateKey key)
  | none => return fields entries

open Json.Parser in
/-- Reads an element that may nest to a depth. Whether a map repeats a key is checked once its whole
object has been read. -/
def parser : (depth : Nat) → Json.Parser WireError Element
  | 0 => fail
  | depth + 1 => do
    require '{'
    match Kind.ofName? (← Json.Parser.string) with
    | none => fail
    | some .value => do
      require ':'
      let v ← Value.parser depth
      require '}'
      return value v
    | some .array => do
      require ':'
      let items ← match depth with
        | 0 => fail
        | inner + 1 => list (parser inner)
      require '}'
      return array items
    | some .fields => do
      require ':'
      let entries ← match depth with
        | 0 => fail
        | inner + 1 => list <| match inner with
          | 0 => fail
          | inner + 1 => pair "key" "value" (Value.parser inner) (parser inner)
      require '}'
      mapOf entries

/-- Reads an element from a whole JSON text. -/
def ofJsonText (text : String) : Except (Json.Failure WireError) Element :=
  (parser Json.maxNesting).whole text

end AddressCodec.Element
