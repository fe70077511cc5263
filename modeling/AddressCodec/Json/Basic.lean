/-!
# JSON values and their text

The values this library writes as JSON, and the text of a value: no blanks, members in order, and in
strings only what must be escaped is escaped.
-/

namespace AddressCodec

/-- A JSON value whose numbers are natural. -/
inductive Json where
  | bool (b : Bool)
  | number (n : Nat)
  | string (s : String)
  | list (items : List Json)
  | object (members : List (String × Json))
  deriving Repr

namespace Json

/-- The form of a character inside a string. -/
def escape (c : Char) : List Char :=
  match c with
  | '"' => ['\\', '"']
  | '\\' => ['\\', '\\']
  | '\x08' => ['\\', 'b']
  | '\x0c' => ['\\', 'f']
  | '\n' => ['\\', 'n']
  | '\r' => ['\\', 'r']
  | '\t' => ['\\', 't']
  | _ =>
    if c.toNat < 32 then
      ['\\', 'u', '0', '0', Nat.digitChar (c.toNat / 16), Nat.digitChar (c.toNat % 16)]
    else [c]

/-- A string in quotes. -/
def quoted (s : String) : List Char :=
  '"' :: s.toList.flatMap escape ++ ['"']

mutual

/-- The characters of a value. -/
def chars : Json → List Char
  | bool b => (if b then "true" else "false").toList
  | number n => Nat.toDigits 10 n
  | string s => quoted s
  | list items => '[' :: itemChars items
  | object members => '{' :: memberChars members

/-- The characters of a list behind its opening bracket, the closing one included. -/
def itemChars : List Json → List Char
  | [] => [']']
  | [item] => item.chars ++ [']']
  | item :: items => item.chars ++ ',' :: itemChars items

/-- The characters of an object behind its opening brace, the closing one included. -/
def memberChars : List (String × Json) → List Char
  | [] => ['}']
  | [(name, value)] => quoted name ++ ':' :: value.chars ++ ['}']
  | (name, value) :: members =>
    quoted name ++ ':' :: value.chars ++ ',' :: memberChars members

end

/-- The text of a value, without blanks. -/
def text (j : Json) : String :=
  String.ofList j.chars

mutual

/-- How many lists and objects of a value enclose each other. -/
def nesting : Json → Nat
  | list items => 1 + itemNesting items
  | object members => 1 + memberNesting members
  | _ => 0

/-- How many lists and objects enclose each other in some item. -/
def itemNesting : List Json → Nat
  | [] => 0
  | item :: items => max item.nesting (itemNesting items)

/-- How many lists and objects enclose each other in some member. -/
def memberNesting : List (String × Json) → Nat
  | [] => 0
  | (_, value) :: members => max value.nesting (memberNesting members)

end

end Json

end AddressCodec
