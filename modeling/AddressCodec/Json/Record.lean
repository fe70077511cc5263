import AddressCodec.Json.Parser

/-!
# Names and pairs in JSON

Typed data is spelled in JSON by names, and by pairs of two named parts. A member that nobody asks
for is checked for its grammar alone: its strings need not denote text, its numbers may have any
size, and it may nest without limit.
-/

namespace AddressCodec.Json.Parser

variable {ε α β : Type}

/-! ## Passing over values -/

/-- Passes over an escape behind its backslash; surrogates need not pair. -/
def skipEscaped : Parser ε Unit := do
  match ← char with
  | 'u' => let _ ← codeUnit
  | c => if !(['"', '\\', '/', 'b', 'f', 'n', 'r', 't'].contains c) then fail

/-- Passes over the rest of a string; the count bounds its length. -/
def skipQuotedWithin : Nat → Parser ε Unit
  | 0 => fail
  | count + 1 => do
    let c ← char
    if c = '"' then return ()
    if c = '\\' then skipEscaped else if c.toNat < 32 then fail
    skipQuotedWithin count

/-- Passes over a string whose opening quote has been read. -/
def skipQuoted : Parser ε Unit := do
  let s ← get
  skipQuotedWithin s.length

/-- Passes over decimal digits, of which there has to be one. -/
def skipDigits : Parser ε Unit := do
  if (← digits).isEmpty then fail

/-- Passes over a number with its sign, fraction and exponent. -/
def skipNumber : Parser ε Unit := do
  let _ ← skipIf (· == '-')
  let _ ← wholeDigits
  if ← skipIf (· == '.') then skipDigits
  if ← skipIf fun c => c == 'e' || c == 'E' then
    let _ ← skipIf fun c => c == '+' || c == '-'
    skipDigits

/-- Passes over a value that nests to less than a depth. -/
def skipWithin : (depth : Nat) → Parser ε Unit
  | 0 => fail
  | depth + 1 => do
    blanks
    match ← peek with
    | some '"' => literally ['"']; skipQuoted
    | some '[' => literally ['[']; gather ']' (fun _ => skipWithin depth) ()
    | some '{' =>
      literally ['{']
      gather '}' (fun _ => do require '"'; skipQuoted; require ':'; skipWithin depth) ()
    | some 't' => word "true"
    | some 'f' => word "false"
    | some 'n' => word "null"
    | _ => skipNumber

/-- Passes over a value; the characters that are left are depth enough. -/
def skip : Parser ε Unit := do
  let s ← get
  skipWithin s.length

/-! ## Names and pairs -/

/-- A bare name: a string, or an object whose only member has that name and the value null. -/
def name (depth : Nat) : Parser ε String := do
  match ← token with
  | '"' => quoted
  | '{' =>
    if depth = 0 then fail
    let s ← string
    require ':'
    blanks
    word "null"
    require '}'
    return s
  | _ => fail

/-- Reads one member of a pair into its place. A part that is there already is refused at its name;
a member of any other name is passed over. -/
def member (firstName secondName : String) (first : Parser ε α) (second : Parser ε β) :
    Option α × Option β → Parser ε (Option α × Option β)
  | (a?, b?) => do
    let s ← string
    require ':'
    if s = firstName then
      if a?.isSome then fail
      let a ← first
      return (some a, b?)
    else if s = secondName then
      if b?.isSome then fail
      let b ← second
      return (a?, some b)
    else
      skip
      return (a?, b?)

/-- A pair as a list of its parts, whose opening bracket has been read. -/
def listedPair (first : Parser ε α) (second : Parser ε β) : Parser ε (α × β) := do
  let a ← first
  require ','
  let b ← second
  require ']'
  return (a, b)

/-- A pair as an object that has each of its parts once, in either order; the opening brace has been
read. -/
def namedPair (firstName secondName : String) (first : Parser ε α) (second : Parser ε β) :
    Parser ε (α × β) := do
  match ← gather '}' (member firstName secondName first second) (none, none) with
  | (some a, some b) => return (a, b)
  | _ => fail

/-- A pair of two named parts: an object of the two or a list of them. -/
def pair (firstName secondName : String) (first : Parser ε α) (second : Parser ε β) :
    Parser ε (α × β) := do
  match ← token with
  | '[' => listedPair first second
  | '{' => namedPair firstName secondName first second
  | _ => fail

end AddressCodec.Json.Parser
