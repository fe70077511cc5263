import AddressCodec.Bytes

/-!
# Reading JSON text

Parsers for the parts of JSON that typed data is made of. They read characters from the front of a
text and check what they find as they go, so of several faults the first in reading order is
reported. A parser for a list or object is given the parser for what stands in it; the depth to
which these may enclose each other is counted by the caller.
-/

namespace AddressCodec.Json

/-- Why a text cannot be read. -/
inductive Failure (ε : Type) where
  /-- It is not JSON, or not of the shape that is read. -/
  | malformed
  /-- Its shape is right and what it says is not. -/
  | rejected (cause : ε)
  deriving DecidableEq, Repr

/-- A step that reads from the front of a text. -/
abbrev Parser (ε : Type) := StateT (List Char) (Except (Failure ε))

/-- How many lists and objects a text may have inside each other. -/
def maxNesting : Nat := 127

namespace Parser

variable {ε α β σ : Type}

/-- Stops because the text is not of the shape that is read. -/
def fail : Parser ε α := throw .malformed

/-- Stops because of what the text says. -/
def reject (cause : ε) : Parser ε α := throw (.rejected cause)

/-- The blanks that may stand between tokens. -/
def isBlank (c : Char) : Bool :=
  c == ' ' || c == '\n' || c == '\t' || c == '\r'

/-- Passes over blanks. -/
def blanks : Parser ε Unit := modify (·.dropWhile isBlank)

/-- The next character, which has to be there. -/
def char : Parser ε Char := do
  match ← get with
  | c :: rest => set rest; return c
  | [] => fail

/-- The next character that is no blank. -/
def token : Parser ε Char := do
  blanks
  char

/-- The next character, if there is one, left where it is. -/
def peek : Parser ε (Option Char) := do
  return (← get).head?

/-- Passes over a character of a class, if it is next. -/
def skipIf (p : Char → Bool) : Parser ε Bool := do
  match ← get with
  | c :: rest => if p c then set rest; return true else return false
  | [] => return false

/-- Requires a character, before which blanks may stand. -/
def require (c : Char) : Parser ε Unit := do
  if (← token) ≠ c then fail

/-- Requires characters that follow at once. -/
def literally : List Char → Parser ε Unit
  | [] => return ()
  | c :: cs => do
    if (← char) ≠ c then fail
    literally cs

/-- The decimal digits that follow, as many as there are. -/
def digits : Parser ε (List Char) := do
  let s ← get
  set (s.dropWhile Char.isDigit)
  return s.takeWhile Char.isDigit

/-- The digits of a whole number: at least one, and no zero before others. -/
def wholeDigits : Parser ε (List Char) := do
  match ← digits with
  | [] => fail
  | '0' :: _ :: _ => fail
  | ds => return ds

/-- A natural number without fraction and exponent. -/
def natural : Parser ε Nat := do
  return Nat.ofDigitChars 10 (← wholeDigits) 0

/-- The number of four hexadecimal digits, in either case. -/
def codeUnit : Parser ε Nat := do
  let unit ← (List.range 4).foldlM (fun n _ => do
    match Hex.digit? (Utf8.leadByte (← char)) with
    | some d => return 16 * n + d.toNat
    | none => fail) 0
  return unit

/-- The character of one code unit, or of two that form a pair. -/
def codePoint : Parser ε Char := do
  let high ← codeUnit
  if 0xdc00 ≤ high ∧ high ≤ 0xdfff then fail
  else if 0xd800 ≤ high ∧ high ≤ 0xdbff then
    literally ['\\', 'u']
    let low ← codeUnit
    if 0xdc00 ≤ low ∧ low ≤ 0xdfff then
      return Char.ofNat (0x10000 + (high - 0xd800) * 0x400 + (low - 0xdc00))
    else fail
  else return Char.ofNat high

/-- The character of an escape whose backslash has been read. -/
def escaped : Parser ε Char := do
  match ← char with
  | '"' => return '"'
  | '\\' => return '\\'
  | '/' => return '/'
  | 'b' => return '\x08'
  | 'f' => return '\x0c'
  | 'n' => return '\n'
  | 'r' => return '\r'
  | 't' => return '\t'
  | 'u' => codePoint
  | _ => fail

/-- The characters up to the closing quote; the count bounds how many there may be. -/
def quotedWithin : Nat → Parser ε (List Char)
  | 0 => fail
  | count + 1 => do
    let c ← char
    if c = '"' then return []
    let c ← if c = '\\' then escaped else if c.toNat < 32 then fail else pure c
    let rest ← quotedWithin count
    return c :: rest

/-- A string whose opening quote has been read. -/
def quoted : Parser ε String := do
  let s ← get
  return String.ofList (← quotedWithin s.length)

/-- A string with both its quotes. -/
def string : Parser ε String := do
  require '"'
  quoted

/-- A truth value or null, by its spelling. -/
def word (spelling : String) : Parser ε Unit := literally spelling.toList

/-- Reads elements separated by commas, at least one and up to a closing character. Each step
changes what has been gathered; the count bounds how many there may be. -/
def gatherWithin (close : Char) (step : σ → Parser ε σ) : Nat → σ → Parser ε σ
  | 0, _ => fail
  | count + 1, gathered => do
    let gathered ← step gathered
    let c ← token
    if c = ',' then gatherWithin close step count gathered
    else if c = close then return gathered
    else fail

/-- Reads elements separated by commas up to a closing character; the opening one has been read. -/
def gather (close : Char) (step : σ → Parser ε σ) (start : σ) : Parser ε σ := do
  blanks
  if ← skipIf (· == close) then return start
  let s ← get
  gatherWithin close step s.length start

/-- A list with both its brackets, each item read by a parser. -/
def list (item : Parser ε α) : Parser ε (List α) := do
  require '['
  let read ← gather ']' (fun read => do return (← item) :: read) []
  return read.reverse

/-- Requires that only blanks are left. -/
def ending : Parser ε Unit := do
  if ¬ (← get).all isBlank then fail

/-- Reads a whole text; only blanks may follow what is read. -/
def whole (p : Parser ε α) (text : String) : Except (Failure ε) α :=
  (do let a ← p; ending; return a : Parser ε α).run' text.toList

end AddressCodec.Json.Parser
