import AddressCodec.CommandLine.Arguments
import AddressCodec.CommandLine.Report
import AddressCodec.Text

/-!
# Commands

The commands `decode`, `validate` and `encode`, with the output format as an option of all of them.
What is not given as an option comes from the environment, and else is the main network and plain
output. The whole command line is checked before the command runs.
-/

namespace AddressCodec.CommandLine

/-- The variables that stand in for options. -/
structure Environment where
  /-- The value of `XELIS_NETWORK`, if it is set. -/
  network : Option String
  /-- The value of `XELIS_OUTPUT_FORMAT`, if it is set. -/
  outputFormat : Option String
  deriving DecidableEq, Repr

/-- A command with what it works on. -/
inductive Command where
  | decode (text : String)
  | validate (text : String)
  | encode (publicKey : String) (network : Network) (extra : Option Element)

/-- Why a command line yields no output. -/
inductive Failure where
  | usage (cause : UsageError)
  | publicKeyHex (cause : Hex.Error)
  | publicKeyLength (length : Nat)
  | codec (cause : CodecError)
  deriving DecidableEq, Repr

/-- The wording of a failure. -/
def Failure.message : Failure → String
  | .usage cause => cause.message
  | .publicKeyHex cause => s!"public key is not valid hex: {cause.message}"
  | .publicKeyLength length => s!"public key must be 32 bytes, got {length} bytes"
  | .codec cause => cause.message

/-- The network that a value names; the refusal says where the value comes from. -/
def networkOf (source value : String) : Except UsageError Network :=
  (Network.ofName value).mapError fun _ => .invalidValue source value

/-- The output format that a value names; the refusal says where the value comes from. -/
def formatOf (source value : String) : Except UsageError OutputFormat :=
  match OutputFormat.ofName? value with
  | some format => .ok format
  | none => .error (.invalidValue source value)

/-- The path that a value names behind an at sign. -/
def pathOf? (value : String) : Option String :=
  match value.toList with
  | '@' :: path => some (String.ofList path)
  | _ => none

/-- Reads extra data given as JSON or as the path of a JSON file. -/
def extraOf (fileText : String → Option String) (value : String) : Except UsageError Element := do
  let text? := match pathOf? value with
    | some path => fileText path
    | none => some value
  match text?.bind fun text => (Element.ofJsonText text).toOption with
  | some extra => return extra
  | none => throw (.invalidValue "--extra-data" value)

/-- Chooses the output format. The option may stand before the command and behind it, where the one
behind counts; the variable is looked at, and has to be right, unless both are given. -/
def chooseFormat (environment : Environment) (before behind : Option String) :
    Except UsageError OutputFormat := do
  let before ← before.mapM (formatOf "--output-format")
  let behind ← behind.mapM (formatOf "--output-format")
  let fromEnvironment ←
    if before.isSome ∧ behind.isSome then pure none
    else environment.outputFormat.mapM (formatOf "XELIS_OUTPUT_FORMAT")
  return (behind <|> before <|> fromEnvironment).getD .plain

/-- The only operand of a command. -/
def onlyOperand (name : String) : List String → Except UsageError String
  | [] => .error (.missingArgument name)
  | [text] => .ok text
  | _ :: text :: _ => .error (.unexpectedOperand text)

/-- The command `encode` with its options. -/
def encodeCommand (environment : Environment) (fileText : String → Option String)
    (given : List (String × String)) (operands : List String) : Except UsageError Command := do
  if let text :: _ := operands then throw (.unexpectedOperand text)
  let network? ← match given.lookup "network" with
    | some value => some <$> networkOf "--network" value
    | none => environment.network.mapM (networkOf "XELIS_NETWORK")
  let extra? ← (given.lookup "extra-data").mapM (extraOf fileText)
  match given.lookup "public-key" with
  | some publicKey => return .encode publicKey (network?.getD .mainnet) extra?
  | none => throw (.missingArgument "--public-key")

/-- The command of a command line, and the format of its output. -/
def commandOf (environment : Environment) (fileText : String → Option String)
    (arguments : List String) : Except UsageError (Command × OutputFormat) := do
  let parts ← Parts.ofArguments arguments
  let given := options parts.rest
  let operands := operands parts.rest
  checkOptions ["output-format"] parts.leading
  let command ← match parts.command with
    | "decode" => do
      checkOptions ["output-format"] given
      .decode <$> onlyOperand "ADDRESS" operands
    | "validate" => do
      checkOptions ["output-format"] given
      .validate <$> onlyOperand "ADDRESS" operands
    | "encode" => do
      checkOptions ["public-key", "network", "extra-data", "output-format"] given
      encodeCommand environment fileText given operands
    | name => throw (.unknownCommand name)
  let format ← chooseFormat environment
    (parts.leading.lookup "output-format") (given.lookup "output-format")
  return (command, format)

/-- Reads a public key as hexadecimal text, around which blanks and before which `0x` may stand. -/
def publicKeyOf (text : String) : Except Failure Bytes32 := do
  let digits := match Text.Blank.trim text.toList with
    | '0' :: 'x' :: rest => rest
    | cs => cs
  let bytes ← (Hex.decode (String.ofList digits)).mapError .publicKeyHex
  match Bytes32.ofList? bytes with
  | some key => return key
  | none => throw (.publicKeyLength bytes.length)

/-- What a command finds out. An address that is not valid is a result of `validate` and a failure
of `decode`. -/
def Command.run : Command → Except Failure Report
  | decode text => ((Address.parse text).map .decoded).mapError .codec
  | validate text =>
    match Address.parse text with
    | .ok _ => .ok (.validated none)
    | .error cause => .ok (.validated (some cause.message))
  | encode publicKey network extra => do
    let key ← publicKeyOf publicKey
    let text ← ((Address.mk network key extra).format).mapError .codec
    return .encoded text

/-- Runs a command line and gives what it prints. -/
def run (environment : Environment) (fileText : String → Option String)
    (arguments : List String) : Except Failure String := do
  let (command, format) ← (commandOf environment fileText arguments).mapError .usage
  let report ← command.run
  return report.print format

/-- The paths that arguments may name. -/
def pathsIn (arguments : List String) : List String :=
  arguments.filterMap fun argument =>
    match Word.of argument with
    | .long _ (some value) => pathOf? value
    | _ => pathOf? argument

end AddressCodec.CommandLine
