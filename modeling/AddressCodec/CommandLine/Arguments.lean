/-!
# The shape of a command line

A command line is a command and its operands, among which options stand, each with a value. A value
follows its option's name as the next argument or behind an equals sign; as an argument of its own
it does not start with a dash, unless it is a single one. Two dashes alone end the options.
-/

namespace AddressCodec.CommandLine

/-- Why a command line is refused. -/
inductive UsageError where
  | unknownOption (argument : String)
  | missingValue (option : String)
  | repeatedOption
  | invalidValue (source value : String)
  | missingCommand
  | unknownCommand (name : String)
  | missingArgument (name : String)
  | unexpectedOperand (text : String)
  deriving DecidableEq, Repr

/-- The wording of a refusal. -/
def UsageError.message : UsageError → String
  | .unknownOption argument => s!"unknown option: {argument}"
  | .missingValue option => s!"option without a value: {option}"
  | .repeatedOption => "an option is given twice"
  | .invalidValue source value => s!"invalid value for {source}: {value}"
  | .missingCommand => "a command is missing"
  | .unknownCommand name => s!"unknown command: {name}"
  | .missingArgument name => s!"missing argument: {name}"
  | .unexpectedOperand text => s!"unexpected argument: {text}"

/-- A part of a command line. -/
inductive Token where
  | option (name value : String)
  | operand (text : String)
  /-- An argument behind the end of the options. -/
  | trailing (text : String)
  deriving DecidableEq, Repr

/-- What an argument looks like. -/
inductive Word where
  | plain
  | long (name : String) (attached : Option String)
  | short
  | ending
  deriving DecidableEq, Repr

/-- What an argument looks like, taken by itself; a single dash is plain. -/
def Word.of (argument : String) : Word :=
  match argument.toList with
  | ['-', '-'] => ending
  | '-' :: '-' :: rest =>
    let name := String.ofList (rest.takeWhile (· != '='))
    match rest.dropWhile (· != '=') with
    | _ :: value => long name (some (String.ofList value))
    | [] => long name none
  | '-' :: _ :: _ => short
  | _ => plain

/-- Splits arguments into options with their values and operands. -/
def tokens : List String → Except UsageError (List Token)
  | [] => .ok []
  | argument :: rest =>
    match Word.of argument with
    | .plain => (tokens rest).map (.operand argument :: ·)
    | .ending => .ok (rest.map .trailing)
    | .short => .error (.unknownOption argument)
    | .long name (some value) => (tokens rest).map (.option name value :: ·)
    | .long name none =>
      match rest with
      | [] => .error (.missingValue name)
      | value :: rest =>
        if Word.of value = .plain then (tokens rest).map (.option name value :: ·)
        else .error (.missingValue name)

/-- The options among tokens, in order, each with its value. -/
def options (ts : List Token) : List (String × String) :=
  ts.filterMap fun
    | .option name value => some (name, value)
    | _ => none

/-- The operands among tokens, those behind the end of the options included. -/
def operands (ts : List Token) : List String :=
  ts.filterMap fun
    | .option .. => none
    | .operand text | .trailing text => some text

/-- Refuses options that are not among the known ones, or given twice. -/
def checkOptions (known : List String) (given : List (String × String)) :
    Except UsageError Unit := do
  match given.find? fun (name, _) => !known.contains name with
  | some (name, _) => throw (.unknownOption name)
  | none => if ¬ (given.map Prod.fst).Nodup then throw .repeatedOption

/-- A command line taken apart: the options before the command, its name, and all behind it. -/
structure Parts where
  leading : List (String × String)
  command : String
  rest : List Token
  deriving DecidableEq, Repr

/-- Takes a command line apart at its first operand. -/
def Parts.ofArguments (arguments : List String) : Except UsageError Parts := do
  let ts ← tokens arguments
  let isOption : Token → Bool
    | .option .. => true
    | _ => false
  match ts.dropWhile isOption with
  | .operand command :: rest => return ⟨options (ts.takeWhile isOption), command, rest⟩
  | _ => throw .missingCommand

end AddressCodec.CommandLine
