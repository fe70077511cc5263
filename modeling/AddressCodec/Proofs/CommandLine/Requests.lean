import AddressCodec.CommandLine.Command
import AddressCodec.Proofs.CommandLine.Arguments
import AddressCodec.Proofs.Json.Elements
import AddressCodec.Proofs.Element.Keys

/-!
# Requests

How a command line asks for a command (`Asks`): with its operands and options, spelled and ordered
in any way, and with an output format that is given on either side of the command or left to the
environment. Main statements: `commandOf_decode` and `commandOf_encode`, the command is found from
every such line; `exists_text_of_commandOf`, extra data comes from a JSON text alone.
-/

namespace AddressCodec.CommandLine

variable {environment : Environment} {fileText : String → Option String} {format : OutputFormat}
  {arguments : List String}

/-! ## Lines that ask for a command -/

/-- The option for the output format, if it is given. -/
def formatOption (value? : Option String) : List (String × String) :=
  (value?.map fun value => ("output-format", value)).toList

/-- A command line asks for a command, with operands and options, and for an output format. Its
parts are spelled in any way, and behind the command they stand in any order; the format is given on
either side of the command, or is left to the environment. -/
def Asks (environment : Environment) (format : OutputFormat) (command : String)
    (texts : List String) (given : List (String × String)) (arguments : List String) : Prop :=
  ∃ (before behind : Option String) (rest : List Token),
    chooseFormat environment before behind = .ok format ∧
    Spelled (optionTokens (formatOption before) ++ .operand command :: rest) arguments ∧
    operands rest = texts ∧ (options rest).Perm (given ++ formatOption behind)

/-- The option made of a format value, if there is one, is found with this value. -/
lemma lookup_formatOption (value? : Option String) :
    (formatOption value?).lookup "output-format" = value? := by
  cases value? <;> rfl

/-- An option of the program whose value looks plain can be spelled in every way. -/
lemma clear_option {name value : String}
    (known : name ∈ ["public-key", "network", "extra-data", "output-format"])
    (plain : Word.of value = .plain) : (Token.option name value).Clear := by
  have names : ∀ name ∈ ["public-key", "network", "extra-data", "output-format"],
      name ≠ "" ∧ '=' ∉ name.toList := by decide
  exact ⟨(names name known).1, (names name known).2, plain⟩

/-- The name of a format starts with no dash. -/
lemma plain_of_formatOf {source value : String} (known : formatOf source value = .ok format) :
    Word.of value = .plain := by
  rw [formatOf, OutputFormat.ofName?.eq_def] at known
  split at known
  · rename_i found
    split at found
    · decide
    · decide
    · cases found
  · cases known

/-- A format option whose value is a format can be spelled in every way. -/
lemma clear_of_mapM {value? : Option String} {source : String} {format? : Option OutputFormat}
    (known : value?.mapM (formatOf source) = .ok format?) :
    ∀ o ∈ formatOption value?, (Token.option o.1 o.2).Clear := by
  cases value? with
  | none => nofun
  | some value =>
    obtain ⟨format, found, -⟩ := Outcome.map_eq_ok_iff.1 known
    exact List.forall_mem_singleton.2 (clear_option (by simp) (plain_of_formatOf found))

/-- Where a format is chosen, the options for it before and behind the command can be spelled in
every way. -/
lemma clear_of_chooseFormat {before behind : Option String}
    (chosen : chooseFormat environment before behind = .ok format) :
    (∀ o ∈ formatOption before, (Token.option o.1 o.2).Clear) ∧
      ∀ o ∈ formatOption behind, (Token.option o.1 o.2).Clear := by
  obtain ⟨_, first, chosen⟩ := Outcome.bind_eq_ok_iff.1 chosen
  obtain ⟨_, second, _⟩ := Outcome.bind_eq_ok_iff.1 chosen
  exact ⟨clear_of_mapM first, clear_of_mapM second⟩

/-- A command line that asks for a command comes apart into the format option before the command,
the command's name, and its operands and options in some order. -/
lemma exists_parts_of_asks {command : String} {texts : List String}
    {given : List (String × String)} (asks : Asks environment format command texts given arguments)
    (plain : ∀ text ∈ command :: texts, Word.of text = .plain)
    (clear : ∀ o ∈ given, (Token.option o.1 o.2).Clear) :
    ∃ before behind rest, chooseFormat environment before behind = .ok format ∧
      Parts.ofArguments arguments = .ok ⟨formatOption before, command, rest⟩ ∧
      operands rest = texts ∧ (options rest).Perm (given ++ formatOption behind) := by
  obtain ⟨before, behind, rest, chosen, spelled, texts_eq, perm⟩ := asks
  refine ⟨before, behind, rest, chosen, ofArguments_of_tokens (tokens_of_spelled spelled ?_),
    texts_eq, perm⟩
  obtain ⟨clearBefore, clearBehind⟩ := clear_of_chooseFormat chosen
  obtain ⟨plainCommand, plainTexts⟩ := List.forall_mem_cons.1 plain
  -- Each token is the format before the command, the command, or one of those behind it.
  intro t mem
  rcases List.mem_append.1 mem with mem | mem
  · obtain ⟨o, asked, rfl⟩ := List.mem_map.1 mem
    exact clearBefore o asked
  · rcases List.mem_cons.1 mem with rfl | mem
    · exact plainCommand
    · cases t with
      | option name value =>
        have here : (name, value) ∈ options rest := List.mem_filterMap.2 ⟨_, mem, rfl⟩
        rcases List.mem_append.1 (perm.mem_iff.1 here) with asked | asked
        · exact clear _ asked
        · exact clearBehind _ asked
      | operand text =>
        have here : text ∈ operands rest := List.mem_filterMap.2 ⟨_, mem, rfl⟩
        exact plainTexts text (texts_eq ▸ here)
      | trailing text => trivial

/-- Options that pass the check pass it in every order. -/
lemma checkOptions_of_perm {known : List String} {given more : List (String × String)}
    (perm : given.Perm more) (passes : checkOptions known more = .ok ()) :
    checkOptions known given = .ok () := by
  obtain ⟨all, nodup⟩ := checkOptions_eq_ok_iff.1 passes
  refine checkOptions_eq_ok_iff.2 ⟨?_, (perm.map Prod.fst).nodup_iff.2 nodup⟩
  exact fun o mem => all o (perm.mem_iff.1 mem)

/-- The format is an option of every command. -/
lemma checkOptions_formatOption (value? : Option String) :
    checkOptions ["output-format"] (formatOption value?) = .ok () := by
  cases value? <;> simp [checkOptions_eq_ok_iff, formatOption]

/-- A command line that asks for the decoding of a text, which starts with no dash, is taken for
this command. -/
lemma commandOf_decode {text : String} (asks : Asks environment format "decode" [text] [] arguments)
    (plain : Word.of text = .plain) :
    commandOf environment fileText arguments = .ok (.decode text, format) := by
  have plains : ∀ text' ∈ ["decode", text], Word.of text' = .plain := by
    rw [List.forall_mem_cons, List.forall_mem_singleton]
    exact ⟨by decide, plain⟩
  obtain ⟨before, behind, rest, chosen, parts, sole, perm⟩ := exists_parts_of_asks asks plains nofun
  rw [List.nil_append] at perm
  have passes := checkOptions_formatOption behind
  have found := Lookup.eq_of_perm perm (checkOptions_eq_ok_iff.1 passes).2
  rw [commandOf, parts]
  refine Outcome.bind_eq_ok_iff.2 ⟨_, rfl, ?_⟩
  dsimp only
  refine Outcome.bind_eq_ok_iff.2 ⟨(), checkOptions_formatOption before, ?_⟩
  refine Outcome.bind_eq_ok_iff.2 ⟨(), checkOptions_of_perm perm passes, ?_⟩
  rw [sole, found, lookup_formatOption, lookup_formatOption, chosen]
  rfl

/-! ## Asking for an address -/

/-- The options that ask for the address of a key, which a text gives, on a network and with extra
data or without. -/
def encodeOptions (keyText : String) (network : Network) (extra : Option Element) :
    List (String × String) :=
  ("public-key", keyText) :: ("network", network.name) ::
    (extra.map fun e => ("extra-data", e.jsonText)).toList

section
variable {keyText : String} {network : Network} {extra : Option Element}

/-- The name of a network starts with no dash. -/
lemma plain_name (n : Network) : Word.of n.name = .plain := by
  cases n <;> decide

/-- The JSON text of an element starts with a brace. -/
lemma head?_jsonText (e : Element) : e.jsonText.toList.head? = some '{' := by
  rw [Element.jsonText, Json.text, String.toList_ofList]
  cases e <;> rfl

/-- The JSON text of an element starts with no dash. -/
lemma plain_jsonText (e : Element) : Word.of e.jsonText = .plain := by
  refine Word.of_eq_plain ?_
  rw [head?_jsonText]
  decide

/-- The options of an encoding can be spelled in every way, if the key's text can stand by itself.
-/
lemma clear_encodeOptions (plain : Word.of keyText = .plain) :
    ∀ o ∈ encodeOptions keyText network extra, (Token.option o.1 o.2).Clear := by
  rw [encodeOptions, List.forall_mem_cons, List.forall_mem_cons]
  refine ⟨clear_option (by simp) plain, clear_option (by simp) (plain_name network), ?_⟩
  cases extra with
  | none => nofun
  | some e => exact List.forall_mem_singleton.2 (clear_option (by simp) (plain_jsonText e))

/-- The options of an encoding, and one for the format, pass the check of the command. -/
lemma checkOptions_encodeOptions (keyText : String) (network : Network) (extra : Option Element)
    (behind : Option String) :
    checkOptions ["public-key", "network", "extra-data", "output-format"]
      (encodeOptions keyText network extra ++ formatOption behind) = .ok () := by
  rw [checkOptions_eq_ok_iff]
  cases extra <;> cases behind <;> simp [encodeOptions, formatOption]

/-- A network is found by its name, wherever this is given. -/
lemma networkOf_name (source : String) (n : Network) : networkOf source n.name = .ok n := by
  cases n <;> rfl

/-- The JSON text of an element is no path, so the element that it spells is taken. -/
lemma extraOf_jsonText {e : Element} (readable : Element.ofJsonText e.jsonText = .ok e) :
    extraOf fileText e.jsonText = .ok e := by
  have path : pathOf? e.jsonText = none := by
    rw [pathOf?]
    split
    · rename_i form
      have first := head?_jsonText e
      rw [form] at first
      cases first
    · rfl
  rw [extraOf, path]
  simp only [Option.bind_some, readable]
  rfl

/-- The command `encode` takes key, network and extra data from the options that spell them. -/
lemma encodeCommand_of_lookups {given : List (String × String)}
    (key : given.lookup "public-key" = some keyText)
    (name : given.lookup "network" = some network.name)
    (json : given.lookup "extra-data" = extra.map Element.jsonText)
    (readable : ∀ e ∈ extra, Element.ofJsonText e.jsonText = .ok e) :
    encodeCommand environment fileText given [] = .ok (.encode keyText network extra) := by
  have extras : (extra.map Element.jsonText).mapM (extraOf fileText) = .ok extra := by
    cases extra with
    | none => rfl
    | some e => exact Outcome.map_eq_ok_iff.2 ⟨e, extraOf_jsonText (readable e rfl), rfl⟩
  rw [encodeCommand.eq_def, name]
  dsimp only
  refine Outcome.bind_eq_ok_iff.2 ⟨some network, ?_, ?_⟩
  · exact Outcome.map_eq_ok_iff.2 ⟨network, networkOf_name _ network, rfl⟩
  · refine Outcome.bind_eq_ok_iff.2 ⟨extra, json ▸ extras, ?_⟩
    rw [key]
    rfl

/-- A command line that asks for an encoding is taken for this command, if its extra data can be
read back. -/
lemma commandOf_encode
    (asks : Asks environment format "encode" [] (encodeOptions keyText network extra) arguments)
    (plain : Word.of keyText = .plain)
    (readable : ∀ e ∈ extra, Element.ofJsonText e.jsonText = .ok e) :
    commandOf environment fileText arguments = .ok (.encode keyText network extra, format) := by
  obtain ⟨before, behind, rest, chosen, parts, none, perm⟩ := exists_parts_of_asks asks
    (List.forall_mem_singleton.2 (by decide)) (clear_encodeOptions plain)
  have passes := checkOptions_encodeOptions keyText network extra behind
  -- No option is given twice, so each is found in whatever order they stand.
  have found := Lookup.eq_of_perm perm (checkOptions_eq_ok_iff.1 passes).2
  rw [commandOf, parts]
  refine Outcome.bind_eq_ok_iff.2 ⟨_, rfl, ?_⟩
  dsimp only
  refine Outcome.bind_eq_ok_iff.2 ⟨(), checkOptions_formatOption before, ?_⟩
  refine Outcome.bind_eq_ok_iff.2 ⟨(), checkOptions_of_perm perm passes, ?_⟩
  refine Outcome.bind_eq_ok_iff.2 ⟨.encode keyText network extra, ?_, ?_⟩
  · rw [none]
    refine encodeCommand_of_lookups ?_ ?_ ?_ readable
    · rw [found]
      rfl
    · rw [found]
      rfl
    · rw [found]
      cases extra <;> cases behind <;> rfl
  · have asked : (encodeOptions keyText network extra ++ formatOption behind).lookup "output-format"
        = behind := by
      cases extra <;> cases behind <;> rfl
    rw [lookup_formatOption, found, asked, chosen]
    rfl

/-! ## What was asked for -/

/-- The extra data of the command `encode` is what its option spells, or nothing. -/
lemma of_encodeCommand {given : List (String × String)} {texts : List String}
    (made : encodeCommand environment fileText given texts = .ok (.encode keyText network extra)) :
    (given.lookup "extra-data").mapM (extraOf fileText) = .ok extra := by
  rw [encodeCommand.eq_def] at made
  cases texts with
  | cons text texts => cases made
  | nil =>
    -- Whatever the network comes from, the rest is the same.
    cases found : given.lookup "network"
    all_goals
      rw [found] at made
      obtain ⟨_, -, made⟩ := Outcome.bind_eq_ok_iff.1 made
      obtain ⟨_, read, made⟩ := Outcome.bind_eq_ok_iff.1 made
      split at made
      · cases made
        exact read
      · cases made

/-- A command line that is taken for an encoding has options from which the command `encode` was
made. -/
lemma exists_encodeCommand {format : OutputFormat}
    (asked : commandOf environment fileText arguments
      = .ok (.encode keyText network extra, format)) :
    ∃ given texts,
      encodeCommand environment fileText given texts = .ok (.encode keyText network extra) := by
  -- The format is chosen behind the command and does not change it.
  have behind {command : Command} {chosen : Except UsageError OutputFormat}
      (asked : (do
        let format ← chosen
        return (command, format)) = Except.ok (Command.encode keyText network extra, format)) :
      command = .encode keyText network extra := by
    obtain ⟨_, -, last⟩ := Outcome.bind_eq_ok_iff.1 asked
    cases last
    rfl
  rw [commandOf] at asked
  obtain ⟨parts, -, asked⟩ := Outcome.bind_eq_ok_iff.1 asked
  obtain ⟨_, -, asked⟩ := Outcome.bind_eq_ok_iff.1 asked
  refine ⟨options parts.rest, operands parts.rest, ?_⟩
  dsimp only at asked
  split at asked
  · obtain ⟨_, -, asked⟩ := Outcome.bind_eq_ok_iff.1 asked
    obtain ⟨_, made, asked⟩ := Outcome.bind_eq_ok_iff.1 asked
    obtain ⟨_, -, same⟩ := Outcome.map_eq_ok_iff.1 made
    cases same.trans (behind asked)
  · obtain ⟨_, -, asked⟩ := Outcome.bind_eq_ok_iff.1 asked
    obtain ⟨_, made, asked⟩ := Outcome.bind_eq_ok_iff.1 asked
    obtain ⟨_, -, same⟩ := Outcome.map_eq_ok_iff.1 made
    cases same.trans (behind asked)
  · obtain ⟨_, -, asked⟩ := Outcome.bind_eq_ok_iff.1 asked
    obtain ⟨_, made, asked⟩ := Outcome.bind_eq_ok_iff.1 asked
    exact behind asked ▸ made
  · cases asked

/-- Extra data that is taken from an option has been read from some JSON text. -/
lemma exists_text_of_extraOf {value : String} {e : Element}
    (read : extraOf fileText value = .ok e) : ∃ text, Element.ofJsonText text = .ok e := by
  rw [extraOf] at read
  split at read
  · rename_i found
    obtain ⟨text, -, parsed⟩ := Option.bind_eq_some_iff.1 found
    cases read
    refine ⟨text, ?_⟩
    cases parsed' : Element.ofJsonText text with
    | error failure =>
      rw [parsed'] at parsed
      cases parsed
    | ok e =>
      rw [parsed'] at parsed
      cases parsed
      rfl
  · cases read

/-- What is given as extra data was read from some JSON text. -/
lemma exists_text_of_commandOf {format : OutputFormat}
    (asked : commandOf environment fileText arguments
      = .ok (.encode keyText network extra, format)) :
    ∀ e ∈ extra, ∃ text, Element.ofJsonText text = .ok e := by
  obtain ⟨given, texts, made⟩ := exists_encodeCommand asked
  have read := of_encodeCommand made
  cases found : given.lookup "extra-data" with
  | none =>
    rw [found] at read
    cases read
    nofun
  | some value =>
    rw [found] at read
    obtain ⟨e, one, rfl⟩ := Outcome.map_eq_ok_iff.1 read
    intro other same
    cases same
    exact exists_text_of_extraOf one

end

end AddressCodec.CommandLine
