import AddressCodec.Proofs.CommandLine.RoundTrip
import AddressCodec.Proofs.Json.Injective

/-!
# What a report shows

No line of a report on an address breaks (`noBreak_of_mem_lines`), so the lines of its plain form
are those that were put together (`outputLines_print`), and no extra data adds one. From either form
the address is known: from the plain one by its lines, from the JSON one by its members. Main
statement: `decoded_reports_cannot_be_forged`.
-/

namespace AddressCodec.CommandLine

/-- The lines of an output. -/
def outputLines (output : String) : List String :=
  (output.toList.splitOn '\n').map String.ofList

/-- What a report says of an address apart from its extra data. -/
def heading (network : Network) (integrated : Bool) (key : Bytes32) : List String :=
  ["network: " ++ network.name,
    "type: " ++ (if integrated then "integrated" else "normal"),
    "public key: " ++ Hex.encode key.bytes]

/-- The line about extra data. -/
def extraLine (e : Element) : String :=
  "extra data: " ++ e.jsonText

variable {a b : Address}

/-- A decoded address is reported as a heading of three lines, and one more for extra data. -/
lemma lines_decoded (a : Address) : (Report.decoded a).lines
    = heading a.network a.isIntegrated a.publicKey ++ (a.extraData.map extraLine).toList := rfl

/-! ## Lines -/

/-- A text that stays on its line. -/
def NoBreak (line : String) : Prop :=
  '\n' ∉ line.toList

instance (line : String) : Decidable (NoBreak line) :=
  inferInstanceAs (Decidable ('\n' ∉ line.toList))

/-- Two texts without line breaks make one without. -/
lemma NoBreak.append {s t : String} (first : NoBreak s) (second : NoBreak t) :
    NoBreak (s ++ t) := by
  rw [NoBreak, String.toList_append, List.mem_append, not_or]
  exact ⟨first, second⟩

/-- A text without control characters has no line break. -/
lemma noBreak_of_le {cs : List Char} (visible : ∀ c ∈ cs, 32 ≤ c.toNat) :
    NoBreak (String.ofList cs) := by
  rw [NoBreak, String.toList_ofList]
  intro mem
  exact absurd (visible _ mem) (by decide)

/-- No JSON text has a line break, since strings escape theirs. -/
lemma noBreak_text (j : Json) : NoBreak j.text :=
  noBreak_of_le j.le_of_mem_chars

/-- Hexadecimal text has no line break. -/
lemma noBreak_encode (bytes : List UInt8) : NoBreak (Hex.encode bytes) := by
  refine noBreak_of_le fun c mem => ?_
  have range := Hex.toNat_of_lower (Hex.lower_chars bytes) c mem
  omega

/-- No line of a decoded address has a break in it. -/
lemma noBreak_of_mem_lines : ∀ line ∈ (Report.decoded a).lines, NoBreak line := by
  rw [lines_decoded, List.forall_mem_append]
  constructor
  · have names : NoBreak a.network.name := by
      cases a.network <;> decide
    have types (integrated : Bool) : NoBreak (if integrated then "integrated" else "normal") := by
      cases integrated <;> decide
    simp only [heading, List.forall_mem_cons]
    exact ⟨.append (by decide) names, .append (by decide) (types _),
      .append (by decide) (noBreak_encode _), nofun⟩
  · intro line mem
    obtain ⟨e, -, rfl⟩ := Option.map_eq_some_iff.1 (Option.mem_toList.1 mem)
    exact .append (by decide) (noBreak_text e.toJson)

/-- Lines without breaks in them are found again in the text they are joined to. -/
lemma outputLines_intercalate {lines : List String} (some : lines ≠ [])
    (each : ∀ line ∈ lines, NoBreak line) : outputLines ("\n".intercalate lines) = lines := by
  have whole : ("\n".intercalate lines).toList.splitOn '\n' = lines.map String.toList := by
    rw [String.toList_intercalate]
    exact List.splitOn_intercalate '\n' (List.forall_mem_map.2 each) (mt List.map_eq_nil_iff.1 some)
  rw [outputLines, whole, List.map_map]
  exact List.map_id'' (fun _ => String.ofList_toList) lines

/-- The plain report of an address, taken apart at line breaks, is the heading and the line for
extra data. -/
theorem outputLines_print (a : Address) : outputLines ((Report.decoded a).print .plain)
    = heading a.network a.isIntegrated a.publicKey ++ (a.extraData.map extraLine).toList :=
  outputLines_intercalate (List.cons_ne_nil _ _) noBreak_of_mem_lines

/-- In JSON, every report is one line. -/
theorem outputLines_print_json (r : Report) : outputLines (r.print .json) = [r.print .json] := by
  have only := outputLines_intercalate (List.cons_ne_nil _ [])
    (List.forall_mem_singleton.2 (noBreak_text r.toJson))
  rwa [String.intercalate_singleton] at only

/-! ## The address of a report -/

/-- Networks with one name are one network. -/
lemma name_inj {network network' : Network} (same : network.name = network'.name) :
    network = network' := by
  cases network <;> cases network' <;> first | rfl | exact absurd same (by decide)

/-- Optional parts that are shown alike by an injective form are equal. -/
lemma eq_of_toList_map_eq {α β : Type} {f : α → β} (unique : Function.Injective f)
    {x y : Option α} (same : (x.map f).toList = (y.map f).toList) : x = y :=
  Option.map_injective unique (List.perm_option_toList.1 (.of_eq same))

/-- An address is determined by its network's name, its key's digits and its extra data. -/
lemma eq_of_members (network : a.network.name = b.network.name)
    (key : Hex.encode a.publicKey.bytes = Hex.encode b.publicKey.bytes)
    (extra : a.extraData = b.extraData) : a = b := by
  obtain ⟨_, _, _⟩ := a
  obtain ⟨_, _, _⟩ := b
  cases name_inj network
  cases Bytes32.ext (Hex.encode_injective key)
  cases extra
  rfl

/-- Addresses with the same plain report are equal. -/
lemma eq_of_print_plain_eq
    (same : (Report.decoded a).print .plain = (Report.decoded b).print .plain) : a = b := by
  have lines := congrArg outputLines same
  rw [outputLines_print, outputLines_print] at lines
  obtain ⟨names, extras⟩ := List.append_inj lines rfl
  simp only [heading, List.cons.injEq, String.append_right_inj, and_true] at names
  have unique : Function.Injective extraLine := fun _ _ same =>
    Element.jsonText_injective ((String.append_right_inj _).1 same)
  exact eq_of_members names.1 names.2.2 (eq_of_toList_map_eq unique extras)

/-- Addresses with the same JSON report are equal. -/
lemma eq_of_print_json_eq
    (same : (Report.decoded a).print .json = (Report.decoded b).print .json) : a = b := by
  have members := Json.text_injective same
  simp only [Report.toJson, Json.object.injEq] at members
  obtain ⟨names, extras⟩ := List.append_inj members rfl
  simp only [Network.toJson, List.cons.injEq, Prod.mk.injEq, Json.string.injEq, true_and,
    and_true] at names
  have unique : Function.Injective fun e : Element => ("extra_data", e.toJson) := fun _ _ same =>
    Element.toJson_injective (Prod.mk.inj same).2
  exact eq_of_members names.1 names.2.2 (eq_of_toList_map_eq unique extras)

/-- In its plain form a report has several lines. -/
lemma print_plain_ne_print_json :
    (Report.decoded a).print .plain ≠ (Report.decoded b).print .json := by
  intro same
  have lines := congrArg outputLines same
  rw [outputLines_print, outputLines_print_json] at lines
  cases (List.cons.inj lines).2

/-- Two reports are the same text exactly if format and address are the same. -/
lemma print_decoded_eq_iff {format format' : OutputFormat} :
    (Report.decoded a).print format = (Report.decoded b).print format' ↔
      format = format' ∧ a = b := by
  constructor
  · intro same
    cases format <;> cases format'
    case plain.plain => exact ⟨rfl, eq_of_print_plain_eq same⟩
    case json.json => exact ⟨rfl, eq_of_print_json_eq same⟩
    case plain.json => exact absurd same print_plain_ne_print_json
    case json.plain => exact absurd same.symm print_plain_ne_print_json
  · rintro ⟨rfl, rfl⟩
    rfl

/-- Decoding yields a report exactly if the text is an address, and reports this address. -/
lemma run_decode_eq_ok_iff {text : String} {r : Report} :
    (Command.decode text).run = .ok r ↔ ∃ a, Address.parse text = .ok a ∧ .decoded a = r :=
  Outcome.mapError_eq_ok_iff.trans Outcome.map_eq_ok_iff

/-- What a command line that asks for a decoding prints is the report of the address that its text
spells. -/
lemma run_of_decode {environment : Environment} {fileText : String → Option String}
    {arguments : List String} {text : String} {format : OutputFormat}
    (asked : commandOf environment fileText arguments = .ok (.decode text, format))
    {output : String} : run environment fileText arguments = .ok output ↔
      ∃ a, Address.parse text = .ok a ∧ (Report.decoded a).print format = output := by
  rw [run_eq_ok_iff]
  constructor
  · rintro ⟨_, _, asked', _, ran, printed⟩
    cases asked.symm.trans asked'
    obtain ⟨a, parsed, rfl⟩ := run_decode_eq_ok_iff.1 ran
    exact ⟨a, parsed, printed⟩
  · rintro ⟨a, parsed, printed⟩
    exact ⟨_, _, asked, _, run_decode_eq_ok_iff.2 ⟨a, parsed, rfl⟩, printed⟩

/-- What `decode` prints is the report on the address that its text is read as. In its plain form
this has three lines that show the network, the kind and the key and nothing of the extra data, and
a fourth exactly if there is extra data, which shows all of it. The output in either form is that of
one address only, whatever texts are found in its extra data. -/
theorem decoded_reports_cannot_be_forged :
    (∀ environment fileText arguments text format output,
      commandOf environment fileText arguments = .ok (.decode text, format) →
      (run environment fileText arguments = .ok output ↔
        ∃ a, Address.parse text = .ok a ∧ (Report.decoded a).print format = output)) ∧
    (∀ a : Address, outputLines ((Report.decoded a).print .plain)
        = heading a.network a.isIntegrated a.publicKey ++ (a.extraData.map extraLine).toList ∧
      (outputLines ((Report.decoded a).print .plain)).length = if a.isIntegrated then 4 else 3) ∧
    ∀ (format format' : OutputFormat) (a b : Address),
      (Report.decoded a).print format = (Report.decoded b).print format' ↔
        format = format' ∧ a = b := by
  refine ⟨fun _ _ _ _ _ _ asked => run_of_decode asked, ?_, fun _ _ _ _ => print_decoded_eq_iff⟩
  intro a
  refine ⟨outputLines_print a, ?_⟩
  rw [outputLines_print, Address.isIntegrated]
  cases a.extraData <;> rfl

/-- A key that imitates the line of a network, with a quote behind it, and line ends as a value. -/
theorem decoded_reports_cannot_be_forged_by_imitation :
    let text := "xet:ys4peuzztwl67rzhsdu0yxfzwcfmgt85uu53hycpeeary7n8qvyszqspqygs5mn9w3mk7unt8g" ++
      "sx6ctfdehx2aqqqypzyrg2ffduf"
    let lines := ["network: testnet", "type: integrated",
      "public key: 242a1cf0425bbfaf0c578378f219227613b42cf4e7291b9301ce7a327a670309",
      "extra data: \x7b\"fields\":[\x7b\"key\":\x7b\"type\":\"string\"," ++
        "\"value\":\"\\nnetwork: mainnet\"\x7d,\"value\":" ++
        "\x7b\"value\":\x7b\"type\":\"string\",\"value\":\"\\\"\\r\"\x7d\x7d\x7d]\x7d"]
    run ⟨none, none⟩ (fun _ => none) ["decode", text] = .ok ("\n".intercalate lines) ∧
    outputLines ("\n".intercalate lines) = lines := by
  intro text lines
  let a : Address := .integrated ⟨[36, 42, 28, 240, 66, 91, 191, 175, 12, 87, 131, 120, 242, 25, 34,
    118, 19, 180, 44, 244, 231, 41, 27, 147, 1, 206, 122, 50, 122, 103, 3, 9], rfl⟩ .testnet
    (.fields [(.string "\nnetwork: mainnet", .value (.string "\"\r"))])
  have parsed : Address.parse text = .ok a := by
    refine Address.parse_eq_ok_iff_format.2 ⟨?_, by decide +kernel, by decide +kernel⟩
    intro e mem
    cases mem
    exact ⟨by decide, trivial, trivial⟩
  have asks : Asks ⟨none, none⟩ .plain "decode" [text] [] ["decode", text] :=
    ⟨none, none, [.operand text], rfl, .operand _ (.operand _ .nil), rfl, .refl _⟩
  have asked : commandOf ⟨none, none⟩ (fun _ => none) ["decode", text]
      = .ok (.decode text, .plain) := commandOf_decode asks (plain_of_parse parsed)
  have printed : (Report.decoded a).print .plain = "\n".intercalate lines := by decide +kernel
  obtain ⟨runs, shows, -⟩ := decoded_reports_cannot_be_forged
  refine ⟨(runs _ _ _ _ _ _ asked).2 ⟨a, parsed, printed⟩, ?_⟩
  rw [← printed, (shows a).1]
  decide +kernel

end AddressCodec.CommandLine
