import AddressCodec.Proofs.Address.Text
import AddressCodec.Proofs.CommandLine.PublicKey
import AddressCodec.Proofs.CommandLine.Requests

/-!
# From one command to the other

What `decode` reports of an address is what `encode` needs to print it, and what `encode` prints is
reported by `decode` as it was given (`commands_round_trip`).
-/

namespace AddressCodec.CommandLine

variable {environment : Environment} {fileText : String → Option String} {arguments : List String}

/-- A report on an address, by its members; the last one is there exactly if there is extra data. -/
def addressJson (network : Network) (key : Bytes32) (extra : Option Element) : Json :=
  .object ([("network", .string network.name), ("integrated", .bool extra.isSome),
    ("public_key", .string (Hex.encode key.bytes))]
      ++ (extra.map fun e => ("extra_data", e.toJson)).toList)

/-- A command line prints a text exactly if its command succeeds with a report of this form. -/
lemma run_eq_ok_iff {text : String} : run environment fileText arguments = .ok text ↔
    ∃ command format, commandOf environment fileText arguments = .ok (command, format) ∧
      ∃ report, command.run = .ok report ∧ report.print format = text := by
  rw [run]
  simp only [Outcome.bind_eq_ok_iff, Outcome.mapError_eq_ok_iff, Outcome.pure_eq_ok_iff,
    Prod.exists]

/-! ## Decoding -/

/-- The text of an address starts with the letter x. -/
lemma head?_hrp_append (n : Network) (cs : List Char) :
    (n.hrp.toList ++ cs).head? = some 'x' := by
  cases n <;> rfl

/-- The text of an address begins with a letter. -/
lemma plain_of_parse {text : String} {a : Address} (parsed : Address.parse text = .ok a) :
    Word.of text = .plain := by
  obtain ⟨-, -, written⟩ := Address.parse_eq_ok_iff_format.1 parsed
  obtain ⟨_, _, symbols, _, encoded⟩ := Address.format_eq_ok_iff.1 written
  obtain ⟨-, payload, -, whole⟩ := Bech32.encode_eq_ok_iff.1 encoded
  have first := congrArg List.head? (String.ofList_inj.1 whole)
  refine Word.of_eq_plain fun dash => ?_
  rw [Bech32.lower, List.head?_map, dash, Network.lower_hrp, head?_hrp_append] at first
  exact absurd first (by decide)

/-- Decoding the text of an address prints network, key and extra data as JSON. -/
theorem run_decode {text : String} {network : Network} {key : Bytes32} {extra : Option Element}
    (parsed : Address.parse text = .ok ⟨network, key, extra⟩)
    (asks : Asks environment .json "decode" [text] [] arguments) :
    run environment fileText arguments = .ok (addressJson network key extra).text := by
  have ran : (Command.decode text).run = .ok (.decoded ⟨network, key, extra⟩) :=
    Outcome.mapError_eq_ok_iff.2 (Outcome.map_eq_ok_iff.2 ⟨_, parsed, rfl⟩)
  exact run_eq_ok_iff.2 ⟨_, _, commandOf_decode asks (plain_of_parse parsed), _, ran, rfl⟩

/-! ## Encoding -/

/-- Encoding what an address was decoded to prints the address in lowercase. -/
theorem run_encode {text keyText : String} {a : Address} (parsed : Address.parse text = .ok a)
    (shallow : ∀ e ∈ a.extraData, e.toJson.nesting ≤ Json.maxNesting)
    (spells : SpellsKey a.publicKey keyText)
    (asks : Asks environment .plain "encode" [] (encodeOptions keyText a.network a.extraData)
      arguments) :
    run environment fileText arguments = .ok (String.ofList (Bech32.lower text.toList)) := by
  obtain ⟨distinct, -, written⟩ := Address.parse_eq_ok_iff_format.1 parsed
  have plain : Word.of keyText = .plain := by
    refine Word.of_eq_plain fun dash => ?_
    exact dash_notMem_of_spellsKey spells (List.mem_of_mem_head? dash)
  have readable : ∀ e ∈ a.extraData, Element.ofJsonText e.jsonText = .ok e :=
    fun e mem => Element.ofJsonText_jsonText (distinct e mem) (shallow e mem)
  refine run_eq_ok_iff.2 ⟨_, _, commandOf_encode asks plain readable, .encoded _, ?_, rfl⟩
  refine Outcome.bind_eq_ok_iff.2 ⟨_, publicKeyOf_of_spellsKey spells, ?_⟩
  refine Outcome.bind_eq_ok_iff.2 ⟨_, Outcome.mapError_eq_ok_iff.2 written, rfl⟩

/-- What `encode` prints is read as the address that was asked for. -/
lemma parse_of_run_encode {keyText text : String} {network : Network} {extra : Option Element}
    (asked : commandOf environment fileText arguments = .ok (.encode keyText network extra, .plain))
    (printed : run environment fileText arguments = .ok text) :
    ∃ key, publicKeyOf keyText = .ok key ∧ Address.parse text = .ok ⟨network, key, extra⟩ := by
  obtain ⟨_, _, asked', report, ran, shown⟩ := run_eq_ok_iff.1 printed
  cases asked.symm.trans asked'
  obtain ⟨key, read, ran⟩ := Outcome.bind_eq_ok_iff.1 ran
  obtain ⟨written, formatted, last⟩ := Outcome.bind_eq_ok_iff.1 ran
  cases last
  have distinct : Address.DistinctKeys ⟨network, key, extra⟩ := by
    intro e mem
    obtain ⟨_, given⟩ := exists_text_of_commandOf asked e mem
    exact (Element.distinct_of_ofJsonText given).1
  have whole : written = text := shown
  refine ⟨key, read, Address.parse_of_format_eq_ok distinct ?_⟩
  exact whole ▸ Outcome.mapError_eq_ok_iff.1 formatted

/-- For every text that is read as an address, `decode` reports the address in JSON, and `encode` of
what it reports prints the text in lowercase: of the key, spelled as reported or in any other way,
the name of the network, and the extra data, if this may be read from JSON. Conversely, of what
`encode` prints `decode` reports the network, the key and the extra data that were asked for. -/
theorem commands_round_trip :
    (∀ (text : String) (a : Address), Address.parse text = .ok a →
      (∀ environment fileText arguments, Asks environment .json "decode" [text] [] arguments →
        run environment fileText arguments
          = .ok (addressJson a.network a.publicKey a.extraData).text) ∧
      SpellsKey a.publicKey (Hex.encode a.publicKey.bytes) ∧
      ((∀ e ∈ a.extraData, e.toJson.nesting ≤ Json.maxNesting) →
        ∀ environment fileText arguments keyText, SpellsKey a.publicKey keyText →
          Asks environment .plain "encode" []
            (encodeOptions keyText a.network a.extraData) arguments →
          run environment fileText arguments = .ok (String.ofList (Bech32.lower text.toList)))) ∧
    ∀ environment fileText arguments keyText network extra text,
      commandOf environment fileText arguments = .ok (.encode keyText network extra, .plain) →
      run environment fileText arguments = .ok text →
      ∃ key, publicKeyOf keyText = .ok key ∧
        (∀ e ∈ extra, Element.ofJsonText e.jsonText = .ok e) ∧
        ∀ environment' fileText' arguments', Asks environment' .json "decode" [text] [] arguments' →
          run environment' fileText' arguments' = .ok (addressJson network key extra).text := by
  refine ⟨?_, ?_⟩
  · intro text a parsed
    refine ⟨?_, spellsKey_encode a.publicKey, ?_⟩
    · intro environment fileText arguments asks
      exact run_decode parsed asks
    · intro shallow environment fileText arguments keyText spells asks
      exact run_encode parsed shallow spells asks
  · intro environment fileText arguments keyText network extra text asked printed
    obtain ⟨key, read, parsed⟩ := parse_of_run_encode asked printed
    refine ⟨key, read, ?_, ?_⟩
    · intro e mem
      obtain ⟨_, given⟩ := exists_text_of_commandOf asked e mem
      exact Element.ofJsonText_jsonText_eq_ok_iff.2 (Element.distinct_of_ofJsonText given)
    · intro environment' fileText' arguments' asks
      exact run_decode parsed asks

/-- An integrated address on the test network, its key given with a mark, in capitals and between
blanks, and the options of `encode` in another order; what is printed is decoded again. -/
theorem commands_round_trip_integrated :
    let capitals := "XET:YS4PEUZZTWL67RZHSDU0YXFZWCFMGT85UU53HYCPEEARY7N8QVYSZQQQQYZUPKD2"
    let printed := "xet:ys4peuzztwl67rzhsdu0yxfzwcfmgt85uu53hycpeeary7n8qvyszqqqqyzupkd2"
    let keyText := " 0x242A1CF0425BBFAF0C578378F219227613B42CF4E7291B9301CE7A327A670309\n"
    let extra := "\x7b\"value\":\x7b\"type\":\"bool\",\"value\":true\x7d\x7d"
    let encoding :=
      ["encode", "--network=testnet", "--extra-data", extra, "--public-key", keyText]
    let report := "\x7b\"network\":\"testnet\",\"integrated\":true,\"public_key\":" ++
      "\"242a1cf0425bbfaf0c578378f219227613b42cf4e7291b9301ce7a327a670309\"," ++
      "\"extra_data\":\x7b\"value\":\x7b\"type\":\"bool\",\"value\":true\x7d\x7d\x7d"
    run ⟨none, none⟩ (fun _ => none) ["decode", capitals, "--output-format", "json"] = .ok report ∧
    run ⟨none, none⟩ (fun _ => none) encoding = .ok printed ∧
    run ⟨none, none⟩ (fun _ => none) ["--output-format=json", "decode", printed] = .ok report := by
  intro capitals printed keyText extra encoding report
  let a : Address := .integrated ⟨[36, 42, 28, 240, 66, 91, 191, 175, 12, 87, 131, 120, 242, 25, 34,
    118, 19, 180, 44, 244, 231, 41, 27, 147, 1, 206, 122, 50, 122, 103, 3, 9], rfl⟩ .testnet
    (.value (.bool true))
  have parsed : Address.parse capitals = .ok a := by
    refine Address.parse_eq_ok_iff_format.2 ⟨?_, by decide +kernel, by decide +kernel⟩
    intro e mem
    cases mem
    trivial
  have readable : ∀ e ∈ a.extraData, Element.ofJsonText e.jsonText = .ok e := by
    intro e mem
    cases mem
    exact Element.ofJsonText_jsonText trivial (by decide)
  have spells : SpellsKey a.publicKey keyText := .around [' '] ['0', 'x']
    "242A1CF0425BBFAF0C578378F219227613B42CF4E7291B9301CE7A327A670309".toList ['\n']
    (List.forall_mem_singleton.2 rfl) (.inr rfl) (by decide +kernel)
    (List.forall_mem_singleton.2 rfl)
  have decodes : Asks ⟨none, none⟩ .json "decode" [capitals] []
      ["decode", capitals, "--output-format", "json"] :=
    ⟨none, some "json", [.operand capitals, .option "output-format" "json"], rfl,
      .operand _ (.operand _ (.separate _ _ .nil)), rfl, .refl _⟩
  have decodes' : Asks ⟨none, none⟩ .json "decode" [printed] []
      ["--output-format=json", "decode", printed] :=
    ⟨some "json", none, [.operand printed], rfl, .attached _ _ (.operand _ (.operand _ .nil)), rfl,
      .refl _⟩
  have encodes : Asks ⟨none, none⟩ .plain "encode" []
      (encodeOptions keyText a.network a.extraData) encoding :=
    ⟨none, none, [.option "network" "testnet", .option "extra-data" extra,
      .option "public-key" keyText], rfl,
      .operand _ (.attached _ _ (.separate _ _ (.separate _ _ .nil))), rfl, by decide +kernel⟩
  have asked : commandOf ⟨none, none⟩ (fun _ => none) encoding
      = .ok (.encode keyText a.network a.extraData, .plain) :=
    commandOf_encode encodes (by decide) readable
  have reported : (addressJson a.network a.publicKey a.extraData).text = report := by
    decide +kernel
  have lowered : String.ofList (Bech32.lower capitals.toList) = printed := by decide +kernel
  obtain ⟨decoded, -, encoded⟩ := commands_round_trip.1 capitals a parsed
  have shallow e (mem : e ∈ a.extraData) :=
    (Element.ofJsonText_jsonText_eq_ok_iff.1 (readable e mem)).2
  have output := lowered ▸ encoded shallow ⟨none, none⟩ (fun _ => none) _ _ spells encodes
  obtain ⟨key, read, -, again⟩ := commands_round_trip.2 _ _ _ _ _ _ _ asked output
  cases read.symm.trans (publicKeyOf_of_spellsKey spells)
  exact ⟨reported ▸ decoded _ _ _ decodes, output, reported ▸ again _ _ _ decodes'⟩

end AddressCodec.CommandLine
