import AddressCodec.Element.Json
import AddressCodec.Proofs.Element.Keys
import AddressCodec.Proofs.Json.Values
import AddressCodec.Proofs.Json.Yields
import Mathlib

/-!
# Elements from their JSON text

The parser for elements of a depth reads every element without repeated keys that nests no deeper
(`Element.parser_answers`), and yields no others (`Element.distinct_of_yields`). So an element is
read back from its text exactly if it is one of them, and whatever was read from any text is read
back from the text it is then given (`Element.printed_elements_are_read_back`).
-/

namespace AddressCodec

namespace Json

/-- The nesting of items is bounded where that of each item is. -/
lemma itemNesting_le_iff {items : List Json} {n : Nat} :
    itemNesting items ≤ n ↔ ∀ item ∈ items, item.nesting ≤ n := by
  induction items with
  | nil => simp [itemNesting]
  | cons item items ih => rw [itemNesting, Nat.max_le, ih, List.forall_mem_cons]

end Json

namespace Element

open Json (memberText enclosed memberChars_eq Opened)
open Json.Parser

variable {Next : List Char → Prop}

/-- Every kind is found by its name. -/
lemma Kind.ofName?_name (k : Kind) : Kind.ofName? k.name = some k := by
  cases k <;> decide

/-! ## The members of a tree -/

/-- An entry of a map, in JSON. -/
def entryJson (entry : Value × Element) : Json :=
  .object [("key", entry.1.toJson), ("value", entry.2.toJson)]

/-- The items of an array are written one by one. -/
lemma itemsJson_eq_map (items : List Element) : itemsJson items = items.map toJson := by
  induction items with
  | nil => rfl
  | cons e items ih => rw [itemsJson, ih, List.map_cons]

/-- The entries of a map are written one by one. -/
lemma entriesJson_eq_map (entries : List (Value × Element)) :
    entriesJson entries = entries.map entryJson := by
  induction entries with
  | nil => rfl
  | cons entry entries ih =>
    rw [entriesJson, ih]
    rfl

/-- No key is found repeated exactly if no two are equal and none is known before. -/
lemma firstRepeated?_eq_none_iff {known keys : List Value} :
    firstRepeated? known keys = none ↔ keys.Nodup ∧ ∀ key ∈ keys, key ∉ known := by
  induction keys generalizing known with
  | nil => simp [firstRepeated?]
  | cons key keys ih =>
    rw [firstRepeated?, List.nodup_cons, List.forall_mem_cons]
    by_cases repeated : key ∈ known
    · simp [repeated]
    · rw [if_neg (by simpa using repeated), ih]
      -- The keys behind the first must avoid it: on the left as a known one, on the right as one
      -- of the list itself.
      have avoid : (∀ other ∈ keys, other ∉ key :: known) ↔
          key ∉ keys ∧ ∀ other ∈ keys, other ∉ known := by
        simp only [List.mem_cons, not_or]
        exact ⟨fun h => ⟨fun mem => (h key mem).1 rfl, fun other mem => (h other mem).2⟩,
          fun h other mem => ⟨fun same => h.1 (same ▸ mem), h.2 other mem⟩⟩
      rw [avoid]
      exact ⟨fun ⟨nodup, new, rest⟩ => ⟨⟨new, nodup⟩, repeated, rest⟩,
        fun ⟨⟨new, nodup⟩, _, rest⟩ => ⟨nodup, new, rest⟩⟩

/-! ## Nesting -/

/-- A scalar's text nests two objects: the node and the value. -/
lemma nesting_value (v : Value) : (value v).toJson.nesting = 2 := by
  rw [toJson, Json.nesting, Json.memberNesting, Json.memberNesting, v.nesting_toJson]
  rfl

/-- An array nests two levels deeper than the deepest of its items. -/
lemma nesting_array_le_iff {items : List Element} {depth : Nat} :
    (array items).toJson.nesting ≤ depth + 2 ↔ ∀ e ∈ items, e.toJson.nesting ≤ depth := by
  have each : (∀ e ∈ items, e.toJson.nesting ≤ depth) ↔
      ∀ j ∈ items.map toJson, j.nesting ≤ depth := by
    rw [List.forall_mem_map]
  rw [each, ← Json.itemNesting_le_iff, ← itemsJson_eq_map]
  simp only [toJson, Json.nesting, Json.memberNesting]
  omega

/-- The text of every element nests to two levels at least. -/
lemma two_le_nesting (e : Element) : 2 ≤ e.toJson.nesting := by
  cases e with
  | value v => exact Nat.le_of_eq (nesting_value v).symm
  | array items =>
    simp only [toJson, Json.nesting, Json.memberNesting]
    omega
  | fields entries =>
    simp only [toJson, Json.nesting, Json.memberNesting]
    omega

/-- An entry nests one level deeper than its element. -/
lemma nesting_entryJson (entry : Value × Element) :
    (entryJson entry).nesting = entry.2.toJson.nesting + 1 := by
  have more := two_le_nesting entry.2
  simp only [entryJson, Json.nesting, Json.memberNesting, entry.1.nesting_toJson]
  omega

/-- A map nests three levels deeper than the deepest of its elements. -/
lemma nesting_fields_le_iff {entries : List (Value × Element)} {depth : Nat} :
    (fields entries).toJson.nesting ≤ depth + 2 ↔
      ∀ entry ∈ entries, entry.2.toJson.nesting + 1 ≤ depth := by
  have each : (∀ entry ∈ entries, entry.2.toJson.nesting + 1 ≤ depth) ↔
      ∀ j ∈ entries.map entryJson, j.nesting ≤ depth := by
    rw [List.forall_mem_map]
    exact forall₂_congr fun entry _ => by rw [nesting_entryJson]
  rw [each, ← Json.itemNesting_le_iff, ← entriesJson_eq_map]
  simp only [toJson, Json.nesting, Json.memberNesting]
  omega

/-! ## The parser by the kinds of nodes -/

/-- Reads a list of what an inner parser reads. -/
def listWithin {α : Type} (item : Nat → Json.Parser WireError α) :
    (depth : Nat) → Json.Parser WireError (List α)
  | 0 => fail
  | inner + 1 => list (item inner)

/-- Reads an entry of a map. -/
def entry : (depth : Nat) → Json.Parser WireError (Value × Element)
  | 0 => fail
  | inner + 1 => pair "key" "value" (Value.parser inner) (parser inner)

/-- Reads what a node of a kind holds, to the end of the node. -/
def held (depth : Nat) : Kind → Json.Parser WireError Element
  | .value => do
    let v ← Value.parser depth
    require '}'
    return value v
  | .array => do
    let items ← listWithin parser depth
    require '}'
    return array items
  | .fields => do
    let entries ← listWithin entry depth
    require '}'
    mapOf entries

/-- The parser reads the name of a kind, and then what a node of this kind holds. -/
lemma parser_succ (depth : Nat) : parser (depth + 1) = (do
    require '{'
    match Kind.ofName? (← Json.Parser.string) with
    | none => fail
    | some k => do
      require ':'
      held depth k) := by
  rw [parser]
  refine bind_congr fun _ => bind_congr fun name => ?_
  cases Kind.ofName? name with
  | none => rfl
  | some k => rcases depth with _ | _ | depth <;> cases k <;> rfl

/-! ## Reading what was printed -/

/-- The text of an element begins with a brace. -/
lemma opened_toJson (e : Element) : Opened e.toJson.chars := by
  cases e <;> exact ⟨_, .inl rfl⟩

/-- An entry is read, or fails, as its element does. -/
lemma answers_entry {depth : Nat} {keyed : Value × Element}
    (shallow : keyed.2.toJson.nesting + 1 ≤ depth)
    {answer : Except (Json.Failure WireError) Element}
    (answers : Answers Always (parser (depth - 1)) keyed.2.toJson.chars answer) :
    Answers Next (entry depth) (entryJson keyed).chars (answer.map fun e => (keyed.1, e)) := by
  have text : (entryJson keyed).chars = '{' :: enclosed '}'
      [memberText "key" keyed.1.toJson.chars, memberText "value" keyed.2.toJson.chars] := by
    rw [entryJson, Json.chars, memberChars_eq]
    rfl
  -- An element nests two lists or objects at least, so the key has room for its one.
  obtain ⟨inner, rfl⟩ : ∃ inner, depth = inner + 2 :=
    ⟨depth - 2, by have := two_le_nesting keyed.2; omega⟩
  rw [entry, text, pair, answers_token_bind (by decide)]
  exact answers_namedPair (by decide) (Value.parser_answers inner keyed.1) answers.of_always

/-- The text of an array's items is that of each of them, enclosed in brackets. -/
lemma itemsJson_chars (items : List Element) : (Json.list (itemsJson items)).chars
    = '[' :: enclosed ']' (items.map (Json.chars ∘ toJson)) := by
  rw [Json.chars, Json.itemChars_eq, itemsJson_eq_map, List.map_map]

/-- The text of a map's entries is that of each of them, enclosed in brackets. -/
lemma entriesJson_chars (entries : List (Value × Element)) :
    (Json.list (entriesJson entries)).chars
      = '[' :: enclosed ']' (entries.map (Json.chars ∘ entryJson)) := by
  rw [Json.chars, Json.itemChars_eq, entriesJson_eq_map, List.map_map]

/-- A list of items is read where each item is. -/
lemma answers_items {depth : Nat} {items : List Element}
    (read : ∀ e ∈ items, Answers Always (parser depth) e.toJson.chars (.ok e)) :
    Answers Next (list (parser depth)) (Json.list (itemsJson items)).chars (.ok items) := by
  rw [itemsJson_chars]
  exact answers_list _ (fun e _ => opened_toJson e) fun e mem => (read e mem).of_always

/-- A list of entries is read where the element of each entry is, if there is depth enough for the
entries. -/
lemma answers_entries {depth : Nat} {entries : List (Value × Element)}
    (shallow : ∀ keyed ∈ entries, keyed.2.toJson.nesting + 1 ≤ depth)
    (read : ∀ keyed ∈ entries,
      Answers Always (parser (depth - 1)) keyed.2.toJson.chars (.ok keyed.2)) :
    Answers Next (list (entry depth)) (Json.list (entriesJson entries)).chars (.ok entries) := by
  rw [entriesJson_chars]
  refine answers_list _ (fun keyed _ => ⟨_, .inl rfl⟩) ?_
  intro keyed mem
  exact answers_entry (shallow keyed mem) (read keyed mem)

/-- A map without repeated keys is closed. -/
lemma answers_mapOf {entries : List (Value × Element)} (nodup : (entries.map Prod.fst).Nodup) :
    Answers Next (mapOf entries) [] (.ok (fields entries)) := by
  have none : firstRepeated? [] (entries.map Prod.fst) = none :=
    firstRepeated?_eq_none_iff.2 ⟨nodup, fun _ _ => List.not_mem_nil⟩
  rw [mapOf, none]
  exact answers_pure _

/-- A node is read, or fails, as what it holds does. -/
lemma answers_node {depth : Nat} {e : Element} {content : Json}
    (form : e.toJson = .object [(e.kind.name, content)])
    {answer : Except (Json.Failure WireError) Element}
    (answers : Answers Next (held depth e.kind) (content.chars ++ ['}']) answer) :
    Answers Next (parser (depth + 1)) e.toJson.chars answer := by
  have text : e.toJson.chars
      = '{' :: (Json.quoted e.kind.name ++ ':' :: (content.chars ++ ['}'])) := by
    rw [form, Json.chars, memberChars_eq, List.map_singleton, Json.enclosed_singleton, memberText,
      List.append_assoc]
    rfl
  rw [parser_succ, text, answers_require_bind (by decide)]
  refine (answers_string _).bind ?_
  simp only [Kind.ofName?_name]
  rw [answers_require_bind (by decide)]
  exact answers

/-- An element without repeated keys is read from its text, in any depth that it does not exceed. -/
theorem parser_answers {depth : Nat} {e : Element} (distinct : e.DistinctKeys)
    (shallow : e.toJson.nesting ≤ depth) :
    Answers Always (parser depth) e.toJson.chars (.ok e) := by
  induction depth using Nat.strongRecOn generalizing e with
  | ind depth ih =>
    -- Every element nests two levels, so the depth is at least that.
    obtain ⟨depth, rfl⟩ : ∃ d, depth = d + 2 :=
      ⟨depth - 2, by have := two_le_nesting e; omega⟩
    cases e with
    | value v =>
      refine answers_node rfl ?_
      refine (Value.parser_answers depth v).bind ?_
      rw [answers_require_bind (by decide)]
      exact answers_pure _
    | array items =>
      rw [DistinctKeys, itemsDistinct_iff] at distinct
      rw [nesting_array_le_iff] at shallow
      have read e (mem : e ∈ items) := ih depth (by omega) (distinct e mem) (shallow e mem)
      refine answers_node rfl ((answers_items read).bind ?_)
      rw [answers_require_bind (by decide)]
      exact answers_pure _
    | fields entries =>
      rw [DistinctKeys, entriesDistinct_iff] at distinct
      rw [nesting_fields_le_iff] at shallow
      have read keyed (mem : keyed ∈ entries) :=
        ih (depth - 1) (by omega) (distinct.2 keyed mem) (Nat.le_sub_of_add_le (shallow keyed mem))
      refine answers_node rfl ((answers_entries shallow read).bind ?_)
      rw [answers_require_bind (by decide)]
      exact answers_mapOf distinct.1

/-- An element without repeated keys is read back from its text, if it does not nest too deep. -/
lemma ofJsonText_jsonText {e : Element} (distinct : e.DistinctKeys)
    (shallow : e.toJson.nesting ≤ Json.maxNesting) : ofJsonText e.jsonText = .ok e := by
  have text : e.jsonText.toList = e.toJson.chars := String.toList_ofList
  refine whole_of_answers ?_
  rw [text]
  exact (parser_answers distinct shallow).of_always

/-! ## What can be read -/

/-- A list takes one level of the depth, and its items are results of the item's parser. -/
lemma of_yields_listWithin {α : Type} {item : Nat → Json.Parser WireError α} {depth : Nat}
    {values : List α} (yields : Yields (listWithin item depth) values) :
    ∃ inner, depth = inner + 1 ∧ ∀ a ∈ values, Yields (item inner) a := by
  cases depth with
  | zero => exact absurd yields not_yields_fail
  | succ inner => exact ⟨inner, rfl, yields.list⟩

/-- An entry takes one level of the depth, and its element is a result of the element's parser. -/
lemma of_yields_entry {depth : Nat} {keyed : Value × Element}
    (yields : Yields (entry depth) keyed) :
    ∃ inner, depth = inner + 1 ∧ Yields (parser inner) keyed.2 := by
  cases depth with
  | zero => exact absurd yields not_yields_fail
  | succ inner => exact ⟨inner, rfl, yields.pair.2⟩

/-- A value takes a level of the depth. -/
lemma of_yields_value {depth : Nat} {v : Value}
    (yields : Yields (Value.parser depth : Json.Parser WireError Value) v) : 0 < depth := by
  cases depth with
  | zero => exact absurd yields not_yields_fail
  | succ depth => exact Nat.succ_pos depth

/-- A map that was closed has no key twice, and is made of the entries that were read. -/
lemma of_yields_mapOf {entries : List (Value × Element)} {e : Element}
    (yields : Yields (mapOf entries) e) : (entries.map Prod.fst).Nodup ∧ e = fields entries := by
  rw [mapOf] at yields
  cases repeated : firstRepeated? [] (entries.map Prod.fst) with
  | some key =>
    rw [repeated] at yields
    exact absurd yields not_yields_reject
  | none =>
    rw [repeated] at yields
    exact ⟨(firstRepeated?_eq_none_iff.1 repeated).1, yields.eq_of_pure⟩

/-- An element takes a level of the depth, and is what a node of some kind holds. -/
lemma exists_held_of_yields {depth : Nat} {e : Element} (yields : Yields (parser depth) e) :
    ∃ inner k, depth = inner + 1 ∧ Yields (held inner k) e := by
  cases depth with
  | zero => exact absurd yields not_yields_fail
  | succ inner =>
    rw [parser_succ] at yields
    obtain ⟨_, -, yields⟩ := yields.of_bind
    obtain ⟨name, -, yields⟩ := yields.of_bind
    cases found : Kind.ofName? name with
    | none =>
      rw [found] at yields
      exact absurd yields not_yields_fail
    | some k =>
      rw [found] at yields
      obtain ⟨_, -, yields⟩ := yields.of_bind
      exact ⟨inner, k, rfl, yields⟩

/-- Every element that the parser yields has no repeated keys and nests no deeper than the depth. -/
theorem distinct_of_yields {depth : Nat} {e : Element} (yields : Yields (parser depth) e) :
    e.DistinctKeys ∧ e.toJson.nesting ≤ depth := by
  -- A collection takes two levels of the depth or more, so the induction is a strong one.
  induction depth using Nat.strongRecOn generalizing e with
  | ind depth ih =>
    obtain ⟨depth, k, rfl, yields⟩ := exists_held_of_yields yields
    cases k with
    | value =>
      obtain ⟨v, one, yields⟩ := yields.of_bind
      obtain ⟨_, -, last⟩ := yields.of_bind
      rw [last.eq_of_pure, nesting_value]
      exact ⟨trivial, Nat.succ_le_succ (of_yields_value one)⟩
    | array =>
      obtain ⟨items, all, yields⟩ := yields.of_bind
      obtain ⟨_, -, last⟩ := yields.of_bind
      obtain ⟨inner, rfl, each⟩ := of_yields_listWithin all
      have known e (mem : e ∈ items) := ih inner (by omega) (each e mem)
      rw [last.eq_of_pure, DistinctKeys, itemsDistinct_iff, nesting_array_le_iff]
      exact ⟨fun e mem => (known e mem).1, fun e mem => (known e mem).2⟩
    | fields =>
      obtain ⟨entries, all, yields⟩ := yields.of_bind
      obtain ⟨_, -, last⟩ := yields.of_bind
      obtain ⟨nodup, rfl⟩ := of_yields_mapOf last
      obtain ⟨inner, rfl, each⟩ := of_yields_listWithin all
      have known keyed (mem : keyed ∈ entries) :
          keyed.2.DistinctKeys ∧ keyed.2.toJson.nesting + 1 ≤ inner := by
        obtain ⟨within, rfl, one⟩ := of_yields_entry (each keyed mem)
        obtain ⟨distinct, shallow⟩ := ih within (by omega) one
        exact ⟨distinct, Nat.succ_le_succ shallow⟩
      rw [DistinctKeys, entriesDistinct_iff, nesting_fields_le_iff]
      exact ⟨⟨nodup, fun keyed mem => (known keyed mem).1⟩, fun keyed mem => (known keyed mem).2⟩

/-- Every element that was read from a text has no repeated keys and does not nest too deep. -/
lemma distinct_of_ofJsonText {text : String} {e : Element} (read : ofJsonText text = .ok e) :
    e.DistinctKeys ∧ e.toJson.nesting ≤ Json.maxNesting :=
  distinct_of_yields (yields_of_whole read)

/-- An element is read back from its text exactly if it has no repeated keys and does not nest too
deep. -/
lemma ofJsonText_jsonText_eq_ok_iff {e : Element} : ofJsonText e.jsonText = .ok e ↔
    e.DistinctKeys ∧ e.toJson.nesting ≤ Json.maxNesting := by
  refine ⟨distinct_of_ofJsonText, ?_⟩
  intro ⟨distinct, shallow⟩
  exact ofJsonText_jsonText distinct shallow

/-- An element is read back from its text if and only if no map of it repeats a key and it nests no
deeper than may be read. Whatever is read from a text, in any of its spellings, is read back from
the text that it is given. -/
theorem printed_elements_are_read_back :
    (∀ e : Element, ofJsonText e.jsonText = .ok e ↔
      e.DistinctKeys ∧ e.toJson.nesting ≤ Json.maxNesting) ∧
    ∀ (text : String) (e : Element), ofJsonText text = .ok e → ofJsonText e.jsonText = .ok e := by
  refine ⟨fun e => ofJsonText_jsonText_eq_ok_iff, ?_⟩
  intro text e read
  exact ofJsonText_jsonText_eq_ok_iff.2 (distinct_of_ofJsonText read)

/-- Pairs spelled as lists and a number with a sign and zeros, printed in the one form. -/
theorem printed_elements_are_read_back_respelled :
    ofJsonText "\x7b\"fields\":[[[\"u128\", \"+007\"], \x7b\"array\":[]\x7d]]\x7d"
      = .ok (fields [(.uint .w128 7, array [])]) ∧
    (fields [(.uint .w128 7, array [])]).jsonText = "\x7b\"fields\":[\x7b\"key\":" ++
      "\x7b\"type\":\"u128\",\"value\":\"7\"\x7d,\"value\":\x7b\"array\":[]\x7d\x7d]\x7d" ∧
    ofJsonText (fields [(.uint .w128 7, array [])]).jsonText
      = .ok (fields [(.uint .w128 7, array [])]) := by
  have read : ofJsonText "\x7b\"fields\":[[[\"u128\", \"+007\"], \x7b\"array\":[]\x7d]]\x7d"
      = .ok (fields [(.uint .w128 7, array [])]) := by cbv
  exact ⟨read, by decide, printed_elements_are_read_back.2 _ _ read⟩

end Element

end AddressCodec
