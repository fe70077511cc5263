import AddressCodec.Proofs.Json.RepeatedKeys
import AddressCodec.Proofs.Wire.RepeatedKeys

/-!
# Three ways to build a map

A tree is written to bytes and printed in JSON whether or not its maps repeat keys, if its strings
and its collections are no longer than a count can say (`Element.Fits`). What then becomes of
repeated keys is the same for both readers, and known for a map that is built by inserting entries
(`Element.builders_agree_on_repeated_keys`).
-/

namespace AddressCodec

/-- A string is no longer than a count can say. -/
def Value.Fits : Value → Prop
  | .string s => (Utf8.encode s).length ≤ Writer.maxLength
  | _ => True

/-- The pieces of a value can be written exactly if its text is short enough. -/
lemma Value.sound_pieces_iff {v : Value} : Piece.Sound v.pieces ↔ v.Fits := by
  cases v <;> simp [pieces, payloadPieces, Fits]

namespace Element

mutual

/-- No string and no collection of a tree is longer than a count can say. -/
def Fits : Element → Prop
  | value v => v.Fits
  | array items => items.length ≤ Writer.maxLength ∧ ItemsFit items
  | fields entries => entries.length ≤ Writer.maxLength ∧ EntriesFit entries

/-- No string and no collection in the items of an array is longer than a count can say. -/
def ItemsFit : List Element → Prop
  | [] => True
  | e :: items => e.Fits ∧ ItemsFit items

/-- No string and no collection in the entries of a map is longer than a count can say. -/
def EntriesFit : List (Value × Element) → Prop
  | [] => True
  | (key, e) :: entries => key.Fits ∧ e.Fits ∧ EntriesFit entries

end

mutual

/-- The pieces of an element can be written exactly if its strings and collections are short enough.
-/
lemma sound_pieces_iff : ∀ e : Element, Piece.Sound e.pieces ↔ e.Fits
  | value v => by simp [pieces, Fits, Value.sound_pieces_iff]
  | array items => by simp [pieces, Fits, sound_itemPieces_iff items]
  | fields entries => by simp [pieces, Fits, sound_entryPieces_iff entries]

/-- The pieces of items can be written exactly if their strings and collections are short enough. -/
lemma sound_itemPieces_iff :
    ∀ items : List Element, Piece.Sound (itemPieces items) ↔ ItemsFit items
  | [] => by simp [itemPieces, ItemsFit]
  | e :: items => by simp [itemPieces, ItemsFit, sound_pieces_iff e, sound_itemPieces_iff items]

/-- The pieces of entries can be written exactly if their strings and collections are short enough.
-/
lemma sound_entryPieces_iff :
    ∀ entries : List (Value × Element), Piece.Sound (entryPieces entries) ↔ EntriesFit entries
  | [] => by simp [entryPieces, EntriesFit]
  | (key, e) :: entries => by
    simp [entryPieces, EntriesFit, Value.sound_pieces_iff, sound_pieces_iff e,
      sound_entryPieces_iff entries]

end

/-- The bytes of a tree and its JSON text are both read as that tree if no map of it repeats a key,
at any depth; else both are refused, each for a key that is repeated in a map of the tree. A map
that is built by inserting entries has just these if no key repeats, and in any case their keys in
the order in which they first occur, each with the element it was last given. -/
theorem builders_agree_on_repeated_keys :
    (∀ e : Element, e.Fits → e.toJson.nesting ≤ Json.maxNesting →
      ∃ bytes, e.toBytes = .ok bytes ∧
        (ofBytes bytes = .ok e ↔ ∀ key, ¬ e.Repeats key) ∧
        (ofJsonText e.jsonText = .ok e ↔ ∀ key, ¬ e.Repeats key) ∧
        ((∃ key, e.Repeats key) →
          (∃ key, e.Repeats key ∧ ofBytes bytes = .error (.duplicateKey key)) ∧
          ∃ key, e.Repeats key ∧ ofJsonText e.jsonText = .error (.rejected (.duplicateKey key)))) ∧
    (∀ entries, (entries.map Prod.fst).Nodup → ofEntries entries = fields entries) ∧
    ∀ entries, ∃ built, ofEntries entries = fields built ∧
      built.map Prod.fst = (entries.map Prod.fst).eraseDups ∧
      ∀ key, built.lookup key = entries.reverse.lookup key := by
  refine ⟨?_, ?_, exists_ofEntries_eq⟩
  · intro e fits shallow
    have sound := (sound_pieces_iff e).2 fits
    have written : e.toBytes = .ok (Piece.wires e.pieces) := toBytes_eq_ok_iff.2 ⟨sound, rfl⟩
    refine ⟨_, written, ?_, ?_, ?_⟩
    · rw [ofBytes_eq_ok_iff, ← distinctKeys_iff]
      exact and_iff_left written
    · rw [ofJsonText_jsonText_eq_ok_iff, ← distinctKeys_iff]
      exact and_iff_left shallow
    · intro ⟨key, repeats⟩
      have fault := repeats.not_distinctKeys
      exact ⟨ofBytes_wires_of_repeats sound fault, ofJsonText_jsonText_of_repeats fault shallow⟩
  · intro entries nodup
    have kept : entries.foldl _ [] = [] ++ entries := foldl_insert_of_nodup nodup
    exact congrArg fields kept

/-- A map that repeats a key and has, under another one, a map that does so too: the bytes are
refused for the outer key, which comes first, and the text is refused. Inserted in order, the second
element under a key takes the place of the first. -/
theorem builders_agree_on_repeated_keys_nested :
    let inner := fields [(.string "a", array []), (.string "a", array [])]
    let e := fields [(.bool true, array []), (.bool true, array []), (.bool false, inner)]
    e.Fits ∧ e.toJson.nesting ≤ Json.maxNesting ∧ e.Repeats (.bool true) ∧
      (∃ bytes, e.toBytes = .ok bytes ∧ ofBytes bytes = .error (.duplicateKey (.bool true))) ∧
      ofJsonText e.jsonText ≠ .ok e ∧
      (∃ key, e.Repeats key ∧ ofJsonText e.jsonText = .error (.rejected (.duplicateKey key))) ∧
      ofEntries [(.bool true, array []), (.bool true, inner)] = fields [(.bool true, inner)] := by
  intro inner e
  have fits : e.Fits := by
    simp [e, inner, Fits, ItemsFit, EntriesFit, Value.Fits]
    decide
  have shallow : e.toJson.nesting ≤ Json.maxNesting := by decide
  have repeats : e.Repeats (.bool true) := .here (by decide)
  obtain ⟨bytes, written, -, read, refused⟩ := builders_agree_on_repeated_keys.1 e fits shallow
  have known : e.toBytes = .ok [2, 3, 0, 1, 1, 0, 0, 1, 1, 0, 0, 0, 2, 2, 1, 1, 97, 1, 0, 1, 1, 97,
      1, 0] := by cbv
  refine ⟨fits, shallow, repeats, ⟨bytes, written, ?_⟩, fun same => read.1 same _ repeats,
    (refused ⟨_, repeats⟩).2, rfl⟩
  cases written.symm.trans known
  rfl

end Element

end AddressCodec
