import AddressCodec.Proofs.Wire.Cursor

/-!
# What a reader accepts

The bytes of a value are those of its pieces, if they are sound (`Reader.value_run_eq_ok_iff`);
those of an element too, if its maps have no key twice (`Reader.element_run_eq_ok_iff`).

The exactness of the reader of trees is by induction on the depth: behind the tag of a node fewer
bytes are left than the depth asks for.
-/

namespace AddressCodec

/-- Bytes that are read as a value. -/
def Value.Spells (v : Value) (bytes : List UInt8) : Prop :=
  Piece.Sound v.pieces ∧ bytes = Piece.wires v.pieces

/-- Bytes that are read as an element. -/
def Element.Spells (e : Element) (bytes : List UInt8) : Prop :=
  Piece.Sound e.pieces ∧ e.DistinctKeys ∧ bytes = Piece.wires e.pieces

/-- A byte announces a type exactly if it is the type's tag. -/
lemma Value.Kind.ofTag?_eq_some_iff {t : UInt8} {k : Kind} : ofTag? t = some k ↔ k.tag = t := by
  refine ⟨?_, ?_⟩
  · intro found
    rw [ofTag?] at found
    have hit := List.find?_some found
    exact beq_iff_eq.1 hit
  · intro same
    rw [← same, ofTag?_tag]

/-- A byte announces a kind exactly if it is the kind's tag. -/
lemma Element.Kind.ofTag?_eq_some_iff {t : UInt8} {k : Kind} : ofTag? t = some k ↔ k.tag = t := by
  refine ⟨?_, ?_⟩
  · intro found
    rw [ofTag?] at found
    have hit := List.find?_some found
    exact beq_iff_eq.1 hit
  · intro same
    rw [← same, ofTag?_tag]

/-- Every element takes a byte for its kind and one for its type or count. -/
lemma Element.two_le_encodedSize (e : Element) : 2 ≤ e.encodedSize := by
  cases e with
  | value v =>
    rw [encodedSize, Value.encodedSize]
    omega
  | array items => exact Nat.le_add_right 2 _
  | fields entries => exact Nat.le_add_right 2 _

namespace Reader
open Piece

variable {room : Nat}

/-- What follows the tag of a value of some type. -/
def PayloadForm (kind : Value.Kind) (v : Value) (bytes : List UInt8) : Prop :=
  v.kind = kind ∧ Sound v.payloadPieces ∧ bytes = wires v.payloadPieces

/-- A truth value is read from the byte one or zero alone. -/
lemma exact_bool : Exact room bool fun b bytes => bytes = [if b then 1 else 0] := by
  have choice : ∀ b : UInt8, Exact room
      (if b = 0 then pure false else if b = 1 then pure true else throw (.invalidBool b))
      fun truth bytes => b = (if truth then 1 else 0) ∧ bytes = [] := by
    intro b
    by_cases zero : b = 0
    · rw [if_pos zero]
      refine (exact_pure false).congr fun truth bytes => ?_
      cases truth <;> simp [zero]
    · rw [if_neg zero]
      -- The two bytes that are accepted differ, so each is the form of one truth value.
      by_cases one : b = 1
      · rw [if_pos one]
        refine (exact_pure true).congr fun truth bytes => ?_
        cases truth <;> simp [one]
      · rw [if_neg one]
        refine (exact_throw _).congr fun truth bytes => ?_
        cases truth <;> simp [zero, one]
  refine (exact_byte.bind choice).congr fun truth bytes => ?_
  refine ⟨?_, ?_⟩
  · intro ⟨b, before, after, single, ⟨value, nothing⟩, both⟩
    rw [both, single, value, nothing]
    rfl
  · intro single
    exact ⟨_, _, [], rfl, ⟨rfl, rfl⟩, single⟩

/-- A step that gives back what was found, if anything was, reads nothing. -/
lemma exact_found {α : Type} (found : Option α) (cause : WireError) : Exact room
    (match found with
      | some a => pure a
      | none => throw cause)
    fun a bytes => found = some a ∧ bytes = [] := by
  cases found with
  | none => exact (exact_throw cause).congr fun a bytes => by simp
  | some b => exact (exact_pure b).congr fun a bytes => by simp [eq_comm]

/-- What is made of the bytes of a string. -/
lemma exact_decoded (taken : List UInt8) : Exact room
    (match Utf8.decode? taken with
      | some s => pure s
      | none => throw WireError.invalidString)
    fun s bytes => Utf8.encode s = taken ∧ bytes = [] := by
  simp only [← Utf8.decode?_eq_some_iff]
  cases Utf8.decode? taken with
  | none => exact exact_found none _
  | some s => exact exact_found (some s) .invalidString

/-- A string is read from its length byte and its UTF-8 form, if the byte can hold the length. -/
lemma exact_string : Exact room string fun s bytes =>
    s.utf8ByteSize ≤ Writer.maxLength ∧
      bytes = UInt8.ofNat s.utf8ByteSize :: Utf8.encode s := by
  rw [string_eq]
  refine (exact_byte.bind fun b => (exact_taking b.toNat _).bind exact_decoded).congr
    fun s bytes => ?_
  refine ⟨?_, ?_⟩
  · rintro ⟨b, before, after, single, tail, both⟩
    obtain ⟨taken, block, rest, ⟨same, length⟩, ⟨encoded, nothing⟩, inner⟩ := tail
    -- The length byte holds the length itself, since it is that of the bytes that were taken.
    have size : s.utf8ByteSize = b.toNat := by
      rw [← length, ← same, ← encoded, Utf8.length_encode]
    have tag : UInt8.ofNat s.utf8ByteSize = b := by
      rw [size, UInt8.ofNat_toNat]
    refine ⟨?_, ?_⟩
    · rw [size]
      exact Nat.le_of_lt_succ b.toNat_lt
    · rw [both, single, inner, nothing, List.append_nil, ← same, ← encoded, tag]
      rfl
  · rintro ⟨short, both⟩
    have narrow : s.utf8ByteSize < UInt8.size := Nat.lt_succ_of_le short
    have size : (UInt8.ofNat s.utf8ByteSize).toNat = s.utf8ByteSize :=
      UInt8.toNat_ofNat_of_lt narrow
    refine ⟨UInt8.ofNat s.utf8ByteSize, _, _, rfl,
      ⟨_, Utf8.encode s, [], ⟨rfl, ?_⟩, ⟨rfl, rfl⟩, rfl⟩, ?_⟩
    · rw [size, Utf8.length_encode]
    · rw [both, List.append_nil]
      rfl

/-- An integer is read from its bytes, high byte first. -/
lemma exact_uint (w : Width) : Exact room (uint w) fun n bytes =>
    bytes = BigEndian.encode w.bytes n.toNat := by
  refine ((exact_bytes w.bytes).bind fun taken => exact_pure _).congr fun n bytes => ?_
  have width : 2 ^ w.bits = 256 ^ w.bytes := by
    rw [Width.bits, Nat.pow_mul]
  refine ⟨?_, ?_⟩
  · rintro ⟨taken, before, after, ⟨same, length⟩, ⟨value, nothing⟩, both⟩
    rw [both, nothing, List.append_nil, value, same, BitVec.toNat_ofNat, width, ← length,
      Nat.mod_eq_of_lt (BigEndian.decode_lt before), BigEndian.encode_decode]
  · intro encoded
    refine ⟨bytes, bytes, [], ⟨rfl, ?_⟩, ⟨?_, rfl⟩, (List.append_nil _).symm⟩
    · rw [encoded, BigEndian.length_encode]
    · apply BitVec.eq_of_toNat_eq
      rw [encoded, BigEndian.decode_encode, BitVec.toNat_ofNat, width, Nat.mod_mod, ← width,
        Nat.mod_eq_of_lt n.isLt]

/-- What is made of the bytes of a hash. -/
lemma exact_block (taken : List UInt8) : Exact room
    (match Bytes32.ofList? taken with
      | some h => pure h
      | none => throw WireError.unexpectedEnd)
    fun h bytes => taken = h.bytes ∧ bytes = [] := by
  simp only [← Bytes32.ofList?_eq_some_iff]
  cases Bytes32.ofList? taken with
  | none => exact exact_found none _
  | some h => exact exact_found (some h) .unexpectedEnd

/-- A hash is read from its bytes. -/
lemma exact_hash : Exact room hash fun h bytes => bytes = h.bytes := by
  refine ((exact_bytes 32).bind exact_block).congr fun h bytes => ?_
  refine ⟨?_, ?_⟩
  · rintro ⟨taken, before, after, ⟨same, length⟩, ⟨value, nothing⟩, both⟩
    rw [both, nothing, List.append_nil, ← same, value]
  · intro encoded
    refine ⟨bytes, bytes, [], ⟨rfl, ?_⟩, ⟨encoded, rfl⟩, (List.append_nil _).symm⟩
    rw [encoded, h.length_eq]

/-- What follows a type's tag is read from the pieces behind the tag of such a value. -/
lemma exact_payload (kind : Value.Kind) : Exact room (payload kind) (PayloadForm kind) := by
  cases kind with
  | bool =>
    refine (exact_bool.map Value.bool).congr fun v bytes => ?_
    cases v <;> simp [PayloadForm, Value.kind, Value.payloadPieces, wire]
  | string =>
    refine (exact_string.map Value.string).congr fun v bytes => ?_
    cases v <;> simp [PayloadForm, Value.kind, Value.payloadPieces, wire]
  | uint w =>
    refine ((exact_uint w).map (Value.uint w)).congr fun v bytes => ?_
    refine ⟨?_, ?_⟩
    · rintro ⟨n, encoded, same⟩
      rw [encoded, same]
      exact ⟨rfl, sound_cons.2 ⟨rfl, sound_nil⟩, (List.append_nil _).symm⟩
    · rintro ⟨kind, sound, encoded⟩
      cases v with
      | uint w' n =>
        cases kind
        exact ⟨n, encoded.trans (List.append_nil _), rfl⟩
      | _ => cases kind
  | hash =>
    refine (exact_hash.map Value.hash).congr fun v bytes => ?_
    cases v <;> simp [PayloadForm, Value.kind, Value.payloadPieces, wire]

/-- Behind the byte of a kind, the payload of that kind is read. -/
lemma exact_payload_ofTag (tag : UInt8) : Exact room
    (match Value.Kind.ofTag? tag with
      | some kind => payload kind
      | none => throw (WireError.unknownValueKind tag))
    fun v bytes => v.kind.tag = tag ∧ Sound v.payloadPieces ∧ bytes = wires v.payloadPieces := by
  cases known : Value.Kind.ofTag? tag with
  | none =>
    refine (exact_throw _).congr fun v bytes => ?_
    rw [← Value.Kind.ofTag?_eq_some_iff, known]
    simp
  | some kind =>
    refine (exact_payload kind).congr fun v bytes => ?_
    rw [← Value.Kind.ofTag?_eq_some_iff, known, Option.some.injEq, @eq_comm _ kind]
    rfl

/-- A value is read from exactly the bytes of its pieces. -/
lemma exact_value : Exact room value Value.Spells := by
  refine (exact_byte.bind exact_payload_ofTag).congr fun v bytes => ?_
  refine ⟨?_, ?_⟩
  · rintro ⟨tag, before, after, single, ⟨kind, sound, rest⟩, both⟩
    refine ⟨sound_cons.2 ⟨rfl, sound⟩, ?_⟩
    rw [both, single, rest, ← kind]
    rfl
  · rintro ⟨sound, both⟩
    exact ⟨v.kind.tag, _, _, rfl, ⟨rfl, (sound_cons.1 sound).2, rfl⟩, both⟩

/-- What a counted run of items is read from. -/
def ItemsForm (count : Nat) (items : List Element) (bytes : List UInt8) : Prop :=
  items.length = count ∧ Sound (Element.itemPieces items) ∧ Element.ItemsDistinct items ∧
    bytes = wires (Element.itemPieces items)

/-- A counted run of items is read from their bytes, if each item is. -/
lemma exact_items {step : Reader Element} (exact_step : Exact room step Element.Spells)
    (count : Nat) : Exact room (times step count) (ItemsForm count) := by
  induction count with
  | zero =>
    refine (exact_pure []).congr fun items bytes => ?_
    refine ⟨?_, ?_⟩
    · intro ⟨empty, nothing⟩
      rw [empty, nothing]
      exact ⟨rfl, sound_nil, trivial, rfl⟩
    · intro ⟨length, sound, distinct, spelled⟩
      have empty := List.eq_nil_of_length_eq_zero length
      rw [empty] at spelled
      exact ⟨empty, spelled⟩
  | succ count ih =>
    -- One item and the run behind it: both forms are put together and taken apart again.
    refine (exact_step.bind fun e => ih.map fun rest => e :: rest).congr fun items bytes => ?_
    refine ⟨?_, ?_⟩
    · intro ⟨e, before, after, ⟨sound, distinct, spelled⟩,
        ⟨rest, ⟨length, soundRest, distinctRest, spelledRest⟩, whole⟩, both⟩
      rw [whole, both, spelled, spelledRest]
      exact ⟨congrArg Nat.succ length, sound_append.2 ⟨sound, soundRest⟩, ⟨distinct, distinctRest⟩,
        (wires_append _ _).symm⟩
    · intro ⟨length, sound, distinct, spelled⟩
      cases items with
      | nil => cases length
      | cons e rest =>
        obtain ⟨soundFirst, soundRest⟩ := sound_append.1 sound
        exact ⟨e, _, _, ⟨soundFirst, distinct.1, rfl⟩,
          ⟨rest, ⟨Nat.succ.inj length, soundRest, distinct.2, rfl⟩, rfl⟩,
          spelled.trans (wires_append _ _)⟩

/-- What a counted run of entries is read from, behind entries already read. -/
def EntriesForm (count : Nat) (before : List (Value × Element)) (read : List (Value × Element))
    (bytes : List UInt8) : Prop :=
  ∃ entries, read = before ++ entries ∧ entries.length = count ∧ (read.map Prod.fst).Nodup ∧
    Sound (Element.entryPieces entries) ∧ Element.EntriesDistinct entries ∧
    bytes = wires (Element.entryPieces entries)

/-- The check for a repeated key comes behind its element. -/
lemma entries_succ (step : Reader Element) (count : Nat) (before : List (Value × Element)) :
    entries step (count + 1) before = value >>= fun key => step >>= fun e =>
      if (before.map Prod.fst).contains key then throw (WireError.duplicateKey key)
      else entries step count (before ++ [(key, e)]) := by
  rw [entries]
  rfl

/-- Keys stay distinct with a new one. -/
lemma nodup_keys_append {before : List (Value × Element)} {key : Value}
    (nodup : (before.map Prod.fst).Nodup) (new : key ∉ before.map Prod.fst) (e : Element) :
    ((before ++ [(key, e)]).map Prod.fst).Nodup := by
  rw [List.map_append]
  refine List.nodup_append.2 ⟨nodup, List.pairwise_singleton _ key, ?_⟩
  intro old mem last single same
  rw [same, List.mem_singleton.1 single] at mem
  exact new mem

/-- A counted run of entries is read from their bytes, if each element is and no key is repeated. -/
lemma exact_entries {step : Reader Element} (exact_step : Exact room step Element.Spells)
    (count : Nat) : ∀ before : List (Value × Element), (before.map Prod.fst).Nodup →
      Exact room (entries step count before) (EntriesForm count before) := by
  -- The run starts behind the entries read before; the first new one joins them for the rest.
  induction count with
  | zero =>
    intro before nodup
    refine (exact_pure before).congr fun read bytes => ?_
    refine ⟨?_, ?_⟩
    · intro ⟨same, nothing⟩
      rw [same, nothing]
      exact ⟨[], (List.append_nil _).symm, rfl, nodup, sound_nil, trivial, rfl⟩
    · intro ⟨entries, same, length, _, _, _, spelled⟩
      have empty := List.eq_nil_of_length_eq_zero length
      rw [empty] at same spelled
      exact ⟨same.trans (List.append_nil _), spelled⟩
  | succ count ih =>
    intro before nodup
    -- The check lets the rest be read only if the keys are still distinct.
    have checked : ∀ (key : Value) (e : Element), Exact room
        (if (before.map Prod.fst).contains key then throw (WireError.duplicateKey key)
          else entries step count (before ++ [(key, e)]))
        (EntriesForm count (before ++ [(key, e)])) := by
      intro key e
      by_cases repeated : key ∈ before.map Prod.fst
      · rw [if_pos (List.contains_iff_mem.2 repeated)]
        refine (exact_throw _).congr fun read bytes => ?_
        refine iff_of_false id ?_
        intro ⟨entries, same, _, distinct, _⟩
        rw [same, List.append_assoc, List.map_append] at distinct
        exact (List.nodup_append.1 distinct).2.2 key repeated key List.mem_cons_self rfl
      · rw [if_neg (fun h => repeated (List.contains_iff_mem.1 h))]
        exact ih _ (nodup_keys_append nodup repeated e)
    rw [entries_succ]
    refine (exact_value.bind fun key => exact_step.bind fun e => checked key e).congr
      fun read bytes => ?_
    refine ⟨?_, ?_⟩
    · intro ⟨key, keyBytes, _, keySpelled, ⟨e, eBytes, after, spelled,
        ⟨entries, whole, length, distinct, soundRest, distinctRest, spelledRest⟩, inner⟩, both⟩
      rw [List.append_assoc] at whole
      rw [both, inner, keySpelled.2, spelled.2.2, spelledRest]
      refine ⟨(key, e) :: entries, whole, congrArg Nat.succ length, distinct, ?_,
        ⟨spelled.2.1, distinctRest⟩, ?_⟩
      · exact sound_append.2 ⟨keySpelled.1, sound_append.2 ⟨spelled.1, soundRest⟩⟩
      · simp [Element.entryPieces]
    · intro ⟨entries, whole, length, distinct, sound, distinctEach, spelled⟩
      cases entries with
      | nil => cases length
      | cons entry entries =>
        obtain ⟨key, e⟩ := entry
        obtain ⟨soundKey, soundRest⟩ := sound_append.1 sound
        obtain ⟨soundFirst, soundRest⟩ := sound_append.1 soundRest
        refine ⟨key, _, _, ⟨soundKey, rfl⟩, ⟨e, _, _, ⟨soundFirst, distinctEach.1, rfl⟩,
          ⟨entries, ?_, Nat.succ.inj length, distinct, soundRest, distinctEach.2, rfl⟩, rfl⟩, ?_⟩
        · rw [whole, List.append_assoc]
          rfl
        · simp [spelled, Element.entryPieces]

/-- The number of a count that can be written, from its byte. -/
lemma toNat_ofNat_of_count {n : Nat} (sound : (Piece.count n).fault? = none) :
    (UInt8.ofNat n).toNat = n :=
  UInt8.toNat_ofNat_of_lt (Nat.lt_succ_of_le (fault?_count.1 sound))

/-- A count that can be written is the number of a byte. -/
lemma fault?_count_eq_none_iff {n : Nat} :
    (Piece.count n).fault? = none ↔ ∃ b : UInt8, b.toNat = n := by
  refine ⟨?_, ?_⟩
  · intro sound
    exact ⟨UInt8.ofNat n, toNat_ofNat_of_count sound⟩
  · intro ⟨b, same⟩
    rw [fault?_count, ← same]
    exact Nat.le_of_lt_succ b.toNat_lt

/-- A count that was read is written as the same byte. -/
lemma wire_count_toNat (b : UInt8) : (Piece.count b.toNat).wire = [b] := by
  rw [wire, UInt8.ofNat_toNat]

/-- A tag, a count and some pieces can be written, and are spelled by some bytes behind the tag,
exactly if the count is the number of a byte, which comes first. -/
lemma sound_counted_iff {tag : UInt8} {n : Nat} {pieces : List Piece} {bytes : List UInt8} :
    Sound (.raw [tag] :: .count n :: pieces) ∧
        tag :: bytes = wires (.raw [tag] :: .count n :: pieces) ↔
      ∃ b : UInt8, n = b.toNat ∧ Sound pieces ∧ bytes = b :: wires pieces := by
  rw [sound_cons, sound_cons, fault?_count_eq_none_iff]
  refine ⟨?_, ?_⟩
  · rintro ⟨⟨-, ⟨b, rfl⟩, sound⟩, spelled⟩
    rw [wires_cons, wires_cons, wire_count_toNat] at spelled
    exact ⟨b, rfl, sound, (List.cons.inj spelled).2⟩
  · rintro ⟨b, rfl, sound, rfl⟩
    refine ⟨⟨rfl, ⟨b, rfl⟩, sound⟩, ?_⟩
    rw [wires_cons, wires_cons, wire_count_toNat]
    rfl

/-- What follows the tag of a node of some kind. -/
def NodeForm (tag : UInt8) (e : Element) (bytes : List UInt8) : Prop :=
  e.kind.tag = tag ∧ e.Spells (tag :: bytes)

/-- Elements that nest no deeper than bytes are left are read from exactly their bytes. -/
lemma exact_node {depth : Nat} (below : Exact depth (elementWithin depth) Element.Spells)
    (kind : Element.Kind) : Exact depth
      (match kind with
        | .value => Element.value <$> value
        | .array => byte >>= fun count => Element.array <$> times (elementWithin depth) count.toNat
        | .fields => byte >>= fun count =>
          Element.fields <$> entries (elementWithin depth) count.toNat [])
      (NodeForm kind.tag) := by
  cases kind with
  | value =>
    refine (exact_value.map Element.value).congr fun e bytes => ?_
    refine ⟨?_, ?_⟩
    · intro ⟨v, ⟨sound, spelled⟩, same⟩
      rw [same, spelled]
      exact ⟨rfl, sound_cons.2 ⟨rfl, sound⟩, trivial, rfl⟩
    · intro ⟨kind, sound, distinct, spelled⟩
      cases e with
      | value v => exact ⟨v, ⟨(sound_cons.1 sound).2, (List.cons.inj spelled).2⟩, rfl⟩
      | array items => cases kind
      | fields entries => cases kind
  | array =>
    refine (exact_byte.bind fun count =>
      (exact_items below count.toNat).map Element.array).congr fun e bytes => ?_
    refine ⟨?_, ?_⟩
    · intro ⟨b, before, after, single, ⟨items, ⟨length, sound, distinct, spelled⟩, same⟩, both⟩
      rw [same, both, single, spelled]
      obtain ⟨sound, spelled⟩ := sound_counted_iff.2 ⟨b, length, sound, rfl⟩
      exact ⟨rfl, sound, distinct, spelled⟩
    · intro ⟨kind, sound, distinct, spelled⟩
      cases e with
      | value v => cases kind
      | array items =>
        obtain ⟨b, length, soundItems, rfl⟩ := sound_counted_iff.1 ⟨sound, spelled⟩
        exact ⟨b, _, _, rfl, ⟨items, ⟨length, soundItems, distinct, rfl⟩, rfl⟩, rfl⟩
      | fields entries => cases kind
  | fields =>
    refine (exact_byte.bind fun count =>
      (exact_entries below count.toNat [] List.nodup_nil).map Element.fields).congr
        fun e bytes => ?_
    refine ⟨?_, ?_⟩
    · intro ⟨b, before, after, single, ⟨entries, ⟨added, whole, length, distinct, sound,
        distinctEach, spelled⟩, same⟩, both⟩
      -- Nothing was read before, so the entries that are added are all of them.
      rw [List.nil_append] at whole
      rw [← whole] at length sound distinctEach spelled
      rw [same, both, single, spelled]
      obtain ⟨sound, spelled⟩ := sound_counted_iff.2 ⟨b, length, sound, rfl⟩
      exact ⟨rfl, sound, ⟨distinct, distinctEach⟩, spelled⟩
    · intro ⟨kind, sound, distinct, spelled⟩
      cases e with
      | value v => cases kind
      | array items => cases kind
      | fields entries =>
        obtain ⟨b, length, soundEntries, rfl⟩ := sound_counted_iff.1 ⟨sound, spelled⟩
        exact ⟨b, _, _, rfl, ⟨entries, ⟨entries, rfl, length, distinct.1, soundEntries,
          distinct.2, rfl⟩, rfl⟩, rfl⟩

/-- Behind the byte of a kind, the node of that kind is read. -/
lemma exact_node_ofTag {depth : Nat} (below : Exact depth (elementWithin depth) Element.Spells)
    (tag : UInt8) : Exact depth
      (match Element.Kind.ofTag? tag with
        | none => throw (WireError.unknownElementKind tag)
        | some .value => Element.value <$> value
        | some .array => byte >>= fun count =>
          Element.array <$> times (elementWithin depth) count.toNat
        | some .fields => byte >>= fun count =>
          Element.fields <$> entries (elementWithin depth) count.toNat [])
      (NodeForm tag) := by
  cases known : Element.Kind.ofTag? tag with
  | none =>
    refine (exact_throw _).congr fun e bytes => ?_
    rw [NodeForm, ← Element.Kind.ofTag?_eq_some_iff, known]
    simp
  | some kind =>
    have tag_eq := Element.Kind.ofTag?_eq_some_iff.1 known
    rw [← tag_eq]
    cases kind with
    | value => exact exact_node below .value
    | array => exact exact_node below .array
    | fields => exact exact_node below .fields

/-- Within a depth that is as large as what is left, an element is read from exactly the bytes of
its pieces. -/
lemma exact_elementWithin (depth : Nat) :
    Exact depth (elementWithin depth) Element.Spells := by
  induction depth with
  | zero =>
    -- Nothing is left, and every element takes a byte.
    intro c e next left within
    have stuck :=
      (exact_byte.bind fun _ => exact_throw WireError.unexpectedEnd) c e next left within
    refine iff_of_false ?_ ?_
    · intro run
      obtain ⟨bytes, ⟨b, before, after, single, none, both⟩, passes⟩ := stuck.1 run
      exact none
    · rintro ⟨bytes, ⟨sound, distinct, spelled⟩, passes⟩
      have size := e.two_le_encodedSize
      have few := passes.remaining_eq
      rw [spelled, Element.length_wires] at few
      omega
  | succ depth ih =>
    refine (exact_byte_bind (exact_node_ofTag ih)).congr fun e bytes => ?_
    refine ⟨?_, ?_⟩
    · rintro ⟨tag, after, ⟨_, spelled⟩, both⟩
      rw [both]
      exact spelled
    · rintro ⟨sound, distinct, spelled⟩
      -- The bytes of each kind of node start with its tag.
      cases e with
      | value v => exact ⟨_, _, ⟨rfl, sound, distinct, rfl⟩, spelled⟩
      | array items => exact ⟨_, _, ⟨rfl, sound, distinct, rfl⟩, spelled⟩
      | fields entries => exact ⟨_, _, ⟨rfl, sound, distinct, rfl⟩, spelled⟩

/-- From any cursor, a value is read from exactly its bytes. -/
lemma value_run_eq_ok_iff {c next : Cursor} {v : Value} :
    value.run c = .ok v next ↔ ∃ bytes, v.Spells bytes ∧ c.Passes bytes next := by
  by_cases within : c.Within
  · exact exact_value c v next (Nat.le_refl _) within
  · refine iff_of_false ?_ ?_
    · intro run
      exact within (within_of_byte_bind_run run)
    · intro ⟨bytes, spelled, passes⟩
      exact within passes.within_before

/-- From any cursor, an element is read from exactly its bytes. -/
lemma element_run_eq_ok_iff {c next : Cursor} {e : Element} :
    element.run c = .ok e next ↔ ∃ bytes, e.Spells bytes ∧ c.Passes bytes next := by
  have run : element.run c = (elementWithin c.remaining).run c := rfl
  rw [run]
  by_cases within : c.Within
  · exact exact_elementWithin c.remaining c e next (Nat.le_refl _) within
  · refine iff_of_false ?_ ?_
    · intro run
      cases depth : c.remaining with
      | zero =>
        rw [depth] at run
        exact within (within_of_byte_bind_run run)
      | succ depth' =>
        rw [depth] at run
        exact within (within_of_byte_bind_run run)
    · intro ⟨bytes, spelled, passes⟩
      exact within passes.within_before

end Reader

end AddressCodec
