import AddressCodec.Proofs.Bytes
import AddressCodec.Wire.Writer

/-!
# Encodings in pieces

The encoding of an element as a sequence of pieces, in the order in which they are written: runs of
bytes, and counts that have to fit in a byte. An element can be written if all its counts do
(`Sound`), its bytes are then those of the pieces (`wires`), and there are `encodedSize` of them
(`Element.length_wires`).
-/

namespace AddressCodec

/-- A part of an encoding. -/
inductive Piece where
  | raw (bytes : List UInt8)
  | textLength (n : Nat)
  | count (n : Nat)

namespace Piece

/-- The bytes of a piece; of a count, its low byte. -/
def wire : Piece → List UInt8
  | raw bytes => bytes
  | textLength n => [UInt8.ofNat n]
  | count n => [UInt8.ofNat n]

/-- Why a piece cannot be written. -/
def fault? : Piece → Option WireError
  | raw _ => none
  | textLength n => if Writer.maxLength < n then some (.stringTooLong n) else none
  | count n => if Writer.maxLength < n then some (.tooManyElements n) else none

/-- The bytes of a sequence of pieces. -/
def wires (pieces : List Piece) : List UInt8 :=
  pieces.flatMap wire

/-- Every piece can be written. -/
def Sound (pieces : List Piece) : Prop :=
  ∀ piece ∈ pieces, piece.fault? = none

/-- The bytes in front of the first piece that cannot be written. -/
def written (pieces : List Piece) : List UInt8 :=
  wires (pieces.takeWhile fun piece => piece.fault?.isNone)

/-- What comes of writing the pieces: a result, or the first reason why a piece cannot be
written. -/
def verdict {α : Type} (pieces : List Piece) (a : α) : Except WireError α :=
  match pieces.findSome? fault? with
  | none => .ok a
  | some cause => .error cause

@[simp] lemma wires_nil : wires [] = [] :=
  rfl

@[simp] lemma wires_cons (piece : Piece) (pieces : List Piece) :
    wires (piece :: pieces) = piece.wire ++ wires pieces :=
  rfl

@[simp] lemma wires_append (pieces more : List Piece) :
    wires (pieces ++ more) = wires pieces ++ wires more :=
  List.flatMap_append

@[simp] lemma sound_nil : Sound [] := by
  intro piece h
  cases h

@[simp] lemma sound_cons {piece : Piece} {pieces : List Piece} :
    Sound (piece :: pieces) ↔ piece.fault? = none ∧ Sound pieces :=
  List.forall_mem_cons

@[simp] lemma sound_append {pieces more : List Piece} :
    Sound (pieces ++ more) ↔ Sound pieces ∧ Sound more :=
  List.forall_mem_append

@[simp] lemma fault?_raw (bytes : List UInt8) : (raw bytes).fault? = none :=
  rfl

/-- The length of a string can be written if a byte holds it. -/
@[simp] lemma fault?_textLength {n : Nat} :
    (textLength n).fault? = none ↔ n ≤ Writer.maxLength := by
  simp [fault?]

/-- The count of a collection can be written if a byte holds it. -/
@[simp] lemma fault?_count {n : Nat} : (count n).fault? = none ↔ n ≤ Writer.maxLength := by
  simp [fault?]

/-- No first reason is found exactly if every piece can be written. -/
lemma findSome?_fault?_eq_none_iff {pieces : List Piece} :
    pieces.findSome? fault? = none ↔ Sound pieces :=
  List.findSome?_eq_none_iff

/-- Behind sound pieces, which are written whole, everything that can be is written. -/
lemma written_append_of_sound {pieces : List Piece} (sound : Sound pieces) (more : List Piece) :
    written (pieces ++ more) = wires pieces ++ written more := by
  have all : ∀ piece ∈ pieces, piece.fault?.isNone := by
    intro piece h
    rw [sound piece h]
    rfl
  rw [written, List.takeWhile_append_of_pos all, wires_append]
  rfl

/-- If every piece can be written, all their bytes are. -/
lemma written_of_sound {pieces : List Piece} (sound : Sound pieces) :
    written pieces = wires pieces := by
  have := written_append_of_sound sound []
  rwa [List.append_nil, show written [] = [] from rfl, List.append_nil] at this

/-- Behind a piece that cannot be written nothing is. -/
lemma written_append_of_not_sound {pieces : List Piece} (fault : ¬ Sound pieces)
    (more : List Piece) : written (pieces ++ more) = written pieces := by
  induction pieces with
  | nil => exact absurd sound_nil fault
  | cons piece pieces ih =>
    rw [List.cons_append, written, written, List.takeWhile_cons, List.takeWhile_cons]
    cases first : piece.fault? with
    | some cause => rfl
    | none =>
      have rest : ¬ Sound pieces := fun sound => fault (sound_cons.2 ⟨first, sound⟩)
      exact congrArg (piece.wire ++ ·) (ih rest)

/-- If every piece can be written, writing them has its result. -/
lemma verdict_of_sound {α : Type} {pieces : List Piece} (sound : Sound pieces) (a : α) :
    verdict pieces a = .ok a := by
  rw [verdict, findSome?_fault?_eq_none_iff.2 sound]

/-- Behind sound pieces the verdict is that on the rest. -/
lemma verdict_append_of_sound {α : Type} {pieces : List Piece} (sound : Sound pieces)
    (more : List Piece) (a : α) : verdict (pieces ++ more) a = verdict more a := by
  rw [verdict, List.findSome?_append, findSome?_fault?_eq_none_iff.2 sound]
  rfl

/-- The first piece that cannot be written decides. -/
lemma exists_verdict_of_not_sound {α β : Type} {pieces : List Piece} (fault : ¬ Sound pieces)
    (a : α) (b : β) : ∃ cause, verdict pieces a = .error cause ∧
      ∀ more, verdict (pieces ++ more) b = .error cause := by
  cases first : pieces.findSome? fault? with
  | none => exact absurd (findSome?_fault?_eq_none_iff.1 first) fault
  | some cause =>
    refine ⟨cause, ?_, ?_⟩
    · rw [verdict, first]
    · intro more
      rw [verdict, List.findSome?_append, first]
      rfl

end Piece

namespace Value

/-- The pieces after the tag. -/
def payloadPieces : Value → List Piece
  | bool b => [.raw [if b then 1 else 0]]
  | string s => [.textLength (Utf8.encode s).length, .raw (Utf8.encode s)]
  | uint w n => [.raw (BigEndian.encode w.bytes n.toNat)]
  | hash h => [.raw h.bytes]

/-- The pieces of a value, its tag first. -/
def pieces (v : Value) : List Piece :=
  .raw [v.kind.tag] :: v.payloadPieces

/-- The pieces behind a value's tag have as many bytes as its payload. -/
lemma length_wires_payloadPieces (v : Value) :
    (Piece.wires v.payloadPieces).length = v.payloadSize := by
  cases v with
  | bool b => rfl
  | string s => simp [payloadPieces, Piece.wire, payloadSize, Nat.add_comm]
  | uint w n => simp [payloadPieces, Piece.wire, payloadSize]
  | hash h => simp [payloadPieces, Piece.wire, payloadSize, h.length_eq]

/-- A value takes as many bytes as its size says. -/
@[simp] lemma length_wires (v : Value) : (Piece.wires v.pieces).length = v.encodedSize := by
  rw [pieces, Piece.wires_cons, List.length_append, length_wires_payloadPieces]
  rfl

end Value

namespace Element

mutual

/-- The pieces of an element: its tag, its count if it has one, and what is below it. -/
def pieces : Element → List Piece
  | value v => .raw [Kind.value.tag] :: v.pieces
  | array items => .raw [Kind.array.tag] :: .count items.length :: itemPieces items
  | fields entries => .raw [Kind.fields.tag] :: .count entries.length :: entryPieces entries

/-- The pieces of the items of an array. -/
def itemPieces : List Element → List Piece
  | [] => []
  | e :: items => e.pieces ++ itemPieces items

/-- The pieces of the entries of a map, each key before its element. -/
def entryPieces : List (Value × Element) → List Piece
  | [] => []
  | (key, e) :: entries => key.pieces ++ (e.pieces ++ entryPieces entries)

end

mutual

/-- An element takes as many bytes as its size says. -/
@[simp] lemma length_wires : ∀ e : Element, (Piece.wires e.pieces).length = e.encodedSize
  | value v => by
    rw [pieces, encodedSize, Piece.wires_cons, List.length_append, v.length_wires]
    rfl
  | array items => by
    rw [pieces, encodedSize, Piece.wires_cons, Piece.wires_cons, List.length_append,
      List.length_append, length_wires_itemPieces items, ← Nat.add_assoc]
    rfl
  | fields entries => by
    rw [pieces, encodedSize, Piece.wires_cons, Piece.wires_cons, List.length_append,
      List.length_append, length_wires_entryPieces entries, ← Nat.add_assoc]
    rfl

/-- The pieces of items have as many bytes as their sizes add up to. -/
lemma length_wires_itemPieces :
    ∀ items : List Element, (Piece.wires (itemPieces items)).length = sizeOfItems items
  | [] => rfl
  | e :: items => by
    rw [itemPieces, sizeOfItems, Piece.wires_append, List.length_append, length_wires e,
      length_wires_itemPieces items]

/-- The pieces of entries have as many bytes as their sizes add up to. -/
lemma length_wires_entryPieces : ∀ entries : List (Value × Element),
    (Piece.wires (entryPieces entries)).length = sizeOfEntries entries
  | [] => rfl
  | (key, e) :: entries => by
    rw [entryPieces, sizeOfEntries, Piece.wires_append, Piece.wires_append, List.length_append,
      List.length_append, key.length_wires, length_wires e, length_wires_entryPieces entries,
      Nat.add_assoc]

end

end Element

end AddressCodec
