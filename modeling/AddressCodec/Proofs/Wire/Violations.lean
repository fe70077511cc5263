import AddressCodec.Proofs.Wire.Writing

/-!
# Lengths over the limit

The strings and collections of a tree that are too long for a count, listed as a walk in wire order
meets them: a collection before what is in it, a key before its element (`Element.violations`). A
tree has bytes exactly if there are none, and else fails with the first of them
(`Element.toBytes_eq_error`, `Element.toBytes_eq_ok`).
-/

namespace AddressCodec

/-- A length with the error it is, if a byte cannot hold it. -/
def WireError.overlong (cause : Nat → WireError) (length : Nat) : List WireError :=
  if 255 < length then [cause length] else []

/-- A length is a violation exactly if a byte cannot hold it. -/
lemma WireError.overlong_eq (cause : Nat → WireError) (length : Nat) :
    overlong cause length
      = (if Writer.maxLength < length then some (cause length) else none).toList := by
  rw [overlong, Writer.maxLength]
  split
  · rfl
  · rfl

/-- The length of a value that is over the limit, if there is one. -/
def Value.violations : Value → List WireError
  | string s => WireError.overlong .stringTooLong s.utf8ByteSize
  | _ => []

namespace Element

mutual

/-- The lengths in a tree that are over the limit, in wire order. -/
def violations : Element → List WireError
  | value v => v.violations
  | array items => WireError.overlong .tooManyElements items.length ++ itemViolations items
  | fields entries => WireError.overlong .tooManyElements entries.length ++ entryViolations entries

/-- The lengths over the limit in the items of an array. -/
def itemViolations : List Element → List WireError
  | [] => []
  | e :: items => e.violations ++ itemViolations items

/-- The lengths over the limit in the entries of a map. -/
def entryViolations : List (Value × Element) → List WireError
  | [] => []
  | (key, e) :: entries => key.violations ++ (e.violations ++ entryViolations entries)

end

end Element

namespace Piece

/-- Why pieces cannot be written, one after the other. -/
def faults (pieces : List Piece) : List WireError :=
  pieces.filterMap fault?

/-- The faults of pieces in front come first. -/
@[simp] lemma faults_append (pieces more : List Piece) :
    faults (pieces ++ more) = faults pieces ++ faults more :=
  List.filterMap_append

/-- The faults of pieces begin with that of the first one. -/
lemma faults_cons (piece : Piece) (pieces : List Piece) :
    faults (piece :: pieces) = piece.fault?.toList ++ faults pieces := by
  rw [faults, List.filterMap_cons]
  cases piece.fault? with
  | none => rfl
  | some cause => rfl

/-- Bytes add no fault. -/
@[simp] lemma faults_raw_cons (bytes : List UInt8) (pieces : List Piece) :
    faults (.raw bytes :: pieces) = faults pieces :=
  rfl

/-- The length of a string adds a fault if it is too long. -/
@[simp] lemma faults_textLength_cons (n : Nat) (pieces : List Piece) :
    faults (.textLength n :: pieces) = WireError.overlong .stringTooLong n ++ faults pieces := by
  rw [faults_cons, WireError.overlong_eq]
  rfl

/-- The count of a collection adds a fault if it is too large. -/
@[simp] lemma faults_count_cons (n : Nat) (pieces : List Piece) :
    faults (.count n :: pieces) = WireError.overlong .tooManyElements n ++ faults pieces := by
  rw [faults_cons, WireError.overlong_eq]
  rfl

/-- The first fault decides. -/
lemma verdict_eq {α : Type} (pieces : List Piece) (a : α) :
    verdict pieces a = match faults pieces with
      | [] => .ok a
      | cause :: _ => .error cause := by
  rw [verdict, ← List.head?_filterMap, ← faults]
  cases faults pieces with
  | nil => rfl
  | cons cause rest => rfl

end Piece

/-- The faults in the pieces of a value are its violations. -/
lemma Value.faults_pieces (v : Value) : Piece.faults v.pieces = v.violations := by
  cases v with
  | string s =>
    rw [pieces, payloadPieces, Piece.faults_raw_cons, Piece.faults_textLength_cons,
      Piece.faults_raw_cons, Utf8.length_encode]
    exact List.append_nil _
  | _ => rfl

namespace Element

mutual

/-- The faults in the pieces of a tree are its violations. -/
lemma faults_pieces : ∀ e : Element, Piece.faults e.pieces = e.violations
  | value v => by
    rw [pieces, violations, Piece.faults_raw_cons, v.faults_pieces]
  | array items => by
    rw [pieces, violations, Piece.faults_raw_cons, Piece.faults_count_cons,
      faults_itemPieces items]
  | fields entries => by
    rw [pieces, violations, Piece.faults_raw_cons, Piece.faults_count_cons,
      faults_entryPieces entries]

/-- The faults of the pieces of items are the violations in the items. -/
lemma faults_itemPieces :
    ∀ items : List Element, Piece.faults (itemPieces items) = itemViolations items
  | [] => rfl
  | e :: items => by
    rw [itemPieces, itemViolations, Piece.faults_append, faults_pieces e, faults_itemPieces items]

/-- The faults of the pieces of entries are the violations in the entries. -/
lemma faults_entryPieces : ∀ entries : List (Value × Element),
    Piece.faults (entryPieces entries) = entryViolations entries
  | [] => rfl
  | (key, e) :: entries => by
    rw [entryPieces, entryViolations, Piece.faults_append, Piece.faults_append, key.faults_pieces,
      faults_pieces e, faults_entryPieces entries]

end

/-- Writing to a sink without a capacity comes to the verdict on the pieces. -/
lemma toBytes_eq_verdict (e : Element) :
    e.toBytes = Piece.verdict e.pieces (Piece.wires e.pieces) := by
  by_cases sound : Piece.Sound e.pieces
  · rw [Piece.verdict_of_sound sound]
    exact toBytes_eq_ok_iff.2 ⟨sound, rfl⟩
  · have run := (Writer.element_writes e (.empty none)).1 rfl
    obtain ⟨cause, here, later⟩ :=
      Piece.exists_verdict_of_not_sound sound (Piece.wires e.pieces) e.encodedSize
    have failed := later []
    rw [List.append_nil] at failed
    rw [toBytes, run, here, failed]
    rfl

/-- The first violation is why a tree has no bytes. -/
lemma toBytes_eq_error {e : Element} {cause : WireError} {rest : List WireError}
    (broken : e.violations = cause :: rest) : e.toBytes = .error cause := by
  rw [toBytes_eq_verdict, Piece.verdict_eq, faults_pieces, broken]

/-- Without violations a tree has bytes. -/
lemma toBytes_eq_ok {e : Element} (kept : e.violations = []) :
    e.toBytes = .ok (Piece.wires e.pieces) := by
  rw [toBytes_eq_verdict, Piece.verdict_eq, faults_pieces, kept]

end Element

end AddressCodec
