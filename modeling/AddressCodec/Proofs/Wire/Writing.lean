import AddressCodec.Proofs.Wire.Pieces

/-!
# What a writer writes

Every writer emits the pieces of what it is given, up to the first that cannot be written, and then
gives back the verdict on them; a sink that has no room for all that takes the part it has room for
(`Writer.value_writes`, `Writer.element_writes`). An element has bytes exactly if its pieces are
sound (`Element.toBytes_eq_ok_iff`).
-/

namespace AddressCodec

namespace Sink

/-- A sink has room for all of some bytes. -/
def Takes (sink : Sink) (bytes : List UInt8) : Prop :=
  sink.fitting bytes = bytes

/-- What fits of some bytes is their front. -/
lemma fitting_prefix (sink : Sink) (bytes : List UInt8) : sink.fitting bytes <+: bytes := by
  unfold fitting
  split
  · exact List.prefix_rfl
  · exact List.take_prefix _ _

/-- What fits is shorter exactly if there is not room for all. -/
lemma length_fitting_lt_iff {sink : Sink} {bytes : List UInt8} :
    (sink.fitting bytes).length < bytes.length ↔ ¬ sink.Takes bytes := by
  have part := sink.fitting_prefix bytes
  refine ⟨?_, ?_⟩
  · intro shorter all
    rw [all] at shorter
    exact Nat.lt_irrefl _ shorter
  · intro notAll
    apply Nat.lt_of_not_le
    intro long
    exact notAll (part.eq_of_length (Nat.le_antisymm part.length_le long))

@[simp] lemma append_nil (sink : Sink) : sink.append [] = sink := by
  simp [append]

/-- The content of a sink grows by the bytes behind it. -/
@[simp] lemma content_append (sink : Sink) (bytes : List UInt8) :
    (sink.append bytes).content.toList = sink.content.toList ++ bytes :=
  Array.toList_appendList

/-- The size of a sink grows by the number of bytes behind it. -/
lemma size_append (sink : Sink) (bytes : List UInt8) :
    (sink.append bytes).content.size = sink.content.size + bytes.length := by
  rw [← Array.length_toList, content_append, List.length_append, Array.length_toList]

lemma append_append (sink : Sink) (bytes more : List UInt8) :
    (sink.append bytes).append more = sink.append (bytes ++ more) := by
  have content : sink.content ++ bytes ++ more = sink.content ++ (bytes ++ more) := by
    apply Array.ext'
    simp
  exact congrArg (Sink.mk · sink.capacity) content

lemma takes_nil (sink : Sink) : sink.Takes [] := by
  unfold Takes fitting
  split <;> simp

/-- Behind bytes there was room for, the room is what is left of it. -/
lemma fitting_append_of_takes {sink : Sink} {bytes : List UInt8} (takes : sink.Takes bytes)
    (more : List UInt8) :
    sink.fitting (bytes ++ more) = bytes ++ (sink.append bytes).fitting more := by
  have size := sink.size_append bytes
  obtain ⟨content, capacity⟩ := sink
  cases capacity with
  | none => rfl
  | some capacity =>
    show List.take (capacity - content.size) (bytes ++ more)
      = bytes ++ List.take (capacity - (content ++ bytes).size) more
    have all : List.take (capacity - content.size) bytes = bytes := takes
    rw [List.take_append, all, Nat.sub_sub]
    exact congrArg (fun used => bytes ++ List.take (capacity - used) more) size.symm

/-- Without room for the first bytes, nothing behind them gets in. -/
lemma fitting_append_of_not_takes {sink : Sink} {bytes : List UInt8} (full : ¬ sink.Takes bytes)
    (more : List UInt8) : sink.fitting (bytes ++ more) = sink.fitting bytes := by
  obtain ⟨content, capacity⟩ := sink
  cases capacity with
  | none => exact absurd rfl full
  | some capacity =>
    have short : capacity - content.size ≤ bytes.length := by
      apply Nat.le_of_lt
      apply Nat.lt_of_not_le
      intro room
      exact full (List.take_of_length_le room)
    exact List.take_append_of_le_length short

/-- A sink takes bytes and more if it takes the first, and then the others. -/
lemma takes_append_iff {sink : Sink} {bytes more : List UInt8} :
    sink.Takes (bytes ++ more) ↔ sink.Takes bytes ∧ (sink.append bytes).Takes more := by
  by_cases takes : sink.Takes bytes
  · rw [Takes, fitting_append_of_takes takes, List.append_cancel_left_eq]
    exact (and_iff_right takes).symm
  · refine iff_of_false ?_ fun both => takes both.1
    intro all
    have short := (sink.fitting_prefix bytes).length_le
    rw [← fitting_append_of_not_takes takes more, all, List.length_append] at short
    have none : more = [] := List.eq_nil_of_length_eq_zero (by omega)
    rw [none, List.append_nil] at all
    exact takes all

end Sink

namespace Writer
open Piece

variable {α β : Type}

/-- How a step ends that leaves a sink with some outcome. -/
def leaving (sink : Sink) : Except WireError α → EStateM.Result WireError Sink α
  | .ok a => .ok a sink
  | .error cause => .error cause sink

/-- A step offers fixed bytes to the sink, and has a fixed outcome if there is room for all. -/
def Emits (step : Writer α) (bytes : List UInt8) (outcome : Except WireError α) : Prop :=
  ∀ sink : Sink,
    (sink.Takes bytes → step.run sink = leaving (sink.append bytes) outcome) ∧
    (¬ sink.Takes bytes → step.run sink = .error .sinkFull (sink.append (sink.fitting bytes)))

/-- A step writes pieces, up to the first that cannot be written. -/
def Writes (step : Writer α) (pieces : List Piece) (a : α) : Prop :=
  Emits step (written pieces) (verdict pieces a)

/-- A step that ends well lets the next one emit its bytes behind its own. -/
lemma Emits.bind {step : Writer α} {next : α → Writer β} {bytes more : List UInt8} {a : α}
    {outcome : Except WireError β} (first : Emits step bytes (.ok a))
    (second : Emits (next a) more outcome) : Emits (step >>= next) (bytes ++ more) outcome := by
  intro sink
  obtain ⟨room, full⟩ := first sink
  rw [Sink.takes_append_iff]
  -- With room for the first bytes, the room that counts is that behind them; without it, the second
  -- step never runs.
  by_cases takes : sink.Takes bytes
  · have run : (step >>= next).run sink = (next a).run (sink.append bytes) := by
      rw [EStateM.run_bind, room takes]
      rfl
    obtain ⟨room', full'⟩ := second (sink.append bytes)
    rw [run, and_iff_right takes, Sink.fitting_append_of_takes takes, ← Sink.append_append,
      ← Sink.append_append]
    exact ⟨room', full'⟩
  · refine ⟨fun both => absurd both.1 takes, fun _ => ?_⟩
    rw [EStateM.run_bind, full takes, Sink.fitting_append_of_not_takes takes]

/-- A step that fails keeps the next one from running. -/
lemma Emits.bind_error {step : Writer α} {next : α → Writer β} {bytes : List UInt8}
    {cause : WireError} (first : Emits step bytes (.error cause)) :
    Emits (step >>= next) bytes (.error cause) := by
  intro sink
  obtain ⟨room, full⟩ := first sink
  refine ⟨fun takes => ?_, fun notAll => ?_⟩
  · rw [EStateM.run_bind, room takes]
    rfl
  · rw [EStateM.run_bind, full notAll]

lemma writes_pure (a : α) : Writes (pure a) [] a := by
  intro sink
  refine ⟨fun _ => ?_, fun full => absurd sink.takes_nil full⟩
  show EStateM.Result.ok a sink = leaving (sink.append []) (.ok a)
  rw [Sink.append_nil]
  rfl

/-- Steps one behind the other write their pieces one behind the other. -/
lemma Writes.bind {step : Writer α} {next : α → Writer β} {pieces more : List Piece} {a : α} {b : β}
    (first : Writes step pieces a) (second : Writes (next a) more b) :
    Writes (step >>= next) (pieces ++ more) b := by
  -- A fault among the first pieces decides for both steps.
  by_cases sound : Sound pieces
  · rw [Writes, verdict_of_sound sound, written_of_sound sound] at first
    rw [Writes, verdict_append_of_sound sound, written_append_of_sound sound]
    exact first.bind second
  · obtain ⟨cause, here, later⟩ := exists_verdict_of_not_sound sound a b
    rw [Writes, here] at first
    rw [Writes, later more, written_append_of_not_sound sound]
    exact first.bind_error

/-- A result that is computed from that of a step. -/
lemma Writes.bind_pure {step : Writer α} {pieces : List Piece} {a : α}
    (first : Writes step pieces a) (f : α → β) :
    Writes (step >>= fun x => pure (f x)) pieces (f a) := by
  rw [← List.append_nil pieces]
  exact first.bind (writes_pure (f a))

/-- A step behind a check fails before it writes a piece that cannot be written. -/
lemma Writes.checked {bad : Prop} [Decidable bad] {cause : WireError} {piece : Piece}
    {rest : PUnit → Writer α} {more : List Piece} {a : α}
    (fault : piece.fault? = if bad then some cause else none)
    (passed : ¬ bad → Writes (rest ⟨⟩) (piece :: more) a) :
    Writes (if bad then throw cause >>= rest else rest ⟨⟩) (piece :: more) a := by
  split
  next h =>
    rw [if_pos h] at fault
    have nothing : written (piece :: more) = [] := by
      rw [written, List.takeWhile_cons, fault]
      rfl
    have failed : verdict (piece :: more) a = .error cause := by
      rw [verdict, List.findSome?_cons, fault]
    have thrown : Emits (throw cause : Writer PUnit) [] (.error cause) := by
      intro sink
      refine ⟨fun _ => ?_, fun full => absurd sink.takes_nil full⟩
      rw [Sink.append_nil]
      rfl
    rw [Writes, nothing, failed]
    exact thrown.bind_error
  next h => exact passed h

/-- The bytes of a piece that can be written are that piece. -/
lemma bytes_writes {piece : Piece} (sound : piece.fault? = none) :
    Writes (bytes piece.wire) [piece] () := by
  have whole : Sound [piece] := sound_cons.2 ⟨sound, sound_nil⟩
  have wire : wires [piece] = piece.wire := List.append_nil _
  rw [Writes, verdict_of_sound whole, written_of_sound whole, wire, bytes]
  intro sink
  refine ⟨fun takes => ?_, fun full => ?_⟩
  · have all : ¬ (sink.fitting piece.wire).length < piece.wire.length :=
      fun shorter => Sink.length_fitting_lt_iff.1 shorter takes
    simp only [EStateM.run_bind, EStateM.run_get, EStateM.run_set, if_neg all]
    rw [takes]
    rfl
  · have part := Sink.length_fitting_lt_iff.2 full
    simp only [EStateM.run_bind, EStateM.run_get, EStateM.run_set, if_pos part, EStateM.run_throw]

/-- A byte is written as one piece. -/
lemma byte_writes {b : UInt8} : Writes (byte b) [.raw [b]] () :=
  bytes_writes (fault?_raw [b])

/-- The count of a collection is written as one piece. -/
lemma count_writes (n : Nat) : Writes (count n) [.count n] () := by
  rw [count]
  refine Writes.checked rfl ?_
  intro narrow
  exact bytes_writes (if_neg narrow)

/-- What follows a type's tag is written as the pieces of the payload. -/
lemma payload_writes (v : Value) : Writes (payload v) v.payloadPieces () := by
  cases v with
  | bool b => exact byte_writes
  | string s =>
    rw [payload, Value.payloadPieces]
    refine Writes.checked rfl ?_
    intro narrow
    have length : Writes (byte (UInt8.ofNat (Utf8.encode s).length))
        [.textLength (Utf8.encode s).length] () :=
      bytes_writes (if_neg narrow)
    exact length.bind (bytes_writes (fault?_raw (Utf8.encode s)))
  | uint w n => exact bytes_writes (fault?_raw _)
  | hash h => exact bytes_writes (fault?_raw _)

/-- A value is written in its pieces. -/
lemma value_writes (v : Value) : Writes (value v) v.pieces v.encodedSize :=
  byte_writes.bind ((payload_writes v).bind_pure fun _ => v.encodedSize)

mutual

/-- An element is written in its pieces. -/
lemma element_writes : ∀ e : Element, Writes (element e) e.pieces e.encodedSize
  | .value v => by
    rw [element]
    exact byte_writes.bind ((value_writes v).bind_pure fun size => 1 + size)
  | .array items => by
    rw [element]
    apply byte_writes.bind
    apply (count_writes items.length).bind
    exact (items_writes items).bind_pure fun size => 2 + size
  | .fields entries => by
    rw [element]
    apply byte_writes.bind
    apply (count_writes entries.length).bind
    exact (entries_writes entries).bind_pure fun size => 2 + size

/-- Items are written as their pieces, and their size is told. -/
lemma items_writes : ∀ es : List Element,
    Writes (items es) (Element.itemPieces es) (Element.sizeOfItems es)
  | [] => writes_pure 0
  | e :: es => by
    rw [items]
    apply (element_writes e).bind
    exact (items_writes es).bind_pure fun rest => e.encodedSize + rest

/-- Entries are written as their pieces, and their size is told. -/
lemma entries_writes : ∀ mapped : List (Value × Element),
    Writes (entries mapped) (Element.entryPieces mapped) (Element.sizeOfEntries mapped)
  | [] => writes_pure 0
  | (key, e) :: mapped => by
    rw [entries]
    apply (value_writes key).bind
    apply (element_writes e).bind
    exact (entries_writes mapped).bind_pure fun rest => key.encodedSize + e.encodedSize + rest

end

/-- A writer ends well exactly if its pieces are sound and there is room for them all. -/
lemma Writes.run_eq_ok_iff {step : Writer α} {pieces : List Piece} {a b : α} {sink next : Sink}
    (writes : Writes step pieces a) :
    step.run sink = .ok b next ↔
      Sound pieces ∧ sink.Takes (wires pieces) ∧ b = a ∧ next = sink.append (wires pieces) := by
  obtain ⟨room, full⟩ := writes sink
  by_cases sound : Sound pieces
  · rw [written_of_sound sound, verdict_of_sound sound] at room
    rw [written_of_sound sound] at full
    by_cases takes : sink.Takes (wires pieces)
    · rw [room takes]
      simp [leaving, sound, takes, eq_comm]
    · rw [full takes]
      simp [takes]
  · obtain ⟨cause, failed, -⟩ := exists_verdict_of_not_sound sound a a
    by_cases takes : sink.Takes (written pieces)
    · rw [room takes, failed]
      simp [leaving, sound]
    · rw [full takes]
      simp [sound]

/-- On a sink without a capacity a writer yields its bytes exactly if its pieces are sound. -/
lemma Writes.run_empty_eq_ok_iff {step : Writer α} {pieces : List Piece} {a : α}
    (writes : Writes step pieces a) {bytes : List UInt8} :
    (∃ b next, step.run (.empty none) = .ok b next ∧ next.content.toList = bytes) ↔
      Sound pieces ∧ bytes = wires pieces := by
  have all : ((Sink.empty none).append (wires pieces)).content.toList = wires pieces :=
    Sink.content_append _ _
  refine ⟨?_, ?_⟩
  · intro ⟨b, next, run, content⟩
    obtain ⟨sound, -, -, rfl⟩ := writes.run_eq_ok_iff.1 run
    exact ⟨sound, content.symm.trans all⟩
  · intro ⟨sound, wire⟩
    exact ⟨a, _, writes.run_eq_ok_iff.2 ⟨sound, rfl, rfl, rfl⟩, all.trans wire.symm⟩

end Writer

/-- The bytes of a value. -/
def Value.toBytes (v : Value) : Except WireError (List UInt8) :=
  match (Writer.value v).run (.empty none) with
  | .ok _ sink => .ok sink.content.toList
  | .error cause _ => .error cause

/-- A value has bytes exactly if its pieces are sound, and they are those of the pieces. -/
lemma Value.toBytes_eq_ok_iff {v : Value} {bytes : List UInt8} :
    v.toBytes = .ok bytes ↔ Piece.Sound v.pieces ∧ bytes = Piece.wires v.pieces := by
  rw [← (Writer.value_writes v).run_empty_eq_ok_iff, toBytes]
  split
  next run => simp [run]
  next run => simp [run]

/-- An element has bytes exactly if its pieces are sound, and they are those of the pieces. -/
lemma Element.toBytes_eq_ok_iff {e : Element} {bytes : List UInt8} :
    e.toBytes = .ok bytes ↔ Piece.Sound e.pieces ∧ bytes = Piece.wires e.pieces := by
  rw [← (Writer.element_writes e).run_empty_eq_ok_iff, toBytes]
  split
  next run => simp [run]
  next run => simp [run]

end AddressCodec
