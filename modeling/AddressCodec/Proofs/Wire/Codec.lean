import AddressCodec.Proofs.Wire.Reading
import AddressCodec.Proofs.Wire.Writing

/-!
# Reading inverts writing

At any place of any buffer a reader finds exactly the elements whose bytes stand there, and stops
behind them; a writer tells how many bytes these are (`reading_inverts_writing`). A byte list is
read as an element exactly if it is the bytes of that element (`Element.ofBytes_eq_ok_iff`).
-/

namespace AddressCodec

/-- The cursor at a position of a buffer. -/
def Cursor.ofBuffer (buffer : List UInt8) (limit : Option Nat) (position : Nat) : Cursor :=
  ⟨buffer.drop position, position, limit⟩

/-- The bytes of a buffer between two positions. -/
def slice (buffer : List UInt8) (p q : Nat) : List UInt8 :=
  (buffer.take q).drop p

/-- What a cursor over a buffer passes is a slice of the buffer. -/
lemma Cursor.passes_ofBuffer_iff {buffer bytes : List UInt8} {limit : Option Nat} {p : Nat}
    {next : Cursor} : (ofBuffer buffer limit p).Passes bytes next ↔
      ∃ q, next = ofBuffer buffer limit q ∧ q = p + bytes.length ∧ slice buffer p q = bytes ∧
        ∀ l ∈ limit, q ≤ l := by
  refine ⟨?_, ?_⟩
  · intro passes
    have stop : next = ofBuffer buffer limit (p + bytes.length) := by
      rw [passes.eq_advance, advance, ofBuffer, ofBuffer, List.drop_drop]
    refine ⟨p + bytes.length, stop, rfl, ?_, ?_⟩
    · have rest : buffer.drop p = bytes ++ next.rest := passes.rest
      rw [slice, List.drop_take, rest, Nat.add_sub_cancel_left, List.take_left]
    · have within := passes.within
      rw [stop] at within
      exact within
  · rintro ⟨q, stop, size, found, within⟩
    rw [stop]
    refine ⟨?_, size, rfl, within⟩
    show buffer.drop p = bytes ++ buffer.drop q
    rw [← found, slice, List.drop_take, size, Nat.add_sub_cancel_left, ← List.drop_drop,
      List.take_append_drop]

/-- The bytes of a value are what a value is read from. -/
lemma Value.toBytes_eq_ok_iff_spells {v : Value} {bytes : List UInt8} :
    v.toBytes = .ok bytes ↔ v.Spells bytes :=
  toBytes_eq_ok_iff

/-- The bytes of an element without repeated keys are what an element is read from. -/
lemma Element.spells_iff {e : Element} {bytes : List UInt8} :
    e.Spells bytes ↔ e.DistinctKeys ∧ e.toBytes = .ok bytes := by
  rw [toBytes_eq_ok_iff, Spells]
  exact and_left_comm

/-- The bytes of a value are as many as its size says. -/
lemma Value.Spells.length_eq {v : Value} {bytes : List UInt8} (spells : v.Spells bytes) :
    bytes.length = v.encodedSize := by
  rw [spells.2, length_wires]

/-- The bytes of an element are as many as its size says. -/
lemma Element.Spells.length_eq {e : Element} {bytes : List UInt8} (spells : e.Spells bytes) :
    bytes.length = e.encodedSize := by
  rw [spells.2.2, length_wires]

/-- From the start of bytes that are read up to their end, an element is read exactly if they are
its bytes and the limit is not passed. -/
lemma Reader.element_run_start_eq_ok_iff {bytes : List UInt8} {limit : Option Nat} {e : Element} :
    (∃ next, element.run (.start bytes limit) = .ok e next ∧ next.remaining = 0) ↔
      e.DistinctKeys ∧ e.toBytes = .ok bytes ∧ ∀ l ∈ limit, bytes.length ≤ l := by
  rw [← and_assoc, ← Element.spells_iff]
  refine ⟨?_, ?_⟩
  · rintro ⟨next, run, done⟩
    obtain ⟨read, spelled, passes⟩ := element_run_eq_ok_iff.1 run
    have nothing : next.rest = [] := List.eq_nil_of_length_eq_zero done
    have all : bytes = read := by
      have rest : bytes = read ++ next.rest := passes.rest
      rw [rest, nothing, List.append_nil]
    have within := passes.within
    rw [Cursor.Within, passes.limit, passes.position, ← all] at within
    refine ⟨all ▸ spelled, fun l h => ?_⟩
    exact Nat.le_of_add_left_le (within l h)
  · rintro ⟨spelled, within⟩
    refine ⟨⟨[], bytes.length, limit⟩, ?_, rfl⟩
    refine element_run_eq_ok_iff.2 ⟨bytes, spelled, ?_, ?_, rfl, within⟩
    · exact (List.append_nil _).symm
    · exact (Nat.zero_add _).symm

/-- A byte list is read as an element exactly if it is the bytes of that element. -/
lemma Element.ofBytes_eq_ok_iff {bytes : List UInt8} {e : Element} :
    ofBytes bytes = .ok e ↔ e.DistinctKeys ∧ e.toBytes = .ok bytes := by
  have whole : ofBytes bytes = .ok e ↔
      ∃ next, Reader.element.run (.start bytes none) = .ok e next ∧ next.remaining = 0 := by
    rw [ofBytes]
    cases Reader.element.run (.start bytes none) with
    | error cause next => simp
    | ok found next =>
      by_cases done : next.remaining = 0
      · simp [done]
      · simp [done]
  rw [whole, Reader.element_run_start_eq_ok_iff]
  simp

/-- Over a buffer, what an exact reader passes is the slice up to where it stops. -/
lemma Reader.run_ofBuffer_eq_ok_iff {α : Type} {step : Reader α} {a : α} {size : Nat}
    {Form : List UInt8 → Prop}
    (exact_step : ∀ c next, step.run c = .ok a next ↔ ∃ bytes, Form bytes ∧ c.Passes bytes next)
    (length : ∀ bytes, Form bytes → bytes.length = size) {buffer : List UInt8}
    {limit : Option Nat} {p : Nat} {next : Cursor} :
    step.run (.ofBuffer buffer limit p) = .ok a next ↔
      ∃ q, next = .ofBuffer buffer limit q ∧ Form (slice buffer p q) ∧ q = p + size ∧
        ∀ l ∈ limit, q ≤ l := by
  rw [exact_step]
  refine ⟨?_, ?_⟩
  · intro ⟨bytes, form, passes⟩
    obtain ⟨q, stop, behind, found, within⟩ := Cursor.passes_ofBuffer_iff.1 passes
    rw [length bytes form] at behind
    exact ⟨q, stop, found.symm ▸ form, behind, within⟩
  · intro ⟨q, stop, form, behind, within⟩
    rw [← length _ form] at behind
    exact ⟨_, form, Cursor.passes_ofBuffer_iff.2 ⟨q, stop, behind, rfl, within⟩⟩

/-- A writer that ends well has written as many bytes as it says. -/
lemma Writer.Writes.run_eq_ok_iff_wires {step : Writer Nat} {pieces : List Piece} {size n : Nat}
    {sink next : Sink} (writes : Writer.Writes step pieces size)
    (length : (Piece.wires pieces).length = size) :
    step.run sink = .ok n next ↔
      ∃ bytes, (Piece.Sound pieces ∧ bytes = Piece.wires pieces) ∧ sink.Takes bytes ∧
        next = sink.append bytes ∧ n = bytes.length ∧ n = size := by
  rw [writes.run_eq_ok_iff]
  refine ⟨?_, ?_⟩
  · intro ⟨sound, takes, same, stop⟩
    exact ⟨_, ⟨sound, rfl⟩, takes, stop, same.trans length.symm, same⟩
  · intro ⟨bytes, ⟨sound, wire⟩, takes, stop, _, same⟩
    rw [wire] at takes stop
    exact ⟨sound, takes, same, stop⟩

/-- A reader over a buffer yields an element, or a value, exactly if the bytes that a writer gives
for it stand at its position and end within the limit; it stops behind them. Of elements it yields
only those without repeated keys. A writer ends well exactly if there is room for all these bytes,
and gives back how many they are. -/
theorem reading_inverts_writing :
    (∀ (buffer : List UInt8) (limit : Option Nat) (p : Nat) (e : Element) (next : Cursor),
      Reader.element.run (.ofBuffer buffer limit p) = .ok e next ↔
        ∃ q, next = .ofBuffer buffer limit q ∧ e.DistinctKeys ∧ e.toBytes = .ok (slice buffer p q) ∧
          q = p + e.encodedSize ∧ ∀ l ∈ limit, q ≤ l) ∧
    (∀ (buffer : List UInt8) (limit : Option Nat) (p : Nat) (v : Value) (next : Cursor),
      Reader.value.run (.ofBuffer buffer limit p) = .ok v next ↔
        ∃ q, next = .ofBuffer buffer limit q ∧ v.toBytes = .ok (slice buffer p q) ∧
          q = p + v.encodedSize ∧ ∀ l ∈ limit, q ≤ l) ∧
    (∀ (bytes : List UInt8) (e : Element),
      Element.ofBytes bytes = .ok e ↔ e.DistinctKeys ∧ e.toBytes = .ok bytes) ∧
    (∀ (e : Element) (sink next : Sink) (n : Nat),
      (Writer.element e).run sink = .ok n next ↔
        ∃ bytes, e.toBytes = .ok bytes ∧ sink.Takes bytes ∧ next = sink.append bytes ∧
          n = bytes.length ∧ n = e.encodedSize) ∧
    (∀ (v : Value) (sink next : Sink) (n : Nat),
      (Writer.value v).run sink = .ok n next ↔
        ∃ bytes, v.toBytes = .ok bytes ∧ sink.Takes bytes ∧ next = sink.append bytes ∧
          n = bytes.length ∧ n = v.encodedSize) := by
  refine ⟨?_, ?_, fun bytes e => Element.ofBytes_eq_ok_iff, ?_, ?_⟩
  · intro buffer limit p e next
    rw [Reader.run_ofBuffer_eq_ok_iff (fun c next => Reader.element_run_eq_ok_iff)
      fun bytes spelled => spelled.length_eq]
    simp only [Element.spells_iff, and_assoc]
  · intro buffer limit p v next
    rw [Reader.run_ofBuffer_eq_ok_iff (fun c next => Reader.value_run_eq_ok_iff)
      fun bytes spelled => spelled.length_eq]
    simp only [Value.toBytes_eq_ok_iff_spells]
  · intro e sink next n
    rw [(Writer.element_writes e).run_eq_ok_iff_wires e.length_wires]
    simp only [Element.toBytes_eq_ok_iff]
  · intro v sink next n
    rw [(Writer.value_writes v).run_eq_ok_iff_wires v.length_wires]
    simp only [Value.toBytes_eq_ok_iff]

end AddressCodec
