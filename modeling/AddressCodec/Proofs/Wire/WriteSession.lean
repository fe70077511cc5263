import AddressCodec.Proofs.Wire.Writing

/-!
# Sessions of a writer

A request offers the same bytes to every sink: the whole encoding, or what stands in front of the
first length or count that is too large, its tag included (`WriteRequest.offered_eq`,
`Piece.Tagged.exists_fault`). A sink keeps the part that it has room for. So a sink of some capacity
always holds the front of all that was offered to it, and once a write did not fit, no later one
changes it (`Writer.sessions_fill_the_sink`).
-/

namespace AddressCodec

/-! ## Where an encoding stops -/

namespace Piece

/-- The bytes that announce what has a length or a count. -/
def tags : Piece → List UInt8
  | raw _ => []
  | textLength _ => [Value.Kind.string.tag]
  | count _ => [Element.Kind.array.tag, Element.Kind.fields.tag]

/-- Pieces in which every length and every count stands right behind a tag that announces it. -/
inductive Tagged : List Piece → Prop
  | nil : Tagged []
  | raw {pieces : List Piece} (bytes : List UInt8) :
      Tagged pieces → Tagged (raw bytes :: pieces)
  | counted {pieces : List Piece} {piece : Piece} {tag : UInt8} :
      tag ∈ piece.tags → Tagged pieces → Tagged (.raw [tag] :: piece :: pieces)

/-- Tagged pieces behind tagged pieces are tagged. -/
lemma Tagged.append {pieces more : List Piece} (first : Tagged pieces) (second : Tagged more) :
    Tagged (pieces ++ more) := by
  induction first with
  | nil => exact second
  | raw bytes _ ih => exact .raw bytes ih
  | counted announced _ ih => exact .counted announced ih

/-- Pieces that are not all sound have a first one that is not, right behind its tag. -/
lemma Tagged.exists_fault {pieces : List Piece} (tagged : Tagged pieces) (fault : ¬ Sound pieces) :
    ∃ front tag bad after cause, pieces = front ++ .raw [tag] :: bad :: after ∧ Sound front ∧
      tag ∈ bad.tags ∧ bad.fault? = some cause := by
  induction tagged with
  | nil => exact absurd sound_nil fault
  | raw bytes _ ih =>
    have later : ¬ Sound _ := fun sound => fault (sound_cons.2 ⟨fault?_raw bytes, sound⟩)
    obtain ⟨front, tag, bad, after, cause, split, sound, here⟩ := ih later
    refine ⟨.raw bytes :: front, tag, bad, after, cause, ?_, ?_, here⟩
    · exact congrArg (Piece.raw bytes :: ·) split
    · exact sound_cons.2 ⟨fault?_raw bytes, sound⟩
  | @counted pieces piece tag announced _ ih =>
    -- The first fault is here, with its tag in front of it, or among the pieces behind.
    cases first : piece.fault? with
    | some cause => exact ⟨[], tag, piece, pieces, cause, rfl, sound_nil, announced, first⟩
    | none =>
      have both {more : List Piece} (sound : Sound more) : Sound (.raw [tag] :: piece :: more) :=
        sound_cons.2 ⟨fault?_raw [tag], sound_cons.2 ⟨first, sound⟩⟩
      have later : ¬ Sound pieces := fun sound => fault (both sound)
      obtain ⟨front, tag', bad, after, cause, split, sound, here⟩ := ih later
      refine ⟨.raw [tag] :: piece :: front, tag', bad, after, cause, ?_, both sound, here⟩
      exact congrArg (Piece.raw [tag] :: piece :: ·) split

/-- Writing stops in front of a piece that cannot be written. -/
lemma written_of_fault {front after : List Piece} {bad : Piece} {cause : WireError}
    (sound : Sound front) (fault : bad.fault? = some cause) :
    written (front ++ bad :: after) = wires front := by
  have stop : written (bad :: after) = [] := by
    rw [written, List.takeWhile_cons, fault]
    rfl
  rw [written_append_of_sound sound, stop, List.append_nil]

/-- The first piece that cannot be written is the reason for the failure. -/
lemma verdict_of_fault {α : Type} {front after : List Piece} {bad : Piece} {cause : WireError}
    (sound : Sound front) (fault : bad.fault? = some cause) (a : α) :
    verdict (front ++ bad :: after) a = .error cause := by
  rw [verdict_append_of_sound sound, verdict, List.findSome?_cons, fault]

end Piece

open Piece in
/-- The pieces of a value are tagged. -/
lemma Value.tagged_pieces (v : Value) : Tagged v.pieces := by
  cases v with
  | bool b => exact .raw _ (.raw _ .nil)
  | string s => exact .counted List.mem_cons_self (.raw _ .nil)
  | uint w n => exact .raw _ (.raw _ .nil)
  | hash h => exact .raw _ (.raw _ .nil)

namespace Element
open Piece

mutual

/-- The pieces of an element are tagged. -/
lemma tagged_pieces : ∀ e : Element, Tagged e.pieces
  | value v => .raw _ v.tagged_pieces
  | array items => .counted List.mem_cons_self (tagged_itemPieces items)
  | fields entries =>
    .counted (List.mem_cons_of_mem _ List.mem_cons_self) (tagged_entryPieces entries)

/-- The pieces of items are tagged. -/
lemma tagged_itemPieces : ∀ items : List Element, Tagged (itemPieces items)
  | [] => .nil
  | e :: items => (tagged_pieces e).append (tagged_itemPieces items)

/-- The pieces of entries are tagged. -/
lemma tagged_entryPieces : ∀ entries : List (Value × Element), Tagged (entryPieces entries)
  | [] => .nil
  | (key, e) :: entries =>
    key.tagged_pieces.append ((tagged_pieces e).append (tagged_entryPieces entries))

end

end Element

/-! ## One request -/

namespace WriteRequest

/-- The pieces of what is to be written. -/
def pieces : WriteRequest → List Piece
  | element e => e.pieces
  | value v => v.pieces

/-- The size of what is to be written. -/
def encodedSize : WriteRequest → Nat
  | element e => e.encodedSize
  | value v => v.encodedSize

/-- What a sink without a capacity receives. -/
def offered (request : WriteRequest) : List UInt8 :=
  ((Sink.empty none).answer request).2.content.toList

/-- What is answered over a sink without a capacity. -/
def result (request : WriteRequest) : Except WireError Nat :=
  ((Sink.empty none).answer request).1

/-- The step that answers. -/
def writer : WriteRequest → Writer Nat
  | element e => Writer.element e
  | value v => Writer.value v

/-- A request is answered by writing its pieces. -/
lemma writer_writes (request : WriteRequest) :
    Writer.Writes request.writer request.pieces request.encodedSize := by
  cases request with
  | element e => exact Writer.element_writes e
  | value v => exact Writer.value_writes v

/-- The pieces of a request are tagged. -/
lemma tagged_pieces (request : WriteRequest) : Piece.Tagged request.pieces := by
  cases request with
  | element e => exact e.tagged_pieces
  | value v => exact v.tagged_pieces

/-- The pieces of a request have as many bytes as its size says. -/
lemma length_wires (request : WriteRequest) :
    (Piece.wires request.pieces).length = request.encodedSize := by
  cases request with
  | element e => exact e.length_wires
  | value v => exact v.length_wires

/-- The first piece is a tag. -/
lemma exists_pieces_eq (request : WriteRequest) :
    ∃ tag rest, request.pieces = .raw [tag] :: rest := by
  cases request with
  | element e => cases e <;> exact ⟨_, _, rfl⟩
  | value v => exact ⟨_, _, rfl⟩

end WriteRequest

namespace Sink
open WriteRequest

/-- An answer is the outcome of the step that answers. -/
lemma answer_eq (sink : Sink) (request : WriteRequest) :
    sink.answer request = match request.writer.run sink with
      | .ok size next => (.ok size, next)
      | .error cause next => (.error cause, next) := by
  cases request <;> rfl

/-- A sink with room for what can be written takes it, and answers with the verdict on the pieces.
-/
lemma answer_of_takes {sink : Sink} {request : WriteRequest}
    (takes : sink.Takes (Piece.written request.pieces)) :
    sink.answer request = (Piece.verdict request.pieces request.encodedSize,
      sink.append (Piece.written request.pieces)) := by
  rw [answer_eq, (request.writer_writes sink).1 takes]
  cases Piece.verdict request.pieces request.encodedSize <;> rfl

/-- A sink without room for what can be written takes what fits, and answers that it is full. -/
lemma answer_of_not_takes {sink : Sink} {request : WriteRequest}
    (full : ¬ sink.Takes (Piece.written request.pieces)) :
    sink.answer request =
      (.error .sinkFull, sink.append (sink.fitting (Piece.written request.pieces))) := by
  rw [answer_eq, (request.writer_writes sink).2 full]

end Sink

namespace WriteRequest

/-- A sink without a capacity has room for everything. -/
lemma answer_empty (request : WriteRequest) :
    (Sink.empty none).answer request = (Piece.verdict request.pieces request.encodedSize,
      (Sink.empty none).append (Piece.written request.pieces)) := by
  have takes : (Sink.empty none).Takes (Piece.written request.pieces) := rfl
  exact Sink.answer_of_takes takes

/-- What a request offers is what can be written of its pieces. -/
lemma offered_eq (request : WriteRequest) : request.offered = Piece.written request.pieces := by
  rw [offered, answer_empty]
  exact Sink.content_append _ _

/-- What a request results in is the verdict on its pieces. -/
lemma result_eq (request : WriteRequest) :
    request.result = Piece.verdict request.pieces request.encodedSize := by
  rw [result, answer_empty]

/-- The tag in front is always offered. -/
lemma offered_ne_nil (request : WriteRequest) : request.offered ≠ [] := by
  obtain ⟨tag, rest, pieces⟩ := request.exists_pieces_eq
  have sound : Piece.Sound [.raw [tag]] := Piece.sound_cons.2 ⟨rfl, Piece.sound_nil⟩
  have first : Piece.written request.pieces = [tag] ++ Piece.written rest := by
    rw [pieces]
    exact Piece.written_append_of_sound sound rest
  rw [offered_eq, first]
  exact List.cons_ne_nil _ _

/-- What can be written is offered whole. -/
lemma of_result_eq_ok {request : WriteRequest} {n : Nat} (written : request.result = .ok n) :
    Piece.Sound request.pieces ∧ request.offered = Piece.wires request.pieces ∧
      n = request.encodedSize := by
  rw [result_eq] at written
  by_cases sound : Piece.Sound request.pieces
  · rw [Piece.verdict_of_sound sound] at written
    rw [offered_eq, Piece.written_of_sound sound]
    exact ⟨sound, rfl, (Except.ok.inj written).symm⟩
  · obtain ⟨cause, failed, -⟩ :=
      Piece.exists_verdict_of_not_sound sound request.encodedSize request.encodedSize
    rw [failed] at written
    cases written

/-- What cannot be written is offered up to the tag of the first text or collection that is too
large. -/
lemma of_result_eq_error {request : WriteRequest} {cause : WireError}
    (failed : request.result = .error cause) :
    ∃ front tag bad after, request.pieces = front ++ .raw [tag] :: bad :: after ∧
      Piece.Sound front ∧ tag ∈ bad.tags ∧ bad.fault? = some cause ∧
      request.offered = Piece.wires front ++ [tag] := by
  rw [result_eq] at failed
  by_cases sound : Piece.Sound request.pieces
  · rw [Piece.verdict_of_sound sound] at failed
    cases failed
  · obtain ⟨front, tag, bad, after, cause', split, soundFront, announced, fault⟩ :=
      request.tagged_pieces.exists_fault sound
    have soundTag : Piece.Sound (front ++ [.raw [tag]]) :=
      Piece.sound_append.2 ⟨soundFront, Piece.sound_cons.2 ⟨rfl, Piece.sound_nil⟩⟩
    have behind : request.pieces = (front ++ [.raw [tag]]) ++ bad :: after := by
      rw [split, List.append_assoc]
      rfl
    rw [behind, Piece.verdict_of_fault soundTag fault] at failed
    rw [offered_eq]
    refine ⟨front, tag, bad, after, split, soundFront, announced, ?_, ?_⟩
    · rw [fault, Except.error.inj failed]
    · rw [behind, Piece.written_of_fault soundTag fault, Piece.wires_append]
      rfl

/-- Room is never missing in a sink without a capacity. -/
lemma result_ne_sinkFull (request : WriteRequest) : request.result ≠ .error .sinkFull := by
  intro failed
  obtain ⟨_, _, bad, _, _, _, _, fault, _⟩ := of_result_eq_error failed
  cases bad with
  | raw bytes => cases fault
  | textLength n =>
    rw [Piece.fault?] at fault
    split at fault <;> cases fault
  | count n =>
    rw [Piece.fault?] at fault
    split at fault <;> cases fault

end WriteRequest

/-! ## Sinks of some capacity -/

namespace Sink

/-- What fits in a sink is the front of the bytes, up to its capacity. -/
lemma fitting_of_capacity {sink : Sink} {c : Nat} (limited : sink.capacity = some c)
    (bytes : List UInt8) : sink.fitting bytes = bytes.take (c - sink.content.size) := by
  rw [fitting, limited]

/-- Whether or not there is room for all that is offered, the part that fits is kept. -/
lemma answer_snd (sink : Sink) (request : WriteRequest) :
    (sink.answer request).2 = sink.append (sink.fitting request.offered) := by
  rw [request.offered_eq]
  by_cases takes : sink.Takes (Piece.written request.pieces)
  · rw [answer_of_takes takes, takes]
  · rw [answer_of_not_takes takes]

/-- A sink of some capacity takes all that is offered if there is room for it. -/
lemma answer_of_capacity {sink : Sink} {c : Nat} (limited : sink.capacity = some c)
    (request : WriteRequest) : sink.answer request =
      if request.offered.length ≤ c - sink.content.size
        then (request.result, sink.append request.offered)
        else (.error .sinkFull, sink.append (request.offered.take (c - sink.content.size))) := by
  rw [request.offered_eq, request.result_eq]
  by_cases room : (Piece.written request.pieces).length ≤ c - sink.content.size
  · have takes : sink.Takes (Piece.written request.pieces) := by
      rw [Takes, fitting_of_capacity limited, List.take_of_length_le room]
    rw [if_pos room, answer_of_takes takes]
  · have full : ¬ sink.Takes (Piece.written request.pieces) := by
      intro takes
      rw [Takes, fitting_of_capacity limited] at takes
      have length := congrArg List.length takes
      rw [List.length_take] at length
      omega
    rw [if_neg room, answer_of_not_takes full, fitting_of_capacity limited]

/-- The bytes that were offered to a sink of some capacity so far, as far as it has room for them,
are what it holds. -/
def Holds (sink : Sink) (c : Nat) (total : List UInt8) : Prop :=
  sink.capacity = some c ∧ sink.content.toList = total.take c

/-- An answer adds what the request offers to the bytes that were offered. -/
lemma Holds.answer {sink : Sink} {c : Nat} {total : List UInt8} (holds : sink.Holds c total)
    (request : WriteRequest) : (sink.answer request).2.Holds c (total ++ request.offered) := by
  obtain ⟨limited, content⟩ := holds
  rw [answer_snd]
  refine ⟨limited, ?_⟩
  have size : sink.content.size = min c total.length := by
    rw [← Array.length_toList, content, List.length_take]
  rw [content_append, content, fitting_of_capacity limited, size, List.take_append]
  refine congrArg (fun room => total.take c ++ request.offered.take room) ?_
  omega

/-- Only a sink without room is reported as one. -/
lemma not_room_of_sinkFull {sink : Sink} {c : Nat} (limited : sink.capacity = some c)
    {request : WriteRequest} (refused : (sink.answer request).1 = .error .sinkFull) :
    c - sink.content.size < request.offered.length := by
  rw [answer_of_capacity limited] at refused
  by_cases room : request.offered.length ≤ c - sink.content.size
  · rw [if_pos room] at refused
    exact absurd refused request.result_ne_sinkFull
  · exact Nat.lt_of_not_le room

/-- Behind a request that was refused for want of room there is no room at all. -/
lemma le_size_of_sinkFull {sink : Sink} {c : Nat} (limited : sink.capacity = some c)
    {request : WriteRequest} (refused : (sink.answer request).1 = .error .sinkFull) :
    c ≤ (sink.answer request).2.content.size := by
  have short := not_room_of_sinkFull limited refused
  rw [answer_snd, size_append, fitting_of_capacity limited, List.length_take]
  omega

/-- Where there is no room at all, nothing is written and this is reported. -/
lemma answer_of_full {sink : Sink} {c : Nat} (limited : sink.capacity = some c)
    (full : c ≤ sink.content.size) (request : WriteRequest) :
    sink.answer request = (.error .sinkFull, sink) := by
  have none : c - sink.content.size = 0 := Nat.sub_eq_zero_of_le full
  have some : ¬ request.offered.length ≤ 0 := by
    intro empty
    exact request.offered_ne_nil (List.eq_nil_of_length_eq_zero (Nat.le_zero.1 empty))
  rw [answer_of_capacity limited, none, if_neg some, List.take_zero, append_nil]

/-! ## Sessions -/

lemma length_session (sink : Sink) (requests : List WriteRequest) :
    (sink.session requests).length = requests.length := by
  induction requests generalizing sink with
  | nil => rfl
  | cons request requests ih => exact congrArg Nat.succ (ih _)

/-- A full sink stays as it is, and every later answer is that it is full. -/
lemma session_of_full {sink : Sink} {c : Nat} (limited : sink.capacity = some c)
    (full : c ≤ sink.content.size) (requests : List WriteRequest) :
    ∀ shown ∈ sink.session requests, shown = (.error .sinkFull, sink) := by
  induction requests with
  | nil => nofun
  | cons request requests ih =>
    rw [session, answer_of_full limited full]
    exact List.forall_mem_cons.2 ⟨rfl, ih⟩

/-- Once a request was refused for want of room, every later one is and changes nothing. -/
lemma pairwise_session {sink : Sink} {c : Nat} (limited : sink.capacity = some c)
    (requests : List WriteRequest) : (sink.session requests).Pairwise fun earlier later =>
      earlier.1 = .error .sinkFull → later = (.error .sinkFull, earlier.2) := by
  induction requests generalizing sink with
  | nil => exact .nil
  | cons request requests ih =>
    have same : (sink.answer request).2.capacity = some c := by
      rw [answer_snd]
      exact limited
    refine .cons ?_ (ih same)
    intro later mem refused
    exact session_of_full same (le_size_of_sinkFull limited refused) requests later mem

/-- Behind each answer of a session, a sink holds what the requests so far have offered, as far as
it has room. -/
lemma Holds.session {sink after : Sink} {c i : Nat} {total : List UInt8}
    {requests : List WriteRequest} {outcome : Except WireError Nat} (holds : sink.Holds c total)
    (shown : (sink.session requests)[i]? = some (outcome, after)) :
    after.Holds c (total ++ (requests.take (i + 1)).flatMap WriteRequest.offered) := by
  induction requests generalizing sink total i with
  | nil => cases shown
  | cons request requests ih =>
    have first := holds.answer request
    rw [List.take_succ_cons, List.flatMap_cons, ← List.append_assoc]
    cases i with
    | zero =>
      obtain rfl : (sink.answer request).2 = after := congrArg Prod.snd (Option.some.inj shown)
      rw [List.take_zero, List.flatMap_nil, List.append_nil]
      exact first
    | succ i => exact ih first shown

end Sink

/-- Let a request offer what a sink without a capacity receives. If it is answered with a number,
that is the whole encoding and the number is its size; if with an error, it is the encoding up to
the tag of the first text or collection that is too large, and the error tells of that one. A sink
of some capacity takes all that is offered and gives the same answer if there is room for it, and
else takes as much as there is room for and reports this. So in a session it holds the front of all
that was offered, and once a request was refused for want of room, all later ones are and change
nothing. -/
theorem Writer.sessions_fill_the_sink :
    (∀ request : WriteRequest,
      (∀ n, request.result = .ok n → Piece.Sound request.pieces ∧
        request.offered = Piece.wires request.pieces ∧ n = request.offered.length ∧
        n = request.encodedSize) ∧
      (∀ cause, request.result = .error cause →
        ∃ front tag bad after, request.pieces = front ++ .raw [tag] :: bad :: after ∧
          Piece.Sound front ∧ tag ∈ bad.tags ∧ bad.fault? = some cause ∧
          request.offered = Piece.wires front ++ [tag])) ∧
    (∀ (sink : Sink) (c : Nat) (request : WriteRequest), sink.capacity = some c →
      sink.answer request =
        if request.offered.length ≤ c - sink.content.size
          then (request.result, sink.append request.offered)
          else (.error .sinkFull, sink.append (request.offered.take (c - sink.content.size)))) ∧
    (∀ (c : Nat) (requests : List WriteRequest),
      let shown := (Sink.empty (some c)).session requests
      shown.length = requests.length ∧
      (∀ i outcome after, shown[i]? = some (outcome, after) → after.capacity = some c ∧
        after.content.toList = ((requests.take (i + 1)).flatMap WriteRequest.offered).take c) ∧
      shown.Pairwise fun earlier later =>
        earlier.1 = .error .sinkFull → later = (.error .sinkFull, earlier.2)) := by
  refine ⟨?_, ?_, ?_⟩
  · intro request
    refine ⟨?_, fun cause => WriteRequest.of_result_eq_error⟩
    intro n written
    obtain ⟨sound, offered, size⟩ := WriteRequest.of_result_eq_ok written
    refine ⟨sound, offered, ?_, size⟩
    rw [offered, request.length_wires]
    exact size
  · intro sink c request limited
    exact Sink.answer_of_capacity limited request
  · intro c requests shown
    have holds : (Sink.empty (some c)).Holds c [] := ⟨rfl, List.take_nil.symm⟩
    exact ⟨Sink.length_session _ requests, fun i outcome after => holds.session,
      Sink.pairwise_session rfl requests⟩

/-- An array whose second item has too many entries stops behind that item's tag; the next request
does not fit whole, and the third not at all. -/
theorem Writer.sessions_fill_the_sink_of_eight_bytes :
    let large : WriteRequest :=
      .element (.array [.value (.bool true), .array (List.replicate 256 (.array []))])
    let word : WriteRequest := .value (.uint .w32 7)
    large.result = .error (.tooManyElements 256) ∧ large.offered = [1, 2, 0, 0, 1, 1] ∧
    (Sink.empty (some 8)).session [large, word, word] =
      [(.error (.tooManyElements 256), ⟨#[1, 2, 0, 0, 1, 1], some 8⟩),
        (.error .sinkFull, ⟨#[1, 2, 0, 0, 1, 1, 4, 0], some 8⟩),
        (.error .sinkFull, ⟨#[1, 2, 0, 0, 1, 1, 4, 0], some 8⟩)] ∧
    ∃ front tag bad after, large.pieces = front ++ .raw [tag] :: bad :: after ∧
      Piece.Sound front ∧ tag ∈ bad.tags ∧ bad.fault? = some (.tooManyElements 256) ∧
      large.offered = Piece.wires front ++ [tag] := by
  intro large word
  have result : large.result = .error (.tooManyElements 256) := by decide +kernel
  refine ⟨result, by decide +kernel, by decide +kernel, ?_⟩
  exact (sessions_fill_the_sink.1 large).2 _ result

end AddressCodec
