import AddressCodec.Proofs.Wire.Codec
import AddressCodec.Proofs.Wire.ReadSession
import AddressCodec.Proofs.Wire.Violations

/-!
# Faults of encodings

What a reader of trees reports, exactly: a fault of the bytes (`Reader.Fault`), or that the limit is
passed, by as many bytes as the longest string has and no more (`element_run_error`). Each fault is
that of some bytes (`Fault.exists_buffer`), and the limit is passed by each number of bytes in that
range (`exists_buffer_over`).
-/

namespace AddressCodec

/-- The tags of nodes are the bytes below 3. -/
lemma Element.Kind.ofTag?_eq_none_iff {t : UInt8} : ofTag? t = none ↔ 3 ≤ t := by
  rw [ofTag?, List.find?_eq_none]
  simp only [all, tag, List.forall_mem_cons, beq_iff_eq]
  grind

/-- The tags of values are the bytes below 8. -/
lemma Value.Kind.ofTag?_eq_none_iff {t : UInt8} : ofTag? t = none ↔ 8 ≤ t := by
  rw [ofTag?, List.find?_eq_none]
  simp only [all, tag, List.forall_mem_cons, beq_iff_eq]
  grind

/-- A value takes its tag, a length and the longest text at most. -/
lemma Value.Spells.length_le {v : Value} {bytes : List UInt8} (spells : v.Spells bytes) :
    bytes.length ≤ 257 := by
  rw [spells.length_eq, Value.encodedSize]
  cases v with
  | bool b => exact Nat.le_of_ble_eq_true rfl
  | string s =>
    have short := (Piece.sound_cons.1 (Piece.sound_cons.1 spells.1).2).1
    rw [Piece.fault?_textLength, Utf8.length_encode] at short
    show 1 + (1 + s.utf8ByteSize) ≤ 257
    have : Writer.maxLength = 255 := rfl
    omega
  | uint w n => cases w <;> exact Nat.le_of_ble_eq_true rfl
  | hash h => exact Nat.le_of_ble_eq_true rfl

namespace Reader

variable {α β : Type}

/-- What can be wrong with bytes that are read as a tree. -/
inductive Fault : WireError → Prop
  | elementKind {tag : UInt8} : 3 ≤ tag → Fault (.unknownElementKind tag)
  | valueKind {tag : UInt8} : 8 ≤ tag → Fault (.unknownValueKind tag)
  | bool {b : UInt8} : 2 ≤ b → Fault (.invalidBool b)
  | ended : Fault .unexpectedEnd
  | stringLength {length remaining : Nat} : remaining < length → length ≤ 255 →
      Fault (.invalidStringLength length remaining)
  | string : Fault .invalidString
  | key {key : Value} {bytes : List UInt8} : key.toBytes = .ok bytes → Fault (.duplicateKey key)

/-- The limit is said to be passed by what a string takes at most, from where the reader stopped. -/
def Overrun (stop : Cursor) (cause : WireError) : Prop :=
  ∃ size l, cause = .sizeLimit size l ∧ size ≤ stop.position + 255

/-- A step fails for a fault of the bytes or for the limit only. -/
def Faulty (step : Reader α) : Prop :=
  ∀ c cause stop, step.run c = .error cause stop → Fault cause ∨ Overrun stop cause

lemma faulty_pure (a : α) : Faulty (pure a) :=
  fun _ _ _ => nofun

lemma faulty_throw {cause : WireError} (fault : Fault cause) : Faulty (throw cause : Reader α) := by
  intro c _ _ failed
  cases failed
  exact .inl fault

/-- Of a step that follows, only runs from results of the first one count. -/
lemma Faulty.bind_of_run {step : Reader α} {next : α → Reader β} (first : Faulty step)
    (second : ∀ a c mid, step.run c = .ok a mid → Faulty (next a)) : Faulty (step >>= next) := by
  intro c cause stop failed
  rw [EStateM.run_bind] at failed
  cases run : step.run c with
  | error cause' stop' =>
    rw [run] at failed
    cases failed
    exact first c cause stop run
  | ok a mid =>
    rw [run] at failed
    exact second a c mid run mid cause stop failed

/-- Taking a few bytes fails for the limit, or for the fault that too few of them are. -/
lemma faulty_taking {count : Nat} {cause : Cursor → WireError} (few : count ≤ 255)
    (fault : ∀ c : Cursor, c.remaining < count → Fault (cause c)) :
    Faulty (taking count cause) := by
  intro c _ _ failed
  rcases taking_run_cases count cause c with
    ⟨-, -, run⟩ | ⟨l, limited, passed, run⟩ | ⟨-, short, run⟩
  · rw [run] at failed
    cases failed
  · rw [run] at failed
    cases failed
    exact .inr ⟨_, l, rfl, Nat.add_le_add_left few _⟩
  · rw [run] at failed
    cases failed
    exact .inl (fault c short)

/-- A key that is repeated has been read, so it has an encoding. -/
lemma related_faulty :
    Related (fun key => ∃ bytes, key.toBytes = .ok bytes) .plain .plain
      fun _ step _ => Faulty step := by
  have steps : RelatedSteps (fun key => ∃ bytes, key.toBytes = .ok bytes) .plain .plain
      fun _ step _ => Faulty step :=
    { pure := faulty_pure
      bind := fun first second => first.bind_of_run fun a _ _ _ => second a
      bytes := by
        intro count few
        show Faulty (bytes count)
        rw [bytes_eq]
        exact faulty_taking (Nat.le_trans few (by decide)) fun _ _ => .ended
      text := fun b =>
        faulty_taking (Nat.le_of_lt_succ b.toNat_lt) fun _ short =>
          .stringLength short (Nat.le_of_lt_succ b.toNat_lt)
      refuse := by
        intro α cause refusal
        refine faulty_throw ?_
        cases refusal with
        | elementKind unknown => exact .elementKind (Element.Kind.ofTag?_eq_none_iff.1 unknown)
        | valueKind unknown => exact .valueKind (Value.Kind.ofTag?_eq_none_iff.1 unknown)
        | bool zero one => exact .bool (by grind)
        | string => exact .string
        | key known =>
          obtain ⟨bytes, written⟩ := known
          exact .key written
        | depth => exact .ended }
  -- Only here the run is needed: a key that is refused has been read from its bytes.
  refine { toRelatedSteps := steps, keyed := ?_ }
  intro β next _ following
  refine steps.value.bind_of_run fun key c mid run => following key ?_
  rw [Primitives.value_plain] at run
  obtain ⟨bytes, spelled, -⟩ := value_run_eq_ok_iff.1 run
  exact ⟨bytes, Value.toBytes_eq_ok_iff_spells.2 spelled⟩

/-- A reader of trees fails for a fault of the bytes, or because the limit is passed, by 255 bytes
at most. -/
lemma element_run_error {c stop : Cursor} {cause : WireError} (within : c.Within)
    (failed : element.run c = .error cause stop) :
    Fault cause ∨ ∃ l size, c.limit = some l ∧ cause = .sizeLimit size l ∧ l < size ∧
      size ≤ l + 255 := by
  have faulty := related_faulty.elementWithin c.remaining c cause stop
  rw [Primitives.elementWithin_plain] at faulty
  refine (faulty failed).imp_right ?_
  rintro ⟨size, l, rfl, near⟩
  -- Where a reader stops, the limit is not passed yet, so it is by the last step's bytes only.
  have ends := guarded_element c within
  rw [failed] at ends
  obtain ⟨reaches, limited, passed⟩ := ends
  refine ⟨l, size, reaches.limit_eq ▸ limited, rfl, passed, Nat.le_trans near ?_⟩
  exact Nat.add_le_add_right (reaches.within l limited) 255

section Runs

variable {rest : List UInt8} {p : Nat} {limit : Option Nat} {stop : Cursor} {cause : WireError}

/-- A byte within the limit is passed, and what follows goes on with it. -/
lemma byte_bind_run {b : UInt8} (inside : ∀ l ∈ limit, p + 1 ≤ l) (next : UInt8 → Reader β) :
    (byte >>= next).run ⟨b :: rest, p, limit⟩ = (next b).run ⟨rest, p + 1, limit⟩ := by
  show (byte >>= next).run ⟨[b] ++ rest, p, limit⟩ = _
  exact exact_byte.run_bind rfl (Nat.le_refl _) inside next

/-- A tag within the limit is passed, and what follows is read as its node. -/
lemma element_run_cons {tag : UInt8} (inside : ∀ l ∈ limit, p + 1 ≤ l) :
    element.run ⟨tag :: rest, p, limit⟩ =
      (node (elementWithin rest.length) tag).run ⟨rest, p + 1, limit⟩ :=
  byte_bind_run inside _

/-- A sequence of steps fails where its first step does. -/
lemma bind_run_error {step : Reader α} {c : Cursor} (failed : step.run c = .error cause stop)
    (next : α → Reader β) : (step >>= next).run c = .error cause stop := by
  rw [EStateM.run_bind, failed]

/-- A function of what is read fails where the reading does. -/
lemma map_run_error {f : α → β} {step : Reader α} {c : Cursor}
    (failed : step.run c = .error cause stop) : (f <$> step).run c = .error cause stop := by
  rw [map_eq_pure_bind]
  exact bind_run_error failed _

/-- The tag of a type is passed within the limit, and what follows is read as its payload. -/
lemma value_run_cons {tag : UInt8} (kind : Value.Kind)
    (known : Value.Kind.ofTag? tag = some kind) (inside : ∀ l ∈ limit, p + 1 ≤ l) :
    value.run ⟨tag :: rest, p, limit⟩ = (payload kind).run ⟨rest, p + 1, limit⟩ := by
  rw [value, byte_bind_run inside, known]

/-- Bytes that are not all there, with the limit behind them, are reported as missing. -/
lemma taking_run_short {count : Nat} {cause : Cursor → WireError} {c : Cursor}
    (inside : ∀ l ∈ c.limit, c.position + count ≤ l) (short : c.remaining < count) :
    (taking count cause).run c = .error (cause c) c := by
  rcases taking_run_cases count cause c with ⟨-, enough, -⟩ | ⟨l, limited, passed, -⟩ | ⟨-, -, run⟩
  · exact absurd enough (Nat.not_le_of_lt short)
  · exact absurd (inside l limited) (Nat.not_le_of_lt passed)
  · exact run

/-- Bytes that end behind the limit are reported as passing it, there or not. -/
lemma taking_run_over {count l : Nat} {cause : Cursor → WireError} {c : Cursor}
    (limited : c.limit = some l) (passed : l < c.position + count) :
    (taking count cause).run c = .error (.sizeLimit (c.position + count) l) c := by
  rcases taking_run_cases count cause c with
    ⟨inside, -, -⟩ | ⟨l', limited', -, run⟩ | ⟨inside, -, -⟩
  · exact absurd (inside l limited) (Nat.not_le_of_lt passed)
  · rw [limited] at limited'
    cases limited'
    exact run
  · exact absurd (inside l limited) (Nat.not_le_of_lt passed)

/-- A string fails behind its length byte where its bytes cannot be taken. -/
lemma string_run_error {b : UInt8} (inside : ∀ l ∈ limit, p + 1 ≤ l)
    (failed : (taking b.toNat fun c => .invalidStringLength b.toNat c.remaining).run
      ⟨rest, p + 1, limit⟩ = .error cause stop) :
    string.run ⟨b :: rest, p, limit⟩ = .error cause stop := by
  rw [string_eq, byte_bind_run inside, EStateM.run_bind, failed]

/-- A string that is announced by a tag and a length fails as its text does. -/
lemma value_run_string {b : UInt8} (inside : ∀ l ∈ limit, p + 2 ≤ l)
    (failed : (taking b.toNat fun c => .invalidStringLength b.toNat c.remaining).run
      ⟨rest, p + 2, limit⟩ = .error cause stop) :
    value.run ⟨1 :: b :: rest, p, limit⟩ = .error cause stop := by
  rw [value_run_cons .string rfl fun l h => Nat.le_of_succ_le (inside l h)]
  exact map_run_error (string_run_error inside failed)

/-- Behind a key and its element the check for a repeated key comes. -/
lemma entries_run_append {key : Value} {e : Element} {bytes more : List UInt8} {depth : Nat}
    (spelled : key.Spells bytes) (item : e.Spells more)
    (left : (bytes ++ (more ++ rest)).length ≤ depth)
    (inside : ∀ l ∈ limit, p + bytes.length + more.length ≤ l) (count : Nat)
    (before : List (Value × Element)) :
    (entries (elementWithin depth) (count + 1) before).run ⟨bytes ++ (more ++ rest), p, limit⟩ =
      (if (before.map Prod.fst).contains key then throw (.duplicateKey key)
        else entries (elementWithin depth) count (before ++ [(key, e)])).run
        ⟨rest, p + bytes.length + more.length, limit⟩ := by
  rw [entries_succ,
    exact_value.run_bind spelled left fun l h => Nat.le_of_add_right_le (inside l h)]
  refine (exact_elementWithin depth).run_bind item ?_ inside _
  exact Nat.le_trans (List.sublist_append_right bytes _).length_le left

/-- A key that comes twice, with an element of three bytes each time. -/
lemma element_run_twice {key : Value} {bytes : List UInt8} (spelled : key.Spells bytes) :
    element.run
        (.start (2 :: 2 :: (bytes ++ ([0, 0, 0] ++ (bytes ++ ([0, 0, 0] ++ []))))) (some 1024))
      = .error (.duplicateKey key) ⟨[], 2 + bytes.length + 3 + bytes.length + 3, some 1024⟩ := by
  have size := spelled.length_le
  have item : (Element.value (.bool false)).Spells [0, 0, 0] := Element.spells_iff.2 ⟨trivial, rfl⟩
  have inside (p : Nat) (le : p ≤ bytes.length + 8) :
      ∀ l ∈ some 1024, p + bytes.length + 3 ≤ l := by
    rintro _ ⟨⟩
    omega
  rw [Cursor.start, element_run_cons (by simp)]
  let tail := bytes ++ ([0, 0, 0] ++ (bytes ++ ([0, 0, 0] ++ [])))
  let below := elementWithin (2 :: tail).length
  show (byte >>= fun count => Element.fields <$> entries below count.toNat []).run _ = _
  rw [byte_bind_run (by simp)]
  apply map_run_error
  refine (entries_run_append spelled item (Nat.le_succ _) (inside 2 (by omega)) 1 []).trans ?_
  -- The first time the key is new; the second time it is found behind its element.
  have behind := inside (2 + bytes.length + 3) (by omega)
  refine (entries_run_append spelled item ?_ behind 0 _).trans ?_
  · simp only [List.length_cons, List.length_append]
    omega
  · rw [if_pos (by simp)]
    rfl

end Runs

/-- Each fault is that of some bytes. -/
lemma Fault.exists_buffer {cause : WireError} (fault : Fault cause) :
    ∃ buffer stop, element.run (.start buffer (some 1024)) = .error cause stop := by
  cases fault with
  | @elementKind tag unknown =>
    refine ⟨[tag], ⟨[], 1, some 1024⟩, ?_⟩
    rw [Cursor.start, element_run_cons (by simp), node, Element.Kind.ofTag?_eq_none_iff.2 unknown]
    rfl
  | @valueKind tag unknown =>
    refine ⟨[0, tag], ⟨[], 2, some 1024⟩, ?_⟩
    rw [Cursor.start, element_run_cons (by simp)]
    apply map_run_error
    rw [Reader.value, byte_bind_run (by simp), Value.Kind.ofTag?_eq_none_iff.2 unknown]
    rfl
  | @bool b other =>
    have zero : b ≠ 0 := by grind
    have one : b ≠ 1 := by grind
    refine ⟨[0, 0, b], ⟨[], 3, some 1024⟩, ?_⟩
    rw [Cursor.start, element_run_cons (by simp)]
    apply map_run_error
    rw [value_run_cons .bool rfl (by simp)]
    apply map_run_error
    rw [Reader.bool, byte_bind_run (by simp), if_neg zero, if_neg one]
    rfl
  | ended => exact ⟨[], .start [] (some 1024), rfl⟩
  | @stringLength length remaining short small =>
    have back : (UInt8.ofNat length).toNat = length :=
      UInt8.toNat_ofNat_of_lt' (Nat.lt_succ_of_le small)
    refine ⟨0 :: 1 :: UInt8.ofNat length :: List.replicate remaining 0,
      ⟨List.replicate remaining 0, 3, some 1024⟩, ?_⟩
    rw [Cursor.start, element_run_cons (by simp)]
    apply map_run_error
    refine value_run_string (by simp) ?_
    rw [back]
    have left : (⟨List.replicate remaining 0, 3, some 1024⟩ : Cursor).remaining = remaining :=
      List.length_replicate
    have inside : ∀ l ∈ some 1024, 3 + length ≤ l := by
      rintro _ ⟨⟩
      omega
    rw [taking_run_short inside (left.symm ▸ short), left]
  | string => exact ⟨[0, 1, 1, 255], ⟨[], 4, some 1024⟩, by rfl⟩
  | key written => exact ⟨_, _, element_run_twice (Value.toBytes_eq_ok_iff_spells.1 written)⟩

/-- Behind an element that leaves no more room than for the length of a string, the string passes
the limit by as much as it takes. -/
lemma element_run_over {filler : Element} {bytes : List UInt8} {limit : Nat} {b : UInt8}
    (item : filler.Spells bytes) (full : bytes.length + 5 = limit) (pos : 0 < b.toNat) :
    element.run (.start (1 :: 2 :: (bytes ++ [0, 1, b])) (some limit)) =
      .error (.sizeLimit (limit + b.toNat) limit) ⟨[], limit, some limit⟩ := by
  have inside (p : Nat) (le : p ≤ bytes.length + 5) : ∀ l ∈ some limit, p ≤ l := by
    rintro _ ⟨⟩
    omega
  rw [Cursor.start, element_run_cons (inside 1 (by omega))]
  let below := elementWithin (2 :: (bytes ++ [0, 1, b])).length
  show (byte >>= fun count => Element.array <$> times below count.toNat).run _ = _
  rw [byte_bind_run (inside 2 (by omega))]
  apply map_run_error
  show (below >>= fun e => _).run _ = _
  refine ((exact_elementWithin _).run_bind item (Nat.le_succ _) (inside _ (by omega)) _).trans ?_
  have text : below.run ⟨[0, 1, b], 2 + bytes.length, some limit⟩ =
      .error (.sizeLimit (limit + b.toNat) limit) ⟨[], limit, some limit⟩ := by
    show (byte >>= node _).run _ = _
    rw [byte_bind_run (inside _ (by omega))]
    apply map_run_error
    refine value_run_string (inside _ (by omega)) ?_
    have place : 2 + bytes.length + 1 + 2 = limit := by omega
    rw [place]
    exact taking_run_over rfl (Nat.lt_add_of_pos_right pos)
  exact bind_run_error (bind_run_error text _) _

/-- Four texts that leave five bytes of room. -/
def filler : Element :=
  .array ([255, 255, 255, 240].map fun count =>
    .value (.string (String.ofList (List.replicate count 's'))))

/-- The limit is passed by each number of bytes that a string takes. -/
lemma exists_buffer_over {size : Nat} (beyond : 1024 < size) (near : size ≤ 1279) :
    ∃ buffer stop,
      element.run (.start buffer (some 1024)) = .error (.sizeLimit size 1024) stop := by
  have kept : filler.violations = [] := by decide +kernel
  have length : filler.encodedSize = 1019 := by decide +kernel
  have item : filler.Spells (Piece.wires filler.pieces) :=
    Element.spells_iff.2 ⟨⟨trivial, trivial, trivial, trivial, trivial⟩, Element.toBytes_eq_ok kept⟩
  have back : (UInt8.ofNat (size - 1024)).toNat = size - 1024 :=
    UInt8.toNat_ofNat_of_lt'
      (Nat.sub_lt_left_of_lt_add (Nat.le_of_lt beyond) (Nat.lt_succ_of_le near))
  have full : (Piece.wires filler.pieces).length + 5 = 1024 := by rw [item.length_eq, length]
  have run := element_run_over item full (b := UInt8.ofNat (size - 1024)) (by omega)
  rw [back, Nat.add_sub_cancel' (Nat.le_of_lt beyond)] at run
  exact ⟨_, _, run⟩

end Reader

end AddressCodec
