import AddressCodec.Proofs.Wire.Primitives

/-!
# Sessions of a reader

A reader that is asked again and again, also after it has failed, never loses its place: what it has
passed and what is left make up the buffer, it moves forward only and never beyond the limit, and
every error is one of reading and true of the place where it stopped
(`Reader.sessions_keep_their_place`).

One step is guarded if it does so from any cursor within the limit (`Reader.Guarded`). Steps that
follow one another are if each of them is, and so are all readers (`Reader.related_guarded`); for a
session this is by induction on its requests.
-/

namespace AddressCodec

namespace Cursor

variable {α : Type} {c mid next : Cursor}

/-- A cursor lies at or behind another one in the same buffer, and within the limit. -/
def Reaches (c next : Cursor) : Prop :=
  ∃ bytes, c.Passes bytes next

/-- What an error says is true where the reader stopped; errors of writing, of the buffer itself, or
of bytes that are left over, are never true. -/
def Explains (c : Cursor) : WireError → Prop
  | .unknownElementKind tag => Element.Kind.ofTag? tag = none
  | .unknownValueKind tag => Value.Kind.ofTag? tag = none
  | .invalidBool b => b ≠ 0 ∧ b ≠ 1
  | .invalidStringLength length remaining => remaining = c.remaining ∧ remaining < length
  | .sizeLimit size limit => c.limit = some limit ∧ limit < size
  | .unexpectedEnd | .invalidString | .duplicateKey _ => True
  | .stringTooLong _ | .tooManyElements _ | .trailingBytes _ | .sinkFull => False

/-- A run from a cursor ends at or behind it, and if it fails, with a reason that is true there. -/
def Ends (c : Cursor) : EStateM.Result WireError Cursor α → Prop
  | .ok _ next => c.Reaches next
  | .error cause next => c.Reaches next ∧ next.Explains cause

/-- A cursor within the limit reaches itself. -/
lemma Reaches.refl (within : c.Within) : c.Reaches c :=
  ⟨[], (passes_nil_iff within).2 rfl⟩

/-- What is reached from a cursor that is reached is reached too. -/
lemma Reaches.trans (first : c.Reaches mid) (second : mid.Reaches next) : c.Reaches next := by
  obtain ⟨bytes, passes⟩ := first
  obtain ⟨more, passes'⟩ := second
  exact ⟨bytes ++ more, passes_append_iff.2 ⟨mid, passes, passes'⟩⟩

/-- A cursor that is reached is within the limit. -/
lemma Reaches.within (reaches : c.Reaches next) : next.Within := by
  obtain ⟨bytes, passes⟩ := reaches
  exact passes.within

/-- A limit stays as it is. -/
lemma Reaches.limit_eq (reaches : c.Reaches next) : next.limit = c.limit := by
  obtain ⟨bytes, passes⟩ := reaches
  exact passes.limit

/-- A position never goes back. -/
lemma Reaches.position_le (reaches : c.Reaches next) : c.position ≤ next.position := by
  obtain ⟨bytes, passes⟩ := reaches
  rw [passes.position]
  exact Nat.le_add_right _ _

/-- What was passed and what is left stay as many bytes together. -/
lemma Reaches.position_add_remaining (reaches : c.Reaches next) :
    next.position + next.remaining = c.position + c.remaining := by
  obtain ⟨bytes, passes⟩ := reaches
  rw [passes.position, passes.remaining_eq, Nat.add_assoc]

/-- A run that goes on from a cursor that was reached ends as the whole run does. -/
lemma Ends.of_reaches {result : EStateM.Result WireError Cursor α} (first : c.Reaches mid)
    (ends : mid.Ends result) : c.Ends result := by
  cases result with
  | ok a next => exact first.trans ends
  | error cause next => exact ⟨first.trans ends.1, ends.2⟩

end Cursor

namespace Reader

variable {α β : Type}

/-- From every cursor within the limit, a step ends at or behind it, and never fails without a
reason that is true there. -/
def Guarded (step : Reader α) : Prop :=
  ∀ c : Cursor, c.Within → c.Ends (step.run c)

lemma guarded_pure (a : α) : Guarded (pure a) := by
  intro c within
  exact Cursor.Reaches.refl within

/-- An error that is true everywhere. -/
lemma guarded_throw (cause : WireError) (explains : ∀ c : Cursor, c.Explains cause) :
    Guarded (throw cause : Reader α) := by
  intro c within
  exact ⟨Cursor.Reaches.refl within, explains c⟩

/-- A sequence of steps is guarded where each of them is. -/
lemma Guarded.bind {step : Reader α} {next : α → Reader β} (first : Guarded step)
    (second : ∀ a, Guarded (next a)) : Guarded (step >>= next) := by
  intro c within
  have ends := first c within
  rw [EStateM.run_bind]
  cases run : step.run c with
  | error cause mid =>
    rw [run] at ends
    exact ends
  | ok a mid =>
    rw [run] at ends
    have reaches : c.Reaches mid := ends
    exact (second a mid reaches.within).of_reaches reaches

/-- The next bytes are asked for behind a check of the limit and one of the end of the buffer, so
none are passed that are not there. -/
lemma guarded_taking (count : Nat) (cause : Cursor → WireError)
    (explains : ∀ c : Cursor, c.remaining < count → c.Explains (cause c)) :
    Guarded (taking count cause) := by
  intro c within
  rcases taking_run_cases count cause c with
    ⟨inside, enough, run⟩ | ⟨limit, limited, passed, run⟩ | ⟨inside, short, run⟩
  · rw [run]
    have length : (c.rest.take count).length = count := List.length_take_of_le enough
    refine ⟨c.rest.take count, (List.take_append_drop _ _).symm, ?_, rfl, inside⟩
    rw [length]
    rfl
  · rw [run]
    exact ⟨Cursor.Reaches.refl within, limited, passed⟩
  · rw [run]
    exact ⟨Cursor.Reaches.refl within, explains c short⟩

/-- Reading bytes moves the cursor behind them, or leaves it in place with a true reason. -/
lemma guarded_bytes (count : Nat) : Guarded (bytes count) := by
  rw [bytes_eq]
  exact guarded_taking count (fun _ => .unexpectedEnd) fun _ _ => trivial

/-- What a reader says by itself is true everywhere. -/
lemma Refusal.explains {Key : Value → Prop} {cause : WireError} (refusal : Refusal Key cause)
    (c : Cursor) : c.Explains cause := by
  cases refusal with
  | elementKind unknown => exact unknown
  | valueKind unknown => exact unknown
  | bool zero one => exact ⟨zero, one⟩
  | _ => trivial

/-- All steps of readers are guarded, since those that take bytes are. -/
lemma related_guarded : Related (fun _ => True) .plain .plain fun _ step _ => Guarded step :=
  RelatedSteps.related
    { pure := guarded_pure
      bind := Guarded.bind
      bytes := fun _ => guarded_bytes _
      text := fun b => guarded_taking b.toNat (fun c => .invalidStringLength b.toNat c.remaining)
        fun _ short => ⟨rfl, short⟩
      refuse := fun refusal => guarded_throw _ refusal.explains }

/-- Reading a value is guarded. -/
lemma guarded_value : Guarded value :=
  Primitives.value_plain ▸ related_guarded.value

/-- Whatever the depth, and so also where it runs out. -/
lemma guarded_element : Guarded element :=
  fun c within =>
    (Primitives.elementWithin_plain c.remaining ▸ related_guarded.elementWithin c.remaining)
      c within

end Reader

/-! ## Sessions -/

/-- What an answer tells about the cursors before and behind it. -/
structure ReadAnswer.Fits (answer : ReadAnswer) (before after : Cursor) : Prop where
  reaches : before.Reaches after
  progress : (∀ cause, answer ≠ .failed cause) → before.position + 2 ≤ after.position
  explains : ∀ cause, answer = .failed cause → after.Explains cause

/-- A value takes a byte for its type and one more at least. -/
lemma Value.two_le_encodedSize (v : Value) : 2 ≤ v.encodedSize := by
  have payload : 1 ≤ v.payloadSize := by
    cases v with
    | bool b => exact Nat.le_refl 1
    | string s => exact Nat.le_add_right 1 s.utf8ByteSize
    | uint w n => cases w <;> exact Nat.le_of_ble_eq_true rfl
    | hash h => exact Nat.le_of_ble_eq_true rfl
  exact Nat.add_le_add_left payload 1

/-- A failure with a reason that is true where the reader stopped fits. -/
lemma ReadAnswer.fits_failed {before after : Cursor} {cause : WireError}
    (reaches : before.Reaches after) (explains : after.Explains cause) :
    (ReadAnswer.failed cause).Fits before after where
  reaches := reaches
  progress success := absurd rfl (success cause)
  explains := by
    rintro _ ⟨⟩
    exact explains

/-- What was found in two bytes or more fits. -/
lemma ReadAnswer.fits_of_passes {answer : ReadAnswer} {before after : Cursor} {bytes : List UInt8}
    (found : ∀ cause, answer ≠ .failed cause) (passes : before.Passes bytes after)
    (two : 2 ≤ bytes.length) : answer.Fits before after where
  reaches := ⟨bytes, passes⟩
  progress _ := by
    rw [passes.position]
    exact Nat.add_le_add_left two _
  explains cause same := absurd same (found cause)

/-- What an answer tells about the cursors before and behind it is true. -/
lemma Cursor.answer_fits {c : Cursor} (within : c.Within) (request : ReadRequest) :
    (c.answer request).1.Fits c (c.answer request).2 := by
  cases request with
  | element =>
    have ends := Reader.guarded_element c within
    rw [answer]
    cases run : Reader.element.run c with
    | error cause next =>
      rw [run] at ends
      exact ReadAnswer.fits_failed ends.1 ends.2
    | ok e next =>
      obtain ⟨bytes, spelled, passes⟩ := Reader.element_run_eq_ok_iff.1 run
      refine ReadAnswer.fits_of_passes nofun passes ?_
      rw [spelled.2.2, e.length_wires]
      exact e.two_le_encodedSize
  | value =>
    have ends := Reader.guarded_value c within
    rw [answer]
    cases run : Reader.value.run c with
    | error cause next =>
      rw [run] at ends
      exact ReadAnswer.fits_failed ends.1 ends.2
    | ok v next =>
      obtain ⟨bytes, spelled, passes⟩ := Reader.value_run_eq_ok_iff.1 run
      refine ReadAnswer.fits_of_passes nofun passes ?_
      rw [spelled.2, v.length_wires]
      exact v.two_le_encodedSize

/-- The cursor before a session and those behind each of its answers. -/
def Cursor.moments (c : Cursor) (requests : List ReadRequest) : List Cursor :=
  c :: (c.session requests).map Prod.snd

/-- Every cursor of a session lies at or behind the one it starts from. -/
lemma Cursor.reaches_of_mem_moments {c next : Cursor} (within : c.Within)
    (requests : List ReadRequest) (mem : next ∈ c.moments requests) : c.Reaches next := by
  induction requests generalizing c with
  | nil =>
    rw [List.mem_singleton.1 mem]
    exact .refl within
  | cons request requests ih =>
    have first := (answer_fits within request).reaches
    rcases List.mem_cons.1 mem with rfl | later
    · exact .refl within
    · exact first.trans (ih first.within later)

/-- Of two cursors of a session, the later one lies at or behind the earlier one. -/
lemma Cursor.pairwise_moments {c : Cursor} (within : c.Within) (requests : List ReadRequest) :
    (c.moments requests).Pairwise Reaches := by
  induction requests generalizing c with
  | nil => exact List.pairwise_singleton _ c
  | cons request requests ih =>
    have first := (answer_fits within request).reaches
    refine List.pairwise_cons.2 ⟨?_, ih first.within⟩
    intro next later
    exact first.trans (reaches_of_mem_moments first.within requests later)

/-- Every answer of a session tells the truth about the cursors before and behind it. -/
lemma Cursor.fits_of_mem_zip {c before after : Cursor} {answer : ReadAnswer} (within : c.Within)
    (requests : List ReadRequest)
    (mem : (before, answer, after) ∈ (c.moments requests).zip (c.session requests)) :
    answer.Fits before after := by
  induction requests generalizing c with
  | nil => cases mem
  | cons request requests ih =>
    have first := answer_fits within request
    rcases List.mem_cons.1 mem with here | later
    · obtain ⟨rfl, both⟩ := Prod.mk.inj here
      rw [← both] at first
      exact first
    · exact ih first.reaches.within later

lemma Cursor.length_session (c : Cursor) (requests : List ReadRequest) :
    (c.session requests).length = requests.length := by
  induction requests generalizing c with
  | nil => rfl
  | cons request requests ih => exact congrArg Nat.succ (ih _)

/-- In a session of a reader over a buffer, from its start and with or without a limit, every
request is answered, and at every moment what was passed and what is left make up the buffer and the
limit is not passed; no moment lies in front of an earlier one. A result takes two bytes or more. An
error that reports the limit tells the one that was set, and more bytes than that; one that reports
the length of a string tells what is left behind it, and a length greater than that; and no error is
one of the buffer itself or of a writer, nor reports bytes that are left over. -/
theorem Reader.sessions_keep_their_place (buffer : List UInt8) (limit : Option Nat)
    (requests : List ReadRequest) :
    let start := Cursor.start buffer limit
    (start.session requests).length = requests.length ∧
    (∀ c ∈ start.moments requests,
      c.position + c.remaining = buffer.length ∧ ∀ l ∈ limit, c.position ≤ l) ∧
    (start.moments requests).Pairwise (fun earlier later => earlier.position ≤ later.position) ∧
    ∀ before answer after,
      (before, answer, after) ∈ (start.moments requests).zip (start.session requests) →
      ((∀ cause, answer ≠ .failed cause) → before.position + 2 ≤ after.position) ∧
      (∀ size l, answer = .failed (.sizeLimit size l) → limit = some l ∧ l < size) ∧
      (∀ length remaining, answer = .failed (.invalidStringLength length remaining) →
        remaining = after.remaining ∧ remaining < length) ∧
      answer ≠ .failed .sinkFull ∧ (∀ n, answer ≠ .failed (.stringTooLong n)) ∧
      (∀ n, answer ≠ .failed (.tooManyElements n)) ∧ ∀ n, answer ≠ .failed (.trailingBytes n) := by
  intro start
  have within : start.Within := fun l _ => Nat.zero_le l
  refine ⟨start.length_session requests, ?_, ?_, ?_⟩
  · intro c mem
    have reaches := Cursor.reaches_of_mem_moments within requests mem
    refine ⟨?_, fun l set => reaches.within l (reaches.limit_eq.trans set)⟩
    rw [reaches.position_add_remaining]
    exact Nat.zero_add _
  · exact (Cursor.pairwise_moments within requests).imp fun reaches => reaches.position_le
  · intro before answer after mem
    have fits := Cursor.fits_of_mem_zip within requests mem
    have before_mem := (List.of_mem_zip mem).1
    have reached := Cursor.reaches_of_mem_moments within requests before_mem
    have limit_eq : after.limit = limit := fits.reaches.limit_eq.trans reached.limit_eq
    refine ⟨fits.progress, ?_, fun _ _ => fits.explains _, fits.explains _,
      fun _ => fits.explains _, fun _ => fits.explains _, fun _ => fits.explains _⟩
    intro size l failed
    rw [← limit_eq]
    exact fits.explains _ failed

/-- A session goes on behind a string that is longer than what is left. -/
theorem Reader.sessions_keep_their_place_past_a_failure :
    (Cursor.start [0, 2, 7, 0, 1, 9, 65] (some 20)).session [.element, .element, .value] =
      [(.element (.value (.uint .w8 7)), ⟨[0, 1, 9, 65], 3, some 20⟩),
        (.failed (.invalidStringLength 9 1), ⟨[65], 6, some 20⟩),
        (.failed (.unknownValueKind 65), ⟨[], 7, some 20⟩)] ∧
    (1 = (⟨[65], 6, some 20⟩ : Cursor).remaining ∧ 1 < 9) := by
  have run : (Cursor.start [0, 2, 7, 0, 1, 9, 65] (some 20)).session [.element, .element, .value] =
      [(.element (.value (.uint .w8 7)), ⟨[0, 1, 9, 65], 3, some 20⟩),
        (.failed (.invalidStringLength 9 1), ⟨[65], 6, some 20⟩),
        (.failed (.unknownValueKind 65), ⟨[], 7, some 20⟩)] := by rfl
  obtain ⟨-, -, -, answered⟩ :=
    sessions_keep_their_place [0, 2, 7, 0, 1, 9, 65] (some 20) [.element, .element, .value]
  refine ⟨run, (answered ⟨[0, 1, 9, 65], 3, some 20⟩ _ _ ?_).2.2.1 9 1 rfl⟩
  rw [Cursor.moments, run]
  exact List.mem_cons_of_mem _ List.mem_cons_self

end AddressCodec
