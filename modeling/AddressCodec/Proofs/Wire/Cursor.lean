import AddressCodec.Proofs.Wire.Pieces
import AddressCodec.Wire.Reader

/-!
# Exact readers

A reader is exact if it yields a result just when bytes of its form come next, whatever follows
them, and stops behind these (`Reader.Exact`). Readers of single bytes and of blocks are, and steps
one behind the other are if each of them is (`Reader.Exact.bind`).
-/

namespace AddressCodec

namespace Cursor

/-- The limit is not passed. -/
def Within (c : Cursor) : Prop :=
  ∀ l ∈ c.limit, c.position ≤ l

/-- The next bytes lie between two positions of one buffer, and the second is within the limit. -/
structure Passes (c : Cursor) (bytes : List UInt8) (next : Cursor) : Prop where
  rest : c.rest = bytes ++ next.rest
  position : next.position = c.position + bytes.length
  limit : next.limit = c.limit
  within : next.Within

/-- A cursor that passes some bytes is moved by as many. -/
lemma Passes.eq_advance {c next : Cursor} {bytes : List UInt8} (passes : c.Passes bytes next) :
    next = c.advance bytes.length := by
  obtain ⟨rest, position, limit, -⟩ := passes
  obtain ⟨rest', position', limit'⟩ := next
  cases position
  cases limit
  rw [advance, rest, List.drop_left]
  rfl

/-- What is left to read shrinks by the bytes that are passed. -/
lemma Passes.remaining_eq {c next : Cursor} {bytes : List UInt8} (passes : c.Passes bytes next) :
    c.remaining = bytes.length + next.remaining := by
  rw [remaining, passes.rest, List.length_append]
  rfl

/-- Within the limit, passing no bytes is staying in place. -/
lemma passes_nil_iff {c next : Cursor} (within : c.Within) : c.Passes [] next ↔ next = c := by
  refine ⟨?_, ?_⟩
  · intro passes
    exact passes.eq_advance
  · intro same
    rw [same]
    exact ⟨rfl, rfl, rfl, within⟩

/-- Where the way behind some bytes is within the limit, the way before them is. -/
lemma Passes.within_before {c next : Cursor} {bytes : List UInt8} (passes : c.Passes bytes next) :
    c.Within := by
  intro l h
  have below := passes.within l (passes.limit ▸ h)
  rw [passes.position] at below
  exact Nat.le_of_add_right_le below

/-- A cursor passes bytes one part after the other. -/
lemma passes_append_iff {c next : Cursor} {bytes more : List UInt8} :
    c.Passes (bytes ++ more) next ↔ ∃ mid, c.Passes bytes mid ∧ mid.Passes more next := by
  refine ⟨?_, ?_⟩
  · intro passes
    obtain ⟨rest, position, limit, within⟩ := passes
    rw [List.length_append] at position
    -- The place between the two parts is the one behind the first of them.
    have between : (c.advance bytes.length).rest = more ++ next.rest := by
      rw [advance, rest, List.append_assoc, List.drop_left]
    refine ⟨c.advance bytes.length, ⟨?_, rfl, rfl, ?_⟩, between, ?_, limit, within⟩
    · rw [between, rest, List.append_assoc]
    · intro l h
      have below := within l (limit ▸ h)
      show c.position + bytes.length ≤ l
      omega
    · show next.position = c.position + bytes.length + more.length
      omega
  · intro ⟨mid, first, second⟩
    refine ⟨?_, ?_, second.limit.trans first.limit, second.within⟩
    · rw [first.rest, second.rest, List.append_assoc]
    · rw [second.position, first.position, List.length_append, Nat.add_assoc]

/-- Without a limit, the bytes that come next are passed. -/
lemma exists_passes {c : Cursor} {bytes rest : List UInt8} (free : c.limit = none)
    (here : c.rest = bytes ++ rest) : ∃ mid, c.Passes bytes mid ∧ mid.rest = rest := by
  refine ⟨⟨rest, c.position + bytes.length, c.limit⟩, ⟨here, rfl, rfl, ?_⟩, rfl⟩
  intro l limited
  rw [free] at limited
  cases limited

end Cursor

namespace Reader

variable {α β : Type} {room : Nat}

/-- From a cursor with so much left at most, a step yields a result exactly if bytes of its form
come next, and stops behind them. -/
def Exact (room : Nat) (step : Reader α) (Form : α → List UInt8 → Prop) : Prop :=
  ∀ (c : Cursor) (a : α) (next : Cursor), c.remaining ≤ room → c.Within →
    (step.run c = .ok a next ↔ ∃ bytes, Form a bytes ∧ c.Passes bytes next)

/-- A step is exact for every form that the same bytes have. -/
lemma Exact.congr {step : Reader α} {Form Form' : α → List UInt8 → Prop}
    (exact_step : Exact room step Form) (same : ∀ a bytes, Form a bytes ↔ Form' a bytes) :
    Exact room step Form' := by
  intro c a next left within
  rw [exact_step c a next left within]
  exact exists_congr fun bytes => and_congr_left' (same a bytes)

/-- A given result is read from no bytes. -/
lemma exact_pure (a : α) : Exact room (pure a) fun b bytes => b = a ∧ bytes = [] := by
  intro c b next left within
  have run : (pure a : Reader α).run c = .ok b next ↔ b = a ∧ next = c := by
    rw [EStateM.run_pure, EStateM.Result.ok.injEq, eq_comm, @eq_comm _ c]
  rw [run, ← Cursor.passes_nil_iff within]
  simp [and_assoc]

lemma exact_throw (cause : WireError) : Exact room (throw cause : Reader α) fun _ _ => False := by
  intro c a next left within
  have run : (throw cause : Reader α).run c = .error cause c := rfl
  rw [run]
  simp

/-- Behind a step that takes something of what is left, less is left for the next one. -/
lemma Exact.bind_of_le {inner : Nat} {step : Reader α} {next : α → Reader β}
    {First : α → List UInt8 → Prop} {Second : α → β → List UInt8 → Prop}
    (first : Exact room step First) (second : ∀ a, Exact inner (next a) (Second a))
    (taken : ∀ a bytes, First a bytes → room ≤ bytes.length + inner) :
    Exact room (step >>= next) fun b bytes =>
      ∃ a before after, First a before ∧ Second a b after ∧ bytes = before ++ after := by
  intro c b stop left within
  refine ⟨?_, ?_⟩
  · intro run
    rw [EStateM.run_bind] at run
    cases done : step.run c with
    | error cause mid =>
      rw [done] at run
      cases run
    | ok a mid =>
      rw [done] at run
      obtain ⟨before, form, passes⟩ := (first c a mid left within).1 done
      -- What the first step took is no longer left, which is what the second one may count on.
      have left' : mid.remaining ≤ inner := by
        have := taken a before form
        have := passes.remaining_eq
        omega
      obtain ⟨after, form', passes'⟩ := (second a mid b stop left' passes.within).1 run
      exact ⟨before ++ after, ⟨a, before, after, form, form', rfl⟩,
        Cursor.passes_append_iff.2 ⟨mid, passes, passes'⟩⟩
  · intro ⟨bytes, ⟨a, before, after, form, form', both⟩, passes⟩
    rw [both] at passes
    obtain ⟨mid, passes, passes'⟩ := Cursor.passes_append_iff.1 passes
    have left' : mid.remaining ≤ inner := by
      have := taken a before form
      have := passes.remaining_eq
      omega
    rw [EStateM.run_bind, (first c a mid left within).2 ⟨before, form, passes⟩]
    exact (second a mid b stop left' passes.within).2 ⟨after, form', passes'⟩

/-- Steps one behind the other accept bytes one behind the other. -/
lemma Exact.bind {step : Reader α} {next : α → Reader β}
    {First : α → List UInt8 → Prop} {Second : α → β → List UInt8 → Prop}
    (first : Exact room step First) (second : ∀ a, Exact room (next a) (Second a)) :
    Exact room (step >>= next) fun b bytes =>
      ∃ a before after, First a before ∧ Second a b after ∧ bytes = before ++ after :=
  first.bind_of_le second fun _ _ _ => Nat.le_add_left _ _

/-- Behind the bytes that an exact step accepts, the next step goes on with what is left. -/
lemma Exact.exists_run_bind {inner : Nat} {step : Reader α} {Form : α → List UInt8 → Prop} {a : α}
    {bytes rest : List UInt8} {c : Cursor} (first : Exact room step Form) (form : Form a bytes)
    (taken : room ≤ bytes.length + inner) (here : c.rest = bytes ++ rest) (free : c.limit = none)
    (left : c.remaining ≤ room) (next : α → Reader β) :
    ∃ mid, (step >>= next).run c = (next a).run mid ∧ mid.rest = rest ∧ mid.limit = none ∧
      mid.remaining ≤ inner := by
  obtain ⟨mid, passes, behind⟩ := Cursor.exists_passes free here
  refine ⟨mid, ?_, behind, passes.limit.trans free, ?_⟩
  · rw [EStateM.run_bind, (first c a mid left passes.within_before).2 ⟨bytes, form, passes⟩]
  · have both := passes.remaining_eq
    omega

/-- Where bytes of its form come next and end within the limit, an exact step stops behind them. -/
lemma Exact.run_bind {step : Reader α} {Form : α → List UInt8 → Prop} {a : α}
    {bytes rest : List UInt8} {p : Nat} {limit : Option Nat} (exact_step : Exact room step Form)
    (form : Form a bytes) (left : (bytes ++ rest).length ≤ room)
    (inside : ∀ l ∈ limit, p + bytes.length ≤ l) (next : α → Reader β) :
    (step >>= next).run ⟨bytes ++ rest, p, limit⟩
      = (next a).run ⟨rest, p + bytes.length, limit⟩ := by
  have passes : Cursor.Passes ⟨bytes ++ rest, p, limit⟩ bytes ⟨rest, p + bytes.length, limit⟩ :=
    ⟨rfl, rfl, rfl, inside⟩
  have run := (exact_step ⟨bytes ++ rest, p, limit⟩ a _ left passes.within_before).2
    ⟨bytes, form, passes⟩
  rw [EStateM.run_bind, run]

/-- A function of what was read has the form of what it was read from. -/
lemma Exact.map {step : Reader α} {Form : α → List UInt8 → Prop} (exact_step : Exact room step Form)
    (f : α → β) : Exact room (f <$> step) fun b bytes => ∃ a, Form a bytes ∧ b = f a := by
  rw [map_eq_pure_bind]
  refine (exact_step.bind fun a => exact_pure (f a)).congr fun b bytes => ?_
  refine ⟨?_, ?_⟩
  · intro ⟨a, before, after, form, ⟨same, nothing⟩, both⟩
    rw [nothing, List.append_nil] at both
    exact ⟨a, both ▸ form, same⟩
  · intro ⟨a, form, same⟩
    exact ⟨a, bytes, [], form, ⟨same, rfl⟩, (List.append_nil _).symm⟩

/-- The next bytes, or an error of some kind if there are too few. -/
def taking (count : Nat) (cause : Cursor → WireError) : Reader (List UInt8) := do
  checkLimit count
  let c ← get
  if (c.rest.take count).length < count then throw (cause c)
  raw count

/-- The next bytes are taken, or are unexpectedly at an end. -/
lemma bytes_eq (count : Nat) : bytes count = taking count fun _ => .unexpectedEnd := by
  apply funext
  intro c
  show (bytes count).run c = (taking count fun _ => .unexpectedEnd).run c
  simp only [bytes, reserve, taking, EStateM.run_bind]
  cases (checkLimit count).run c with
  | error cause stop => rfl
  | ok u stop =>
    simp only [EStateM.run_get]
    by_cases short : (stop.rest.take count).length < count
    · simp only [if_pos short]
      rfl
    · simp only [if_neg short]
      rfl

/-- A string takes the bytes that its length byte announces, if they are UTF-8. -/
lemma string_eq : string = byte >>= fun b =>
    taking b.toNat (fun c => .invalidStringLength b.toNat c.remaining) >>= fun taken =>
      match Utf8.decode? taken with
      | some s => pure s
      | none => throw .invalidString := by
  apply funext
  intro c
  show string.run c = EStateM.run _ c
  rw [string]
  simp only [EStateM.run_bind]
  cases byte.run c with
  | error cause mid => rfl
  | ok b mid =>
    simp only [taking, EStateM.run_bind]
    cases (checkLimit b.toNat).run mid with
    | error cause stop => rfl
    | ok u stop =>
      simp only [EStateM.run_get]
      split
      · rfl
      · rfl

/-- Either the limit lets some bytes through, or it is passed by them and this is reported. -/
lemma checkLimit_run_cases (size : Nat) (c : Cursor) :
    ((∀ l ∈ c.limit, c.position + size ≤ l) ∧ (checkLimit size).run c = .ok () c) ∨
      ∃ l, c.limit = some l ∧ l < c.position + size ∧
        (checkLimit size).run c = .error (.sizeLimit (c.position + size) l) c := by
  obtain ⟨rest, position, limit⟩ := c
  cases limit with
  | none => exact .inl ⟨nofun, rfl⟩
  | some l =>
    have run : (checkLimit size).run ⟨rest, position, some l⟩ = if l < position + size
        then .error (.sizeLimit (position + size) l) ⟨rest, position, some l⟩
        else .ok () ⟨rest, position, some l⟩ := by
      rw [checkLimit, EStateM.run_bind, EStateM.run_get]
      show EStateM.run (if l < position + size then _ else _) _ = _
      split <;> rfl
    by_cases passed : l < position + size
    · exact .inr ⟨l, rfl, passed, run.trans (if_pos passed)⟩
    · refine .inl ⟨?_, run.trans (if_neg passed)⟩
      rintro _ ⟨⟩
      exact Nat.not_lt.1 passed

/-- The buffer gives bytes that are there. -/
lemma raw_run_of_le {count : Nat} {c : Cursor} (enough : count ≤ c.remaining) :
    (raw count).run c = .ok (c.rest.take count) (c.advance count) := by
  have length : (c.rest.take count).length = count := List.length_take_of_le enough
  rw [raw, EStateM.run_bind, EStateM.run_get]
  show EStateM.run (if (c.rest.take count).length < count then _ else _) c = _
  rw [if_neg (by omega)]
  rfl

/-- The next bytes are taken, or the limit comes before their end, or the end of the buffer does; in
the last two cases the cursor stays. -/
lemma taking_run_cases (count : Nat) (cause : Cursor → WireError) (c : Cursor) :
    ((∀ l ∈ c.limit, c.position + count ≤ l) ∧ count ≤ c.remaining ∧
        (taking count cause).run c = .ok (c.rest.take count) (c.advance count)) ∨
      (∃ l, c.limit = some l ∧ l < c.position + count ∧
        (taking count cause).run c = .error (.sizeLimit (c.position + count) l) c) ∨
      ((∀ l ∈ c.limit, c.position + count ≤ l) ∧ c.remaining < count ∧
        (taking count cause).run c = .error (cause c) c) := by
  rw [taking, EStateM.run_bind]
  obtain ⟨inside, run⟩ | ⟨l, limited, passed, run⟩ := checkLimit_run_cases count c
  · rw [run]
    show _ ∧ _ ∧ EStateM.run (if (c.rest.take count).length < count then _ else _) c = _ ∨ _ ∨
      _ ∧ _ ∧ EStateM.run (if (c.rest.take count).length < count then _ else _) c = _
    rw [List.length_take, Cursor.remaining]
    by_cases short : c.rest.length < count
    · rw [if_pos (by omega)]
      exact .inr (.inr ⟨inside, short, rfl⟩)
    · rw [if_neg (by omega)]
      exact .inl ⟨inside, Nat.not_lt.1 short, raw_run_of_le (Nat.not_lt.1 short)⟩
  · rw [run]
    exact .inr (.inl ⟨l, limited, passed, rfl⟩)

/-- Bytes are taken exactly if neither the limit nor the end of the buffer comes first. -/
lemma taking_run_eq_ok_iff {count : Nat} {cause : Cursor → WireError} {c next : Cursor}
    {taken : List UInt8} :
    (taking count cause).run c = .ok taken next ↔
      (∀ l ∈ c.limit, c.position + count ≤ l) ∧ count ≤ c.remaining ∧
        taken = c.rest.take count ∧ next = c.advance count := by
  obtain ⟨inside, enough, run⟩ | ⟨l, limited, passed, run⟩ | ⟨inside, short, run⟩ :=
    taking_run_cases count cause c
  · rw [run, EStateM.Result.ok.injEq, @eq_comm _ taken, @eq_comm _ next]
    exact (and_iff_right inside).trans (and_iff_right enough) |>.symm
  · rw [run]
    refine iff_of_false nofun fun both => ?_
    exact Nat.not_le_of_lt passed (both.1 l limited)
  · rw [run]
    exact iff_of_false nofun fun both => Nat.not_le_of_lt short both.2.1

/-- Taking bytes is exact for the byte lists of that length. -/
lemma exact_taking (count : Nat) (cause : Cursor → WireError) :
    Exact room (taking count cause) fun taken bytes => taken = bytes ∧ bytes.length = count := by
  intro c taken next left within
  rw [taking_run_eq_ok_iff]
  refine ⟨?_, ?_⟩
  · intro ⟨inside, enough, taken_eq, next_eq⟩
    have length : (c.rest.take count).length = count := List.length_take_of_le enough
    refine ⟨c.rest.take count, ⟨taken_eq, length⟩, ?_⟩
    rw [next_eq]
    refine ⟨(List.take_append_drop _ _).symm, ?_, rfl, inside⟩
    rw [length]
    rfl
  · intro ⟨bytes, ⟨same, length⟩, passes⟩
    have limit := passes.within
    rw [Cursor.Within, passes.limit, passes.position, length] at limit
    have enough := passes.remaining_eq
    have next_eq := passes.eq_advance
    rw [length] at next_eq enough
    refine ⟨limit, by omega, ?_, next_eq⟩
    rw [passes.rest, ← length, List.take_left, same]

/-- Reading bytes is exact for the byte lists of that length. -/
lemma exact_bytes (count : Nat) :
    Exact room (bytes count) fun taken bytes => taken = bytes ∧ bytes.length = count := by
  rw [bytes_eq]
  exact exact_taking count fun _ => .unexpectedEnd

/-- A byte is read from itself. -/
lemma exact_byte : Exact room byte fun b bytes => bytes = [b] := by
  refine ((exact_bytes 1).bind fun taken => exact_pure (taken.headD 0)).congr fun b bytes => ?_
  refine ⟨?_, ?_⟩
  · intro ⟨taken, before, after, ⟨same, length⟩, ⟨head, nothing⟩, both⟩
    obtain ⟨first, rfl⟩ := List.length_eq_one_iff.1 length
    rw [both, nothing, head, same]
    rfl
  · intro single
    exact ⟨[b], [b], [], ⟨rfl, rfl⟩, ⟨rfl, rfl⟩, single⟩

/-- A first byte decides on what follows, and takes one byte of what is left. -/
lemma exact_byte_bind {next : UInt8 → Reader α} {Second : UInt8 → α → List UInt8 → Prop}
    (second : ∀ b, Exact room (next b) (Second b)) :
    Exact (room + 1) (byte >>= next) fun a bytes =>
      ∃ b after, Second b a after ∧ bytes = b :: after := by
  have taken : ∀ (b : UInt8) (bytes : List UInt8),
      bytes = [b] → room + 1 ≤ bytes.length + room := by
    intro b bytes single
    rw [single, Nat.add_comm]
    exact Nat.le_refl _
  refine (exact_byte.bind_of_le second taken).congr fun a bytes => ?_
  refine ⟨?_, ?_⟩
  · intro ⟨b, before, after, single, form, both⟩
    exact ⟨b, after, form, by rw [both, single]; rfl⟩
  · intro ⟨b, after, form, both⟩
    exact ⟨b, [b], after, rfl, form, both⟩

/-- Beyond the limit nothing is read that starts with a byte. -/
lemma within_of_byte_bind_run {next : UInt8 → Reader α} {c stop : Cursor} {a : α}
    (run : (byte >>= next).run c = .ok a stop) : c.Within := by
  rw [EStateM.run_bind, byte, EStateM.run_bind] at run
  cases done : (bytes 1).run c with
  | error cause mid =>
    rw [done] at run
    cases run
  | ok taken mid =>
    rw [bytes_eq] at done
    have inside := (taking_run_eq_ok_iff.1 done).1
    intro l h
    exact Nat.le_of_lt (inside l h)

end Reader

end AddressCodec
