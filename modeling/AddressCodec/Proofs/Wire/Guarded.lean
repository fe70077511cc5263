import AddressCodec.Proofs.Checked
import AddressCodec.Proofs.Wire.Primitives

/-!
# Readers in checked operations

All readers over steps that yield nothing where bytes beyond the end of the buffer would be taken,
or where a position under a limit would not fit in 32 bits. Under a limit that leaves room for the
longest string they do what the plain readers do (`element?_run`): bytes are taken only behind a
check that they are there, and the limit is checked at every step, so no position is beyond it.
-/

namespace AddressCodec

/-- The limit leaves room for a string behind it, and is not passed. -/
def Cursor.Near (c : Cursor) : Prop :=
  ∀ l ∈ c.limit, c.position ≤ l ∧ l + 255 < 2 ^ 32

/-- The next bytes of a buffer, if there are so many. -/
def Cursor.next? (c : Cursor) (count : Nat) : Option (List UInt8) :=
  if count ≤ c.remaining then some (c.rest.take count) else none

namespace Reader

/-- A step in checked operations. -/
abbrev CheckedReader := ExceptT WireError (StateT Cursor Option)

/-- Fails if the limit is passed by reading some bytes more. -/
def checkLimit? (size : Nat) : CheckedReader Unit := do
  let c ← get
  match c.limit with
  | some limit => do
    let reach ← Checked.add c.position size
    if limit < reach then throw (.sizeLimit reach limit) else return ()
  | none => return ()

/-- The next bytes; nothing where the buffer ends before them. -/
def raw? (count : Nat) : CheckedReader (List UInt8) := do
  let c ← get
  let taken ← c.next? count
  set (c.advance count)
  return taken

/-- The next bytes, or an error of some kind if there are too few. -/
def taking? (count : Nat) (cause : Cursor → WireError) : CheckedReader (List UInt8) := do
  checkLimit? count
  let c ← get
  if c.remaining < count then throw (cause c) else raw? count

/-- The steps of readers in checked operations. -/
def Primitives.checked : Primitives CheckedReader where
  bytes count := taking? count fun _ => .unexpectedEnd
  text b := taking? b.toNat fun c => .invalidStringLength b.toNat c.remaining
  refuse := throw

variable {α β : Type}

/-- What a run in checked operations is, where no operation fails. -/
def outcome : EStateM.Result WireError Cursor α → Except WireError α × Cursor
  | .ok a next => (.ok a, next)
  | .error cause stop => (.error cause, stop)

/-- From a cursor near its limit, a step in checked operations does as the plain one, and stays
near. -/
def Follows (step : Reader α) (checked : CheckedReader α) : Prop :=
  ∀ c : Cursor, c.Near → checked.run.run c = some (outcome (step.run c)) ∧
    ∀ a next, step.run c = .ok a next → next.Near

lemma follows_pure (a : α) : Follows (pure a) (pure a) := by
  intro c near
  refine ⟨rfl, ?_⟩
  rintro _ _ ⟨⟩
  exact near

lemma follows_throw (cause : WireError) : Follows (throw cause : Reader α) (throw cause) :=
  fun _ _ => ⟨rfl, nofun⟩

/-- A sequence of steps follows where each of them does. -/
lemma Follows.bind {step : Reader α} {checked : CheckedReader α} {next : α → Reader β}
    {next' : α → CheckedReader β} (first : Follows step checked)
    (second : ∀ a, Follows (next a) (next' a)) : Follows (step >>= next) (checked >>= next') := by
  intro c near
  obtain ⟨run, near'⟩ := first c near
  rw [EStateM.run_bind, ExceptT.run_bind, StateT.run_bind, run]
  cases done : step.run c with
  | error cause stop =>
    exact ⟨rfl, nofun⟩
  | ok a mid => exact second a mid (near' a mid done)

section Taking

variable {c : Cursor} {count : Nat}

/-- The next bytes are there, if so many are left. -/
lemma raw?_run (enough : count ≤ c.remaining) :
    (raw? count).run.run c = some (.ok (c.rest.take count), c.advance count) := by
  have next : c.next? count = some (c.rest.take count) := if_pos enough
  show StateT.run (ExceptT.run ((liftM (c.next? count) : CheckedReader _) >>= _)) c = _
  rw [next]
  rfl

/-- Near a limit the position behind the next bytes fits in 32 bits. -/
lemma checkLimit?_run_of_limit (near : c.Near) (few : count ≤ 255) {l : Nat}
    (limited : c.limit = some l) :
    (checkLimit? count).run.run c = if l < c.position + count
      then some (.error (.sizeLimit (c.position + count) l), c) else some (.ok (), c) := by
  obtain ⟨rest, position, limit⟩ := c
  cases limited
  obtain ⟨within, small⟩ : position ≤ l ∧ l + 255 < 2 ^ 32 := near l rfl
  have reach : Checked.add position count = some (position + count) :=
    Checked.add_eq_some (by omega)
  show StateT.run (ExceptT.run ((liftM (Checked.add position count) : CheckedReader Nat) >>=
    fun reach => if l < reach then throw (.sizeLimit reach l) else pure ())) _ = _
  rw [reach]
  show StateT.run (ExceptT.run (if l < position + count then throw _ else pure ())) _ = _
  split <;> rfl

/-- Where the limit is not passed, or there is none, its check stays in range. -/
lemma checkLimit?_inside (near : c.Near) (few : count ≤ 255)
    (inside : ∀ l ∈ c.limit, c.position + count ≤ l) :
    (checkLimit? count).run.run c = some (.ok (), c) := by
  cases limited : c.limit with
  | none =>
    obtain ⟨rest, position, limit⟩ := c
    cases limited
    rfl
  | some l =>
    rw [checkLimit?_run_of_limit near few limited, if_neg (Nat.not_lt.2 (inside l limited))]

/-- Bytes are taken only where they are. -/
lemma follows_taking (cause : Cursor → WireError) (few : count ≤ 255) :
    Follows (taking count cause) (taking? count cause) := by
  intro c near
  -- The buffer is asked in the first case only, where both checks have been passed.
  rcases taking_run_cases count cause c with
    ⟨inside, enough, run⟩ | ⟨l, limited, passed, run⟩ | ⟨inside, short, run⟩
  · rw [run]
    refine ⟨?_, ?_⟩
    · rw [taking?, ExceptT.run_bind, StateT.run_bind, checkLimit?_inside near few inside]
      show StateT.run (ExceptT.run (if c.remaining < count then _ else raw? count)) c = _
      rw [if_neg (Nat.not_lt.2 enough)]
      exact raw?_run enough
    · rintro _ _ ⟨⟩ l limited
      exact ⟨inside l limited, (near l limited).2⟩
  · rw [run]
    refine ⟨?_, nofun⟩
    rw [taking?, ExceptT.run_bind, StateT.run_bind, checkLimit?_run_of_limit near few limited,
      if_pos passed]
    rfl
  · rw [run]
    refine ⟨?_, nofun⟩
    rw [taking?, ExceptT.run_bind, StateT.run_bind, checkLimit?_inside near few inside]
    show StateT.run (ExceptT.run (if c.remaining < count then _ else raw? count)) c = _
    rw [if_pos short]
    rfl

end Taking

/-- No reader takes more bytes at once than the longest string has. -/
lemma related_follows :
    Related (fun _ => True) .plain .checked fun _ step checked => Follows step checked := by
  have steps : RelatedSteps (fun _ => True) .plain .checked
      fun _ step checked => Follows step checked :=
    { pure := follows_pure
      bind := Follows.bind
      bytes := by
        intro count few
        show Follows (bytes count) _
        rw [bytes_eq]
        exact follows_taking _ (Nat.le_trans few (by decide))
      text := fun b => follows_taking _ (Nat.le_of_lt_succ b.toNat_lt)
      refuse := fun {_ cause} _ => follows_throw cause }
  exact steps.related

/-- An element in checked operations. -/
def element? : CheckedReader Element := do
  let c ← get
  Primitives.checked.elementWithin c.remaining

/-- Reading an element in checked operations is reading it, whatever the bytes are. -/
lemma element?_run {c : Cursor} (near : c.Near) :
    element?.run.run c = some (outcome (element.run c)) := by
  have follows := related_follows.elementWithin c.remaining
  rw [Primitives.elementWithin_plain] at follows
  exact (follows c near).1

end Reader

end AddressCodec
