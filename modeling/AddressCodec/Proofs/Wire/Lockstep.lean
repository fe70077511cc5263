import AddressCodec.Proofs.Wire.Primitives

/-!
# Two readers in lock step

Two runs of one reader, of which the second has less at its disposal than the first: a limit, say,
or fewer bytes. They find the same and move on together until the second gives up for what it lacks
(`Lockstep.Agree`). Steps that follow one another agree if each of them does (`Agree.bind`), so
where the steps that take bytes agree, all readers do (`Lawful.related`), also at two depths
(`Lawful.elementWithin_of_le`).
-/

namespace AddressCodec

/-- The position that a reader would have come to, had it not failed, as far as the error tells. -/
def WireError.reach : WireError → Nat
  | .sizeLimit size _ => size
  | _ => 0

/-- Where two runs may stand at the same time, and for which errors the second may give up. -/
structure Lockstep where
  Like : Cursor → Cursor → Prop
  Excuse : WireError → Prop

namespace Lockstep

variable {α β : Type} {pair : Lockstep}

/-- Two runs end alike, or the second has given up; then the first fails too, or gets at least as
far as the error tells. -/
inductive Ends (pair : Lockstep) :
    EStateM.Result WireError Cursor α → EStateM.Result WireError Cursor α → Prop
  | ok {a : α} {next next' : Cursor} : pair.Like next next' → Ends pair (.ok a next) (.ok a next')
  | error {cause : WireError} {stop stop' : Cursor} :
    pair.Like stop stop' → Ends pair (.error cause stop) (.error cause stop')
  | excused {result : EStateM.Result WireError Cursor α} {cause : WireError} {stop : Cursor} :
    pair.Excuse cause → (∀ a next, result = .ok a next → cause.reach ≤ next.position) →
    Ends pair result (.error cause stop)

/-- From like cursors two steps end so. The first one never goes back, so that what an error tells
of its way stays true on the rest of it. -/
structure Agree (pair : Lockstep) (step step' : Reader α) : Prop where
  forward : ∀ c a next, step.run c = .ok a next → c.position ≤ next.position
  together : ∀ c c', pair.Like c c' → pair.Ends (step.run c) (step'.run c')

lemma agree_pure (a : α) : pair.Agree (pure a) (pure a) := by
  refine ⟨?_, ?_⟩
  · intro c b next run
    cases run
    exact Nat.le_refl _
  · intro c c' like
    exact .ok like

lemma agree_throw (cause : WireError) :
    pair.Agree (throw cause : Reader α) (throw cause : Reader α) := by
  refine ⟨nofun, ?_⟩
  intro c c' like
  exact .error like

/-- Sequences of steps agree where the steps do. -/
lemma Agree.bind {step step' : Reader α} {next next' : α → Reader β}
    (first : pair.Agree step step') (second : ∀ a, pair.Agree (next a) (next' a)) :
    pair.Agree (step >>= next) (step' >>= next') := by
  refine ⟨?_, ?_⟩
  · intro c b stop run
    rw [EStateM.run_bind] at run
    cases done : step.run c with
    | error cause mid =>
      rw [done] at run
      cases run
    | ok a mid =>
      rw [done] at run
      exact Nat.le_trans (first.forward c a mid done) ((second a).forward mid b stop run)
  · intro c c' like
    have ends := first.together c c' like
    rw [EStateM.run_bind, EStateM.run_bind]
    generalize step.run c = result at ends ⊢
    generalize step'.run c' = result' at ends ⊢
    -- Once the second run has given up, it takes no more steps, and the first one only goes
    -- further.
    cases ends with
    | ok like' => exact (second _).together _ _ like'
    | error like' => exact .error like'
    | excused excuse far =>
      refine .excused excuse ?_
      intro b stop run
      cases result with
      | error cause mid => cases run
      | ok a mid => exact Nat.le_trans (far a mid rfl) ((second a).forward mid b stop run)

/-- A step that gives up with an excuse, where the other one goes on. -/
lemma Agree.throw {step step' : Reader α} (agree : pair.Agree step step') {cause : WireError}
    (excuse : pair.Excuse cause) (nowhere : cause.reach = 0) :
    pair.Agree step (throw cause : Reader α) := by
  refine ⟨agree.forward, ?_⟩
  intro c c' like
  refine .excused excuse ?_
  intro a next run
  rw [nowhere]
  exact Nat.zero_le _

/-- A step that takes bytes goes forward by their number. -/
lemma agree_taking {count : Nat} {cause : Cursor → WireError}
    (together : ∀ c c', pair.Like c c' →
      pair.Ends ((Reader.taking count cause).run c) ((Reader.taking count cause).run c')) :
    pair.Agree (Reader.taking count cause) (Reader.taking count cause) := by
  refine ⟨?_, together⟩
  intro c taken next run
  obtain ⟨-, -, -, rfl⟩ := Reader.taking_run_eq_ok_iff.1 run
  exact Nat.le_add_right _ _

/-- The steps that take bytes agree. -/
structure Lawful (pair : Lockstep) : Prop where
  bytes : ∀ count, pair.Agree (Reader.bytes count) (Reader.bytes count)
  text : ∀ count,
    pair.Agree (Reader.taking count fun c => .invalidStringLength count c.remaining)
      (Reader.taking count fun c => .invalidStringLength count c.remaining)

/-- All steps of readers agree where those that take bytes do. -/
lemma Lawful.related (lawful : pair.Lawful) :
    Reader.Related (fun _ => True) .plain .plain fun _ => pair.Agree :=
  Reader.RelatedSteps.related
    { pure := agree_pure
      bind := Agree.bind
      bytes := fun _ => lawful.bytes _
      text := fun b => lawful.text b.toNat
      refuse := fun _ => agree_throw _ }

/-- Two runs that read a value agree. -/
lemma Lawful.value (lawful : pair.Lawful) : pair.Agree Reader.value Reader.value :=
  Reader.Primitives.value_plain ▸ lawful.related.value

/-- Two runs that read an element of some depth agree. -/
lemma Lawful.elementWithin (lawful : pair.Lawful) (depth : Nat) :
    pair.Agree (Reader.elementWithin depth) (Reader.elementWithin depth) :=
  Reader.Primitives.elementWithin_plain depth ▸ lawful.related.elementWithin depth

/-- Where the end of the buffer excuses, the second of two runs may have less depth. -/
lemma Lawful.elementWithin_of_le (lawful : pair.Lawful) (excuse : pair.Excuse .unexpectedEnd)
    {depth depth' : Nat} (le : depth' ≤ depth) :
    pair.Agree (Reader.elementWithin depth) (Reader.elementWithin depth') := by
  rw [← Reader.Primitives.elementWithin_plain, ← Reader.Primitives.elementWithin_plain]
  induction depth' generalizing depth with
  | zero =>
    cases depth with
    | zero => exact lawful.related.elementWithin 0
    | succ depth =>
      refine lawful.related.byte.bind fun tag => ?_
      exact (lawful.related.node (lawful.related.elementWithin depth) tag).throw excuse rfl
  | succ depth' ih =>
    cases depth with
    | zero => exact absurd le (Nat.not_succ_le_zero _)
    | succ depth =>
      exact lawful.related.byte.bind fun tag =>
        lawful.related.node (ih (Nat.le_of_succ_le_succ le)) tag

end Lockstep

end AddressCodec
