import Mathlib.Tactic.Lemma

/-!
# Outcomes

When a computation that may fail succeeds, and when it fails: a sequence succeeds exactly if each
part does, and fails where the first of them fails.
-/

namespace AddressCodec.Outcome

variable {ε ε' α β : Type}

/-- A sequence succeeds exactly if the first part does and the second does from its result. -/
lemma bind_eq_ok_iff {x : Except ε α} {f : α → Except ε β} {b : β} :
    (x >>= f) = .ok b ↔ ∃ a, x = .ok a ∧ f a = .ok b := by
  cases x with
  | error e => simp [bind, Except.bind]
  | ok a => simp [bind, Except.bind]

/-- A mapped outcome is a result exactly if the outcome is one that is mapped to it. -/
lemma map_eq_ok_iff {x : Except ε α} {f : α → β} {b : β} :
    x.map f = .ok b ↔ ∃ a, x = .ok a ∧ f a = b := by
  cases x with
  | error e => simp [Except.map]
  | ok a => simp [Except.map]

/-- Rewording errors changes no result. -/
lemma mapError_eq_ok_iff {x : Except ε α} {f : ε → ε'} {a : α} :
    x.mapError f = .ok a ↔ x = .ok a := by
  cases x with
  | error e =>
    refine iff_of_false ?_ ?_
    · intro same
      cases same
    · intro same
      cases same
  | ok b =>
    have kept : (Except.ok b : Except ε α).mapError f = .ok b := rfl
    rw [kept, Except.ok.injEq, Except.ok.injEq]

lemma pure_eq_ok_iff {a b : α} : (pure a : Except ε α) = .ok b ↔ a = b := by
  simp [pure, Except.pure]

/-- Behind a check, success means that the check passed and the rest succeeded. -/
lemma check_eq_ok_iff {bad : Prop} [Decidable bad] {e : ε} {rest : PUnit → Except ε α} {a : α} :
    (if bad then throw e >>= rest else rest ⟨⟩) = .ok a ↔ ¬ bad ∧ rest ⟨⟩ = .ok a := by
  split
  · rename_i h
    simp [h, bind, Except.bind, throw, throwThe, MonadExceptOf.throw]
  · rename_i h
    simp [h]

/-- A sequence fails where the first part does, or the second does from its result. -/
lemma bind_eq_error_iff {x : Except ε α} {f : α → Except ε β} {e : ε} :
    (x >>= f) = .error e ↔ x = .error e ∨ ∃ a, x = .ok a ∧ f a = .error e := by
  cases x with
  | error e => simp [bind, Except.bind]
  | ok a => simp [bind, Except.bind]

/-- Mapping results changes no error. -/
lemma map_eq_error_iff {x : Except ε α} {f : α → β} {e : ε} :
    x.map f = .error e ↔ x = .error e := by
  cases x with
  | error e => simp [Except.map]
  | ok a => simp [Except.map]

/-- A reworded outcome is an error exactly if the outcome is one that is reworded to it. -/
lemma mapError_eq_error_iff {x : Except ε α} {f : ε → ε'} {e : ε'} :
    x.mapError f = .error e ↔ ∃ cause, x = .error cause ∧ f cause = e := by
  cases x with
  | error cause =>
    have changed : (Except.error cause : Except ε α).mapError f = .error (f cause) := rfl
    rw [changed, Except.error.injEq]
    refine ⟨fun same => ⟨cause, rfl, same⟩, ?_⟩
    rintro ⟨_, same, shown⟩
    cases same
    exact shown
  | ok a =>
    refine iff_of_false ?_ ?_
    · intro same
      cases same
    · rintro ⟨_, same, -⟩
      cases same

/-- A list fails at its first member that does. -/
lemma mapM_eq_error_iff {f : α → Except ε β} {xs : List α} {e : ε} :
    xs.mapM f = .error e ↔ ∃ good x rest, xs = good ++ x :: rest ∧
      (∀ y ∈ good, ∃ b, f y = .ok b) ∧ f x = .error e := by
  induction xs with
  | nil => simp [pure, Except.pure]
  | cons x xs ih =>
    simp only [List.mapM_cons, bind_eq_error_iff, ih]
    refine ⟨?_, ?_⟩
    · rintro (failed | ⟨b, passed, ⟨good, y, rest, rfl, all, failed⟩ | ⟨_, _, ⟨⟩⟩⟩)
      · exact ⟨[], x, xs, rfl, nofun, failed⟩
      · refine ⟨x :: good, y, rest, rfl, ?_, failed⟩
        exact List.forall_mem_cons.2 ⟨⟨b, passed⟩, all⟩
    · rintro ⟨good, y, rest, whole, all, failed⟩
      -- The first failure is at the head exactly if no member stands before it.
      cases good with
      | nil =>
        obtain ⟨rfl, rfl⟩ := List.cons.inj whole
        exact .inl failed
      | cons z good =>
        obtain ⟨rfl, rfl⟩ := List.cons.inj whole
        obtain ⟨⟨b, passed⟩, all⟩ := List.forall_mem_cons.1 all
        exact .inr ⟨b, passed, .inl ⟨good, y, rest, rfl, all, failed⟩⟩

/-- What never succeeds fails. -/
lemma exists_error_of_ne_ok {x : Except ε α} (never : ∀ a, x ≠ .ok a) : ∃ e, x = .error e := by
  cases x with
  | error e => exact ⟨e, rfl⟩
  | ok a => exact absurd rfl (never a)

end AddressCodec.Outcome
