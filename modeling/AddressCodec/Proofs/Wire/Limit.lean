import AddressCodec.Proofs.Wire.Codec
import AddressCodec.Proofs.Wire.Lockstep
import Mathlib

/-!
# Readers under a limit

A limit never changes what a reader finds, nor why it fails: a reader under a limit does as one
without it does, until the limit stops it, and the limit stops every one that has to pass it
(`Reader.limits_only_stop`).
-/

namespace AddressCodec

/-- The same place, under a limit. -/
def Cursor.under (c : Cursor) (l : Nat) : Cursor :=
  { c with limit := some l }

/-- A run without a limit, and one under it from the same place; the limit excuses the second. -/
def Lockstep.limited (l : Nat) : Lockstep where
  Like c c' := c.limit = none ∧ c.position ≤ l ∧ c' = c.under l
  Excuse cause := ∃ size, cause = .sizeLimit size l ∧ l < size

namespace Reader

variable {α : Type}

/-- Bytes that are there may lie beyond the limit; if there are too few, the limit may be reported
in place of this. -/
lemma limited_agree_taking (l count : Nat) {cause : Cursor → WireError}
    (same : ∀ c : Cursor, cause (c.under l) = cause c) :
    (Lockstep.limited l).Agree (taking count cause) (taking count cause) := by
  apply Lockstep.agree_taking
  rintro c _ ⟨free, within, rfl⟩
  rcases taking_run_cases count cause c with
    ⟨-, enough, run⟩ | ⟨k, limited, -⟩ | ⟨-, short, run⟩
  · rcases taking_run_cases count cause (c.under l) with
      ⟨inside, -, run'⟩ | ⟨_, ⟨⟩, passed, run'⟩ | ⟨-, short, -⟩
    · rw [run, run']
      exact .ok ⟨free, inside l rfl, rfl⟩
    · rw [run, run']
      -- The limited run gives up; the other one takes the bytes and so comes to the place it names.
      refine .excused ⟨_, rfl, passed⟩ ?_
      rintro _ _ ⟨⟩
      exact Nat.le_refl _
    · exact absurd enough (Nat.not_le_of_lt short)
  · rw [free] at limited
    cases limited
  · rcases taking_run_cases count cause (c.under l) with
      ⟨-, enough, -⟩ | ⟨_, ⟨⟩, passed, run'⟩ | ⟨-, -, run'⟩
    · exact absurd enough (Nat.not_le_of_lt short)
    · rw [run, run']
      exact .excused ⟨_, rfl, passed⟩ nofun
    · rw [run, run', same]
      exact .error ⟨free, within, rfl⟩

/-- The steps that take bytes agree without a limit and under it. -/
lemma lawful_limited (l : Nat) : (Lockstep.limited l).Lawful := by
  refine ⟨fun count => ?_, fun count => ?_⟩
  · rw [bytes_eq]
    exact limited_agree_taking l count fun _ => rfl
  · exact limited_agree_taking l count fun _ => rfl

/-- What a limit makes of the outcome of a run. If the run found something, that is found under the
limit too, unless the run passes the limit; then this is reported, and no more bytes than the run
took. If it failed, it fails in the same way, or for the limit. -/
def Limits (l : Nat) :
    EStateM.Result WireError Cursor α → EStateM.Result WireError Cursor α → Prop
  | .ok a next, limited =>
    (next.position ≤ l → limited = .ok a (next.under l)) ∧
    (l < next.position → ∃ size stop,
      limited = .error (.sizeLimit size l) stop ∧ l < size ∧ size ≤ next.position)
  | .error cause stop, limited =>
    limited = .error cause (stop.under l) ∨
      ∃ size stop', limited = .error (.sizeLimit size l) stop' ∧ l < size

/-- The limit does to a run what it says, where the run under it ends alike. -/
lemma limits_of_ends {l : Nat} {result limited : EStateM.Result WireError Cursor α}
    (ends : (Lockstep.limited l).Ends result limited) : Limits l result limited := by
  cases ends with
  | ok like =>
    obtain ⟨-, within, rfl⟩ := like
    exact ⟨fun _ => rfl, fun passed => absurd within (Nat.not_le_of_lt passed)⟩
  | error like =>
    obtain ⟨-, -, rfl⟩ := like
    exact .inl rfl
  | excused excuse far =>
    obtain ⟨size, rfl, passed⟩ := excuse
    cases result with
    | ok a next =>
      have reached : size ≤ next.position := far a next rfl
      refine ⟨fun within => ?_, fun _ => ⟨size, _, rfl, passed, reached⟩⟩
      exact absurd (Nat.le_trans reached within) (Nat.not_le_of_lt passed)
    | error cause stop => exact .inr ⟨size, _, rfl, passed⟩

/-- The reader of trees under a limit does as it does without it, until the limit stops it. -/
lemma element_limits {l : Nat} {c : Cursor} (free : c.limit = none) (within : c.position ≤ l) :
    Limits l (element.run c) (element.run (c.under l)) :=
  limits_of_ends (((lawful_limited l).elementWithin c.remaining).together _ _ ⟨free, within, rfl⟩)

/-- From any place of any buffer, a reader under a limit that is not passed there finds what one
without it does if this lies within the limit, and reports the limit if not; and where the one
without it fails, it fails in the same way at the same place, or reports the limit. -/
theorem limits_only_stop (buffer : List UInt8) (l p : Nat) (within : p ≤ l) :
    Limits l (element.run (.ofBuffer buffer none p)) (element.run (.ofBuffer buffer (some l) p)) ∧
    Limits l (value.run (.ofBuffer buffer none p)) (value.run (.ofBuffer buffer (some l) p)) := by
  have like : (Lockstep.limited l).Like (.ofBuffer buffer none p) (.ofBuffer buffer (some l) p) :=
    ⟨rfl, within, rfl⟩
  refine ⟨limits_of_ends ?_, limits_of_ends ?_⟩
  · exact ((lawful_limited l).elementWithin _).together _ _ like
  · exact (lawful_limited l).value.together _ _ like

/-- From the fourth byte on, an array that ends in a text: the limit comes before the last byte of
that text. -/
theorem limits_only_stop_in_a_text :
    let buffer : List UInt8 := [0, 2, 9, 1, 2, 0, 2, 7, 0, 1, 2, 65, 66]
    3 ≤ 12 ∧
    element.run (.ofBuffer buffer none 3)
      = .ok (.array [.value (.uint .w8 7), .value (.string "AB")]) ⟨[], 13, none⟩ ∧
    ∃ size stop, element.run (.ofBuffer buffer (some 12) 3) = .error (.sizeLimit size 12) stop ∧
      12 < size ∧ size ≤ 13 := by
  intro buffer
  have found : element.run (.ofBuffer buffer none 3)
      = .ok (.array [.value (.uint .w8 7), .value (.string "AB")]) ⟨[], 13, none⟩ := by cbv
  have limits := (limits_only_stop buffer 12 3 (by decide)).1
  rw [found] at limits
  exact ⟨by decide, found, limits.2 (by decide)⟩

end Reader

end AddressCodec
