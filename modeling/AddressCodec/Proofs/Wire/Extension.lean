import AddressCodec.Proofs.Wire.Codec
import AddressCodec.Proofs.Wire.Lockstep

/-!
# Readers of a longer buffer

What a reader finds stays found when bytes are put behind the buffer, and so does every reason to
fail but a want of bytes (`Reader.lasts_of_ends`): a reader of the longer buffer is in lock step
with one of the shorter, which may give up for what it lacks (`Reader.lawful_extended`).
-/

namespace AddressCodec

/-- The same place in a buffer with more bytes behind it. -/
def Cursor.followedBy (c : Cursor) (more : List UInt8) : Cursor :=
  { c with rest := c.rest ++ more }

/-- The reasons to fail that more bytes may remove. -/
def WireError.IsShortage : WireError → Prop
  | .unexpectedEnd | .invalidStringLength _ _ => True
  | _ => False

/-- A want of bytes does not tell how far the reader would have come. -/
lemma WireError.IsShortage.reach_eq {cause : WireError} (shortage : cause.IsShortage) :
    cause.reach = 0 := by
  cases cause with
  | sizeLimit size limit => cases shortage
  | _ => rfl

/-- A run over a buffer with more bytes behind it, and one over the buffer alone; a want of bytes
excuses the second. -/
def Lockstep.extended (more : List UInt8) : Lockstep where
  Like c c' := c = c'.followedBy more
  Excuse := WireError.IsShortage

namespace Reader

variable {α : Type}

/-- Bytes that are there are taken, whatever follows them. -/
lemma taking_run_followedBy {count : Nat} {cause : Cursor → WireError} {c : Cursor}
    (inside : ∀ l ∈ c.limit, c.position + count ≤ l) (enough : count ≤ c.remaining)
    (more : List UInt8) : (taking count cause).run (c.followedBy more)
      = .ok (c.rest.take count) ((c.advance count).followedBy more) := by
  have longer : (c.followedBy more).remaining = c.remaining + more.length := List.length_append
  refine taking_run_eq_ok_iff.2 ⟨inside, ?_, ?_, ?_⟩
  · rw [longer]
    exact Nat.le_trans enough (Nat.le_add_right _ _)
  · exact (List.take_append_of_le_length enough).symm
  · rw [Cursor.followedBy, Cursor.advance, Cursor.followedBy, Cursor.advance,
      List.drop_append_of_le_length enough]

/-- Whether the limit is passed does not depend on what follows. -/
lemma extended_agree_taking (more : List UInt8) (count : Nat) {cause : Cursor → WireError}
    (shortage : ∀ c : Cursor, (cause c).IsShortage) :
    (Lockstep.extended more).Agree (taking count cause) (taking count cause) := by
  apply Lockstep.agree_taking
  rintro _ c rfl
  rcases taking_run_cases count cause c with
    ⟨inside, enough, run⟩ | ⟨l, limited, passed, run⟩ | ⟨-, short, run⟩
  · rw [run, taking_run_followedBy inside enough more]
    exact .ok rfl
  · rw [run]
    -- The position is the same in the longer buffer, and so is whether the limit is passed.
    rcases taking_run_cases count cause (c.followedBy more) with
      ⟨inside, -⟩ | ⟨_, limited', -, run'⟩ | ⟨inside, -⟩
    · exact absurd (inside l limited) (Nat.not_le_of_lt passed)
    · cases limited.symm.trans limited'
      rw [run']
      exact .error rfl
    · exact absurd (inside l limited) (Nat.not_le_of_lt passed)
  · rw [run]
    refine .excused (shortage c) ?_
    intro a next _
    rw [(shortage c).reach_eq]
    exact Nat.zero_le _

/-- The steps that take bytes agree on a buffer and a longer one. -/
lemma lawful_extended (more : List UInt8) : (Lockstep.extended more).Lawful := by
  refine ⟨fun count => ?_, fun count => ?_⟩
  · rw [bytes_eq]
    exact extended_agree_taking more count fun _ => trivial
  · exact extended_agree_taking more count fun _ => trivial

/-- What more bytes make of the outcome of a run: what was found is found again, and every failure
but one for want of bytes is repeated, at the same place. -/
def Lasts (more : List UInt8) :
    EStateM.Result WireError Cursor α → EStateM.Result WireError Cursor α → Prop
  | .ok a next, longer => longer = .ok a (next.followedBy more)
  | .error cause stop, longer => ¬ cause.IsShortage → longer = .error cause (stop.followedBy more)

/-- The outcome of a run lasts where the run over the longer buffer ends alike. -/
lemma lasts_of_ends {more : List UInt8} {longer result : EStateM.Result WireError Cursor α}
    (ends : (Lockstep.extended more).Ends longer result) : Lasts more result longer := by
  cases ends with
  | @ok a next next' like =>
    obtain rfl : next = next'.followedBy more := like
    rfl
  | @error cause stop stop' like =>
    obtain rfl : stop = stop'.followedBy more := like
    exact fun _ => rfl
  | excused excuse => exact fun lasting => absurd excuse lasting

/-- The outcome of reading a value lasts when more bytes follow. -/
lemma value_lasts (c : Cursor) (more : List UInt8) :
    Lasts more (value.run c) (value.run (c.followedBy more)) :=
  lasts_of_ends ((lawful_extended more).value.together _ c rfl)

/-- The longer buffer gives the reader of trees more depth. -/
lemma element_lasts (c : Cursor) (more : List UInt8) :
    Lasts more (element.run c) (element.run (c.followedBy more)) := by
  have deeper : c.remaining ≤ (c.followedBy more).remaining := by
    rw [Cursor.remaining, Cursor.remaining, Cursor.followedBy, List.length_append]
    exact Nat.le_add_right _ _
  exact lasts_of_ends (((lawful_extended more).elementWithin_of_le trivial deeper).together _ c rfl)

end Reader

end AddressCodec
