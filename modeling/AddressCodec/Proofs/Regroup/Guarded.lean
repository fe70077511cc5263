import AddressCodec.Proofs.Checked
import AddressCodec.Proofs.Regroup.Cutting

/-!
# Regrouping in checked operations

The definitions of regrouping once more, in operations that yield nothing where 32 bits would
overflow or a shift or difference would leave its range: one pass that tests each word as it comes,
and a loop that takes one target word after the other. They yield what the plain definitions do on
all input (`regroup?_eq`), since between two words less than a target word is pending and the
register keeps to 16 bits (`Pending.Between`).
-/

namespace AddressCodec.Regroup

open Checked

/-- The largest word of a width. -/
def mask? (width : Nat) : Option UInt32 := do
  let above ← shiftLeft 1 width
  subWord above 1

/-- The word of a width that starts `offset` bits above the lowest bit of a register. -/
def window? (width : Nat) (register : UInt32) (offset : Nat) : Option UInt8 := do
  let moved ← shiftRight register offset
  let ones ← mask? width
  toByte (moved &&& ones)

/-- Adds a source word below the pending bits. -/
def Pending.push? (source : Nat) (p : Pending) (word : UInt8) : Option Pending := do
  let moved ← shiftLeft p.register source
  let count ← add p.count source
  return ⟨(moved ||| word.toUInt32) &&& 0xffff, count⟩

/-- Writes target words off the pending bits while there are enough of them for one. A loop that
does not end within its rounds yields nothing either. -/
def Pending.drain? (target : Nat) : Nat → Pending → Option (List UInt8 × Pending)
  | 0, _ => none
  | rounds + 1, p =>
    if target ≤ p.count then do
      let left ← sub p.count target
      let word ← window? target p.register left
      let (words, last) ← drain? target rounds ⟨p.register, left⟩
      return (word :: words, last)
    else return ([], p)

/-- The pending bits as the high end of one target word. -/
def Pending.padded? (target : Nat) (p : Pending) : Option UInt8 := do
  let gap ← sub target p.count
  let moved ← shiftLeft p.register gap
  let ones ← mask? target
  toByte (moved &&& ones)

/-- The stream of target words, in one pass that tests each word before it is added. -/
def stream? (source target : Nat) :
    Pending → List UInt8 → ExceptT Error Option (List UInt8 × Pending)
  | p, [] => return ([], p)
  | p, word :: words => do
    let high ← shiftRight word.toUInt32 source
    if high ≠ 0 then throw (.wordTooWide word source)
    else
      let filled ← p.push? source word
      let (front, left) ← filled.drain? target (filled.count + 1)
      let (tail, last) ← stream? source target left words
      return (front ++ tail, last)

/-- Closes a stream. -/
def finish? (source target : Nat) (pad : Bool) (written : List UInt8) (p : Pending) :
    ExceptT Error Option (List UInt8) :=
  if pad then
    if p.count = 0 then return written
    else do
      let word ← p.padded? target
      return written ++ [word]
  else if source ≤ p.count then throw .leftoverWord
  else do
    let word ← p.padded? target
    if word ≠ 0 then throw .nonZeroPadding else return written

/-- Regroups words with every operation checked: the outer result is absent if one of them fails. -/
def regroup? (source target : Nat) (pad : Bool) (words : List UInt8) :
    Option (Except Error (List UInt8)) :=
  if source = 0 ∨ 8 < source ∨ target = 0 ∨ 8 < target then
    some (.error (.invalidWidth source target))
  else ExceptT.run do
    let (written, p) ← stream? source target .empty words
    finish? source target pad written p

/-- What holds of the pending bits between two words. -/
structure Pending.Between (target : Nat) (p : Pending) : Prop where
  pending : p.count < target
  narrow : p.register.toNat < 2 ^ 16

section Guarded

variable {source target : Nat}

/-- The largest word of a width up to 8 stays in range. -/
lemma mask?_eq (le : target ≤ 8) : mask? target = some (mask target) := by
  have table : ∀ k < 9, mask? k = some (mask k) := by decide
  exact table target (by omega)

/-- What is masked to a width up to 8 fits in a byte. -/
lemma toByte_and_mask (x : UInt32) (le : target ≤ 8) :
    toByte (x &&& mask target) = some (x &&& mask target).toUInt8 := by
  have ones : ∀ k < 9, (mask k).toNat < 256 := by decide
  apply toByte_eq_some
  rw [UInt32.toNat_and]
  exact Nat.lt_of_le_of_lt Nat.and_le_right (ones target (by omega))

/-- A word that starts within the register stays in range. -/
lemma window?_eq (register : UInt32) {offset : Nat} (le : target ≤ 8) (near : offset < 32) :
    window? target register offset = some (window target register offset) := by
  rw [window?, shiftRight_eq_some near, mask?_eq le]
  exact toByte_and_mask _ le

/-- Sixteen bits of a register can be moved up by a word. -/
lemma shiftLeft_register {p : Pending} (narrow : p.register.toNat < 2 ^ 16) {k : Nat} (le : k ≤ 8) :
    shiftLeft p.register k = some (p.register <<< k.toUInt32) := by
  apply shiftLeft_eq_some (by omega)
  have scale : 2 ^ k ≤ 2 ^ 8 := Nat.pow_le_pow_right (by decide) le
  calc p.register.toNat * 2 ^ k ≤ p.register.toNat * 2 ^ 8 := Nat.mul_le_mul_left _ scale
    _ < 2 ^ 32 := by omega

/-- A word is added to a few pending bits in a narrow register without losing any. -/
lemma Pending.push?_eq {p : Pending} (narrow : p.register.toNat < 2 ^ 16) (few : p.count ≤ 8)
    (le : source ≤ 8) (word : UInt8) : p.push? source word = some (p.push source word) := by
  rw [push?, shiftLeft_register narrow le, add_eq_some (by omega)]
  rfl

/-- The register keeps to 16 bits, whatever was in it. -/
lemma Pending.narrow_push (p : Pending) (word : UInt8) :
    (p.push source word).register.toNat < 2 ^ 16 := by
  rw [push, UInt32.toNat_and]
  exact Nat.lt_of_le_of_lt Nat.and_le_right (by decide)

/-- Too few bits for a target word stay as they are. -/
lemma Pending.words_of_lt {p : Pending} (few : p.count < target) :
    p.words target = [] ∧ p.rest target = p := by
  rw [words, rest, Nat.div_eq_of_lt few, Nat.mod_eq_of_lt few]
  exact ⟨rfl, rfl⟩

/-- The first target word stands above the bits of the others. -/
lemma Pending.words_of_le (pos : 0 < target) {p : Pending} (enough : target ≤ p.count) :
    let behind : Pending := ⟨p.register, p.count - target⟩
    p.words target = window target p.register behind.count :: behind.words target ∧
      p.rest target = behind.rest target := by
  intro behind
  have count : p.count = behind.count + target := (Nat.sub_add_cancel enough).symm
  refine ⟨?_, ?_⟩
  · rw [words, words, count, Nat.add_div_right _ pos, List.range_succ_eq_map, List.map_cons,
      List.map_map, Nat.zero_add, Nat.one_mul, Nat.add_sub_cancel]
    congr 1
    apply List.map_congr_left
    intro i _
    have offset : behind.count + target - (i + 1 + 1) * target
        = behind.count - (i + 1) * target := by
      rw [Nat.succ_mul (i + 1), Nat.add_sub_add_right]
    exact congrArg (window target p.register) offset
  · rw [rest, rest, count, Nat.add_mod_right]

/-- The loop ends within its rounds and writes all whole target words. -/
lemma Pending.drain?_eq (pos : 0 < target) (le : target ≤ 8) {rounds : Nat} {p : Pending}
    (few : p.count ≤ 16) (enough : p.count < rounds) :
    p.drain? target rounds = some (p.words target, p.rest target) := by
  induction rounds generalizing p with
  | zero => cases enough
  | succ rounds ih =>
    rw [drain?]
    by_cases more : target ≤ p.count
    · obtain ⟨first, others⟩ := words_of_le pos more
      have fewer : p.count - target ≤ 16 := by omega
      have closer : p.count - target < rounds := by omega
      have next := @ih ⟨p.register, p.count - target⟩ fewer closer
      rw [if_pos more, first, others, sub_eq_some more]
      show (window? target p.register (p.count - target)).bind _ = _
      rw [window?_eq _ le (by omega)]
      show (drain? target rounds ⟨p.register, p.count - target⟩).bind _ = _
      rw [next]
      rfl
    · obtain ⟨none, all⟩ := words_of_lt (Nat.lt_of_not_le more)
      rw [if_neg more, none, all]
      rfl

/-- The pending bits between two words are filled up in range. -/
lemma Pending.padded?_eq {p : Pending} (between : p.Between target) (le : target ≤ 8) :
    p.padded? target = some (p.padded target) := by
  obtain ⟨pending, narrow⟩ := between
  rw [padded?, sub_eq_some (Nat.le_of_lt pending)]
  show (shiftLeft p.register (target - p.count)).bind _ = _
  rw [shiftLeft_register narrow (by omega), mask?_eq le]
  exact toByte_and_mask _ le

/-- Adding a word and writing what it fills keeps to the invariant. -/
lemma Pending.between_rest_push (pos : 0 < target) (p : Pending) (word : UInt8) :
    ((p.push source word).rest target).Between target :=
  ⟨count_rest_lt _ pos, p.narrow_push word⟩

/-- What holds of the pending bits between two words holds at the end of a stream. -/
lemma Pending.Between.stream (pos : 0 < target) {p : Pending} (between : p.Between target)
    (words : List UInt8) : (stream source target p words).2.Between target := by
  induction words generalizing p with
  | nil => exact between
  | cons word words ih => exact ih (p.between_rest_push pos word)

/-- A stream in checked operations refuses the first word that is too wide; if there is none, it is
the plain stream. -/
lemma stream?_run_eq (valid : ValidWidths source target) {p : Pending} (between : p.Between target)
    (words : List UInt8) : (stream? source target p words).run =
      some (match words.find? fun word => word.toUInt32 >>> source.toUInt32 ≠ 0 with
        | some word => .error (.wordTooWide word source)
        | none => .ok (stream source target p words)) := by
  obtain ⟨-, source_le, target_pos, target_le⟩ := valid
  induction words generalizing p with
  | nil => rfl
  | cons word words ih =>
    obtain ⟨pending, narrow⟩ := between
    rw [stream?, shiftRight_eq_some (by omega), liftM_some_bind]
    by_cases wide : word.toUInt32 >>> source.toUInt32 ≠ 0
    · rw [if_pos wide, List.find?_cons, decide_eq_true wide]
      rfl
    · have count : (p.push source word).count = p.count + source := rfl
      rw [if_neg wide, List.find?_cons, decide_eq_false wide,
        p.push?_eq narrow (by omega) source_le word, liftM_some_bind,
        (p.push source word).drain?_eq target_pos target_le (by omega) (Nat.lt_succ_self _),
        liftM_some_bind]
      -- The bits above the pending ones were masked off, so the invariant holds for the next word.
      have next : ((p.push source word).rest target).Between target :=
        p.between_rest_push target_pos word
      have rest := ih next
      revert rest
      cases words.find? fun word => word.toUInt32 >>> source.toUInt32 ≠ 0 with
      | some other => exact run_bind_of_error
      | none => exact run_bind_of_ok

/-- Closing a stream in checked operations is closing it. -/
lemma finish?_run_eq (valid : ValidWidths source target) {p : Pending} (between : p.Between target)
    (pad : Bool) (written : List UInt8) :
    (finish? source target pad written p).run = some (finish source target pad written p) := by
  rw [finish?, finish, p.padded?_eq between valid.target_le, liftM_some_bind, liftM_some_bind]
  cases pad with
  | true =>
    rw [if_pos rfl, if_pos rfl]
    split <;> rfl
  | false =>
    rw [if_neg Bool.false_ne_true, if_neg Bool.false_ne_true]
    split
    · rfl
    · split <;> rfl

/-- Regrouping in checked operations is regrouping. -/
lemma regroup?_eq (source target : Nat) (pad : Bool) (words : List UInt8) :
    regroup? source target pad words = some (regroup source target pad words) := by
  rw [regroup?, regroup]
  split
  · rfl
  · rename_i inside
    have valid := validWidths_iff.2 inside
    have start : Pending.empty.Between target := ⟨valid.target_pos, by decide⟩
    have streamed := stream?_run_eq valid start words
    revert streamed
    cases wide : words.find? fun word => word.toUInt32 >>> source.toUInt32 ≠ 0 with
    | some word => exact run_bind_of_error
    | none =>
      intro streamed
      rw [run_bind_of_ok streamed]
      exact finish?_run_eq valid (start.stream valid.target_pos words) pad _

/-- Regrouping is what is specified of bit strings, for all widths and words, and can be done in one
pass in which no operation on 32 bits overflows and no shift or difference is out of range. -/
theorem regroup_is_specified (source target : Nat) (pad : Bool) (words : List UInt8) :
    regroup source target pad words = regroupBits source target pad words ∧
      regroup? source target pad words = some (regroup source target pad words) :=
  ⟨regroup_eq_regroupBits pad words, regroup?_eq source target pad words⟩

end Guarded

example : regroupBits 8 5 true [0xff, 0x01] = .ok [31, 28, 0, 16] := by
  decide

end AddressCodec.Regroup
