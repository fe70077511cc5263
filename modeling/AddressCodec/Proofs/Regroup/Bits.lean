import Mathlib.Algebra.Order.Ring.Nat
import Mathlib.Tactic.Common

/-!
# Words as bit strings

The bits of a word of some width, most significant first, and those of a list of words. Lists of
words of one width are known from their bit strings (`spell_injective`), and a number of many words
is the string of its windows (`bitsOf_mul_add`).
-/

namespace AddressCodec.Regroup

/-- The low bits of a number, most significant first. -/
def bitsOf : (width : Nat) → Nat → List Bool
  | 0, _ => []
  | width + 1, n => n.testBit width :: bitsOf width n

/-- The bits of words of one width, in order. -/
def spell (width : Nat) (words : List UInt8) : List Bool :=
  words.flatMap fun word => bitsOf width word.toNat

/-- Words that have a width. -/
def Fit (width : Nat) (words : List UInt8) : Prop :=
  ∀ word ∈ words, word.toNat < 2 ^ width

/-- A number has as many low bits as are asked for. -/
@[simp] lemma length_bitsOf (width n : Nat) : (bitsOf width n).length = width := by
  induction width with
  | zero => rfl
  | succ width ih => rw [bitsOf, List.length_cons, ih]

/-- Words have as many bits as their number and width say. -/
@[simp] lemma length_spell (width : Nat) (words : List UInt8) :
    (spell width words).length = width * words.length := by
  induction words with
  | nil => rfl
  | cons word words ih =>
    rw [spell, List.flatMap_cons, List.length_append, length_bitsOf, List.length_cons,
      Nat.mul_succ, Nat.add_comm, ← ih]
    rfl

/-- The bits of words in front come first. -/
lemma spell_append (width : Nat) (words more : List UInt8) :
    spell width (words ++ more) = spell width words ++ spell width more :=
  List.flatMap_append

/-- Numbers that agree in their low bits have the same ones. -/
lemma bitsOf_congr {width m n : Nat} (same : ∀ i < width, m.testBit i = n.testBit i) :
    bitsOf width m = bitsOf width n := by
  induction width with
  | zero => rfl
  | succ width ih =>
    rw [bitsOf, bitsOf, same width (Nat.lt_succ_self _),
      ih fun i h => same i (Nat.lt_succ_of_lt h)]

/-- Bits above the width do not count. -/
@[simp] lemma bitsOf_mod (width n : Nat) : bitsOf width (n % 2 ^ width) = bitsOf width n := by
  apply bitsOf_congr
  intro i h
  rw [Nat.testBit_mod_two_pow, decide_eq_true h, Bool.true_and]

/-- The low bits fall into higher and lower ones. -/
lemma bitsOf_add (high low n : Nat) :
    bitsOf (high + low) n = bitsOf high (n >>> low) ++ bitsOf low n := by
  induction high with
  | zero => rw [Nat.zero_add]; rfl
  | succ high ih =>
    rw [Nat.succ_add, bitsOf, bitsOf, ih, Nat.testBit_shiftRight, Nat.add_comm low high]
    rfl

/-- Numbers of a width with the same bits are equal. -/
lemma bitsOf_injective {width m n : Nat} (hm : m < 2 ^ width) (hn : n < 2 ^ width)
    (same : bitsOf width m = bitsOf width n) : m = n := by
  apply Nat.eq_of_testBit_eq
  intro i
  by_cases inside : i < width
  · clear hm hn
    induction width with
    | zero => cases inside
    | succ width ih =>
      obtain ⟨top, rest⟩ := List.cons.inj same
      rcases Nat.lt_succ_iff_lt_or_eq.1 inside with below | rfl
      · exact ih rest below
      · exact top
  · have wide : 2 ^ width ≤ 2 ^ i := Nat.pow_le_pow_right (by decide) (Nat.le_of_not_lt inside)
    rw [Nat.testBit_lt_two_pow (Nat.lt_of_lt_of_le hm wide),
      Nat.testBit_lt_two_pow (Nat.lt_of_lt_of_le hn wide)]

@[simp] lemma bitsOf_zero (width : Nat) : bitsOf width 0 = List.replicate width false := by
  induction width with
  | zero => rfl
  | succ width ih => rw [bitsOf, Nat.zero_testBit, ih]; rfl

/-- Moving a number up appends zeros. -/
lemma bitsOf_shiftLeft (width zeros n : Nat) :
    bitsOf (width + zeros) (n <<< zeros) = bitsOf width n ++ List.replicate zeros false := by
  rw [bitsOf_add, Nat.shiftLeft_shiftRight, ← bitsOf_zero zeros]
  congr 1
  apply bitsOf_congr
  intro i h
  rw [Nat.testBit_shiftLeft, decide_eq_false (Nat.not_le.2 h), Bool.false_and, Nat.zero_testBit]

/-- The low bits of a number are the windows of one width above the lowest few bits, and these. -/
lemma bitsOf_mul_add (width count low n : Nat) :
    bitsOf (count * width + low) n
      = ((List.range count).flatMap fun i =>
          bitsOf width (n >>> (count * width + low - (i + 1) * width))) ++ bitsOf low n := by
  induction count with
  | zero => rw [Nat.zero_mul, Nat.zero_add]; rfl
  | succ count ih =>
    have total : (count + 1) * width + low = width + (count * width + low) := by
      rw [Nat.succ_mul]
      omega
    rw [total, bitsOf_add, ih, List.range_succ_eq_map, List.flatMap_cons, List.flatMap_map,
      List.append_assoc]
    congr 2
    · rw [Nat.zero_add, Nat.one_mul, Nat.add_sub_cancel_left]
    · congr 1
      funext i
      rw [Nat.succ_mul (i + 1), Nat.add_comm _ width, Nat.add_sub_add_left]

/-- Words of one width are known from their bit string. -/
lemma spell_injective {width : Nat} (pos : 0 < width) {words others : List UInt8}
    (hw : Fit width words) (ho : Fit width others) (same : spell width words = spell width others) :
    words = others := by
  have count : words.length = others.length := by
    have := congrArg List.length same
    rw [length_spell, length_spell] at this
    exact Nat.eq_of_mul_eq_mul_left pos this
  induction words generalizing others with
  | nil => exact (List.length_eq_zero_iff.1 count.symm).symm
  | cons word words ih =>
    cases others with
    | nil => cases count
    | cons other others =>
      obtain ⟨first, restFit⟩ := List.forall_mem_cons.1 hw
      obtain ⟨first', restFit'⟩ := List.forall_mem_cons.1 ho
      rw [spell, spell, List.flatMap_cons, List.flatMap_cons] at same
      obtain ⟨head, tail⟩ := List.append_inj same (by simp)
      rw [UInt8.toNat_inj.1 (bitsOf_injective first first' head),
        ih restFit restFit' tail (Nat.succ.inj count)]

end AddressCodec.Regroup
