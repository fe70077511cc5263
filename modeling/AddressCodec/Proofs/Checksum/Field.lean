import AddressCodec.Proofs.Checksum.Period
import Mathlib.Algebra.Field.ZMod
import Mathlib.FieldTheory.Finiteness
import Mathlib.RingTheory.AdjoinRoot
import Mathlib.Tactic.ComputeDegree
import Mathlib.Tactic.LinearCombination

/-!
# The field of symbols

Symbols are the elements of a field of 32 elements: their bits are the coefficients of a polynomial
in a root of `a ^ 5 + a ^ 3 + 1` (`element_bijective`, `isField_symbolField`). Exclusive or is the
sum (`element_xor`), and `scale` multiplies by the root (`element_scale`).
-/

namespace AddressCodec.Checksum

open Polynomial

/-- The polynomial whose root generates the field. -/
noncomputable def modulus : (ZMod 2)[X] := X ^ 5 + (X ^ 3 + 1)

/-- The field of symbols. -/
abbrev SymbolField := AdjoinRoot modulus

/-- A bit as an element of the field of two elements. -/
def bit (n i : Nat) : ZMod 2 := if n.testBit i then 1 else 0

/-- Five bits as the coefficients of a polynomial, the lowest bit as that of degree zero. -/
noncomputable def bitPolynomial (n : Nat) : (ZMod 2)[X] :=
  ∑ i ∈ Finset.range 5, C (bit n i) * X ^ i

/-- The element of the field that five bits stand for. -/
noncomputable def element (n : Nat) : SymbolField :=
  AdjoinRoot.mk modulus (bitPolynomial n)

/-- The bits of an exclusive or are the sums of the bits. -/
lemma bit_xor (m n i : Nat) : bit (m ^^^ n) i = bit m i + bit n i := by
  rw [bit, bit, bit, Nat.testBit_xor]
  cases m.testBit i <;> cases n.testBit i <;> decide

/-- Numbers whose bits at a place are the same element of the field have the same bit there. -/
lemma bit_injective {m n i : Nat} (same : bit m i = bit n i) : m.testBit i = n.testBit i := by
  rw [bit, bit] at same
  revert same
  cases m.testBit i <;> cases n.testBit i <;> decide

/-- The coefficients of a number's polynomial are its five low bits. -/
lemma coeff_bitPolynomial (n k : Nat) :
    (bitPolynomial n).coeff k = if k < 5 then bit n k else 0 := by
  rw [bitPolynomial, finsetSum_coeff]
  simp only [coeff_C_mul_X_pow]
  rw [Finset.sum_ite_eq (Finset.range 5) k]
  simp only [Finset.mem_range]

/-- The polynomial of a number has a degree below 5. -/
lemma degree_bitPolynomial_lt (n : Nat) : (bitPolynomial n).degree < 5 := by
  apply (degree_lt_iff_coeff_zero _ 5).2
  intro k high
  rw [coeff_bitPolynomial, if_neg (Nat.not_lt_of_le high)]

/-- Numbers of five bits with the same polynomial are equal. -/
lemma bitPolynomial_injective {m n : Nat} (hm : m < 2 ^ 5) (hn : n < 2 ^ 5)
    (same : bitPolynomial m = bitPolynomial n) : m = n := by
  apply Nat.eq_of_testBit_eq
  intro i
  by_cases low : i < 5
  · have coefficients := congrArg (fun p => p.coeff i) same
    simp only [coeff_bitPolynomial, if_pos low] at coefficients
    exact bit_injective coefficients
  · have wide : 2 ^ 5 ≤ 2 ^ i := Nat.pow_le_pow_right (by decide) (Nat.le_of_not_lt low)
    rw [Nat.testBit_lt_two_pow (Nat.lt_of_lt_of_le hm wide),
      Nat.testBit_lt_two_pow (Nat.lt_of_lt_of_le hn wide)]

/-- The leading coefficient of the modulus is one. -/
lemma monic_modulus : modulus.Monic := by
  apply monic_X_pow_add
  compute_degree!

/-- The modulus has degree 5. -/
lemma degree_modulus : modulus.degree = 5 := by
  rw [modulus]
  compute_degree!

/-- Exclusive or is the sum of the field. -/
lemma element_xor (m n : Nat) : element (m ^^^ n) = element m + element n := by
  have sum : bitPolynomial (m ^^^ n) = bitPolynomial m + bitPolynomial n := by
    rw [bitPolynomial, bitPolynomial, bitPolynomial, ← Finset.sum_add_distrib]
    apply Finset.sum_congr rfl
    intro i _
    rw [bit_xor, C_add, add_mul]
  rw [element, sum, map_add]
  rfl

lemma element_zero : element 0 = 0 := by
  have twice := element_xor 0 0
  rw [Nat.xor_self, left_eq_add] at twice
  exact twice

lemma element_one : element 1 = 1 := by
  have one : bitPolynomial 1 = 1 := by
    simp [bitPolynomial, Finset.sum_range_succ, bit, Nat.testBit]
  rw [element, one, map_one]

/-- Numbers of five bits that are the same element of the field are equal. -/
lemma element_injective {m n : Nat} (hm : m < 2 ^ 5) (hn : n < 2 ^ 5)
    (same : element m = element n) : m = n := by
  have remainder (k : Nat) :
      AdjoinRoot.modByMonicHom monic_modulus (element k) = bitPolynomial k := by
    rw [element, AdjoinRoot.modByMonicHom_mk, modByMonic_eq_self_iff monic_modulus, degree_modulus]
    exact degree_bitPolynomial_lt k
  apply bitPolynomial_injective hm hn
  rw [← remainder m, ← remainder n, same]

/-- Every element of the field is one symbol. -/
lemma element_bijective : Function.Bijective fun n : Fin 32 => element n := by
  have card : Nat.card SymbolField = 32 := by
    rw [Nat.card_congr (AdjoinRoot.powerBasisAux' monic_modulus).equivFun.toEquiv, Nat.card_fun,
      Nat.card_fin, Nat.card_zmod, natDegree_eq_of_degree_eq_some degree_modulus]
    rfl
  have : Finite SymbolField := Nat.finite_of_card_ne_zero (by rw [card]; decide)
  apply Function.Injective.bijective_of_nat_card_le
  · intro m n same
    exact Fin.ext (element_injective m.isLt n.isLt same)
  · rw [card, Nat.card_fin]

/-- `scale` multiplies a symbol by the root. -/
lemma element_scale {r : UInt32} (small : r.toNat < 32) :
    element (scale r).toNat = AdjoinRoot.root modulus * element r.toNat := by
  -- the highest bit comes back in the places 0 and 3
  have bits : ∀ n < 32, (let m := (scale (UInt32.ofNat n)).toNat;
      bit m 0 = bit n 4 ∧ bit m 1 = bit n 0 ∧ bit m 2 = bit n 1 ∧
        bit m 3 = bit n 2 + bit n 4 ∧ bit m 4 = bit n 3) := by
    decide +kernel
  obtain ⟨zero, one, two, three, four⟩ := bits r.toNat small
  rw [UInt32.ofNat_toNat] at zero one two three four
  have carried : bitPolynomial (scale r).toNat
      = X * bitPolynomial r.toNat + C (bit r.toNat 4) * modulus := by
    simp only [bitPolynomial, Finset.sum_range_succ, Finset.sum_range_zero, zero, one, two, three,
      four, C_add, modulus]
    have twice : C (bit r.toNat 4) + C (bit r.toNat 4) = 0 := by
      rw [← C_add, (by decide : ∀ b : ZMod 2, b + b = 0), C_0]
    linear_combination -X ^ 5 * twice
  rw [element, carried, map_add, map_mul, map_mul, AdjoinRoot.mk_self, mul_zero, add_zero,
    AdjoinRoot.mk_X]
  rfl

/-- Scaling a symbol multiplies it by the root, each time. -/
lemma element_iterate_scale {r : UInt32} (small : r.toNat < 32) (m : Nat) :
    element (scale^[m] r).toNat = AdjoinRoot.root modulus ^ m * element r.toNat := by
  induction m generalizing r with
  | zero => rw [pow_zero, one_mul]; rfl
  | succ m ih =>
    rw [Function.iterate_succ_apply, ih (scale_lt small), element_scale small, pow_succ, mul_assoc]

/-- What is not zero is a power of the root and so has an inverse. -/
lemma isField_symbolField : IsField SymbolField where
  exists_pair_ne := by
    refine ⟨element 0, element 1, ?_⟩
    intro same
    cases element_injective (by decide) (by decide) same
  mul_comm := mul_comm
  mul_inv_cancel := by
    intro x ne
    obtain ⟨n, rfl⟩ := element_bijective.surjective x
    have number : (UInt32.ofNat n).toNat = n :=
      UInt32.toNat_ofNat_of_lt' (Nat.lt_trans n.isLt (by decide))
    have symbol : IsSymbol (UInt32.ofNat n) := by
      refine ⟨number.symm ▸ n.isLt, ?_⟩
      intro zero
      apply ne
      rw [zero] at number
      exact (congrArg element number.symm).trans element_zero
    obtain ⟨m, product⟩ := exists_iterate_scale symbol isSymbol_one
    refine ⟨AdjoinRoot.root modulus ^ m, ?_⟩
    have one := element_iterate_scale symbol.small m
    rw [product, number] at one
    rw [mul_comm, ← one]
    exact element_one

end AddressCodec.Checksum
