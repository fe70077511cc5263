import AddressCodec.Proofs.Checksum.Field

/-!
# The register as a remainder

Over the field of symbols a register is a polynomial of degree below six (`content`). A step
multiplies it by `X`, adds the symbol that comes in and adds a multiple of one fixed polynomial that
clears the leading term (`content_step`). So the register behind a list of symbols holds the
remainder of the polynomial of these symbols, with a leading 1 in front, in the division by that
polynomial (`residue_is_remainder`).
-/

namespace AddressCodec.Checksum

open Polynomial

/-- A list of symbols as a polynomial over the field of symbols, the coefficient of the highest
degree first. -/
noncomputable def polynomial : List UInt8 → SymbolField[X]
  | [] => 0
  | symbol :: rest => C (element symbol.toNat) * X ^ rest.length + polynomial rest

/-- What the register holds, as a polynomial of degree below six. -/
noncomputable def content (register : UInt32) : SymbolField[X] := polynomial (symbols register)

/-- The divisor without its leading term. -/
noncomputable def divisorTail : SymbolField[X] := polynomial [29, 22, 20, 21, 29, 18]

/-- The polynomial by which the register divides. -/
noncomputable def divisor : SymbolField[X] := polynomial [1, 29, 22, 20, 21, 29, 18]

/-- A symbol behind others is the constant term, and moves theirs up by one degree. -/
lemma polynomial_append_singleton (l : List UInt8) (s : UInt8) :
    polynomial (l ++ [s]) = X * polynomial l + C (element s.toNat) := by
  induction l with
  | nil => simp [polynomial]
  | cons t l ih =>
    rw [List.cons_append, polynomial, polynomial, ih, List.length_append, List.length_singleton]
    ring

/-- The polynomial of an exclusive or is the sum of the polynomials. -/
lemma polynomial_zipWith_xor {l m : List UInt8} (same : l.length = m.length) :
    polynomial (List.zipWith (· ^^^ ·) l m) = polynomial l + polynomial m := by
  induction l generalizing m with
  | nil =>
    cases m with
    | nil => simp [polynomial]
    | cons _ _ => cases same
  | cons s l ih =>
    cases m with
    | nil => cases same
    | cons t m =>
      have rest := Nat.succ.inj same
      rw [List.zipWith_cons_cons, polynomial, polynomial, polynomial, ih rest, UInt8.toNat_xor,
        element_xor, C_add, List.length_zipWith, rest, Nat.min_self]
      ring

/-- The symbols of an exclusive or are those of both, added place by place. -/
lemma symbols_xor (r s : UInt32) :
    symbols (r ^^^ s) = List.zipWith (· ^^^ ·) (symbols r) (symbols s) := by
  rw [symbols, symbols, symbols, List.zipWith_map, List.zipWith_self]
  apply List.map_congr_left
  intro i _
  rw [UInt32.shiftRight_xor, xor_and_mask, UInt32.toUInt8_xor]

/-- The polynomial of a register respects exclusive or. -/
lemma content_xor (r s : UInt32) : content (r ^^^ s) = content r + content s := by
  rw [content, symbols_xor, polynomial_zipWith_xor (by simp)]
  rfl

/-- The polynomial of a register that holds one symbol is the constant. -/
lemma content_toUInt32 {v : UInt8} (small : v.toNat < 32) :
    content v.toUInt32 = C (element v.toNat) := by
  have alone : symbols v.toUInt32 = [0, 0, 0, 0, 0, v] := by
    have step : [v].foldl step 0 = v.toUInt32 := by
      show 0 ^^^ v.toUInt32 ^^^ feedback 0 = v.toUInt32
      rw [UInt32.zero_xor, show feedback 0 = 0 by decide, UInt32.xor_zero]
    have few : [v].length ≤ length := Nat.le_add_left 1 5
    rw [← step, symbols_foldl_step_of_le few (List.forall_mem_singleton.2 small)]
    rfl
  rw [content, alone]
  simp [polynomial, element_zero]

/-- The divisor is its leading term and the rest. -/
lemma divisor_eq : divisor = X ^ 6 + divisorTail := by
  rw [divisor, polynomial, UInt8.toNat_one, element_one, C_1, one_mul]
  rfl

/-- The polynomial of symbols has a degree below their number. -/
lemma degree_polynomial_lt (l : List UInt8) : (polynomial l).degree < l.length := by
  induction l with
  | nil =>
    rw [polynomial, degree_zero]
    exact WithBot.bot_lt_coe _
  | cons s l ih =>
    rw [polynomial, List.length_cons]
    have longer : ((l.length : Nat) : WithBot Nat) < (l.length + 1 : Nat) :=
      WithBot.coe_lt_coe.2 (Nat.lt_succ_self _)
    refine lt_of_le_of_lt (degree_add_le _ _) (max_lt ?_ (lt_trans ih longer))
    exact lt_of_le_of_lt (degree_C_mul_X_pow_le _ _) longer

/-- The leading coefficient of the divisor is one. -/
lemma monic_divisor : divisor.Monic := by
  rw [divisor_eq]
  exact monic_X_pow_add (degree_polynomial_lt [29, 22, 20, 21, 29, 18])

/-- The divisor has degree 6. -/
lemma degree_divisor : divisor.degree = 6 := by
  have : Nontrivial SymbolField := isField_symbolField.nontrivial
  rw [divisor_eq, degree_add_eq_left_of_degree_lt]
  · exact degree_X_pow 6
  · rw [degree_X_pow]
    exact degree_polynomial_lt [29, 22, 20, 21, 29, 18]

/-- Scaling each symbol of a list multiplies its polynomial by the root. -/
lemma polynomial_map_scale {l : List UInt8} (small : ∀ s ∈ l, s.toNat < 32) :
    polynomial (l.map fun s => (scale s.toUInt32).toUInt8)
      = C (AdjoinRoot.root modulus) * polynomial l := by
  induction l with
  | nil => simp [polynomial]
  | cons s l ih =>
    obtain ⟨first, rest⟩ := List.forall_mem_cons.1 small
    have number : s.toUInt32.toNat = s.toNat := UInt8.toNat_toUInt32 s
    have product : (scale s.toUInt32).toUInt8.toNat = (scale s.toUInt32).toNat := by
      have bound : (scale s.toUInt32).toNat < 32 := scale_lt (number ▸ first)
      rw [UInt32.toNat_toUInt8]
      exact Nat.mod_eq_of_lt (Nat.lt_trans bound (by decide))
    rw [List.map_cons, polynomial, polynomial, ih rest, List.length_map, product,
      element_scale (number ▸ first), number, C_mul]
    ring

/-- The polynomial of the empty register is zero. -/
lemma content_zero : content 0 = 0 := by
  have twice := content_xor 0 0
  rw [UInt32.xor_self, left_eq_add] at twice
  exact twice

/-- Scaling the symbol that leaves the register multiplies what is fed back by the root. -/
lemma content_feedback_scale {t : UInt32} (small : t.toNat < 32) :
    content (feedback (scale t)) = C (AdjoinRoot.root modulus) * content (feedback t) := by
  have table : ∀ n < 32, symbols (feedback (scale (UInt32.ofNat n)))
      = (symbols (feedback (UInt32.ofNat n))).map fun s => (scale s.toUInt32).toUInt8 := by
    decide +kernel
  have multiple := table t.toNat small
  rw [UInt32.ofNat_toNat] at multiple
  rw [content, multiple, polynomial_map_scale (symbols_lt _)]
  rfl

/-- What is fed back is a multiple of the divisor without its leading term. -/
lemma content_feedback {t : UInt32} (small : t.toNat < 32) :
    content (feedback t) = C (element t.toNat) * divisorTail := by
  -- Every symbol but zero is a power of the root, and the feedback of a power is its multiple.
  have powers (m : Nat) : content (feedback (scale^[m] 1))
      = C (element (scale^[m] 1).toNat) * divisorTail := by
    induction m with
    | zero =>
      have first : symbols (feedback 1) = [29, 22, 20, 21, 29, 18] := by decide +kernel
      show polynomial (symbols (feedback 1)) = C (element 1) * _
      rw [first, element_one, C_1, one_mul]
      rfl
    | succ m ih =>
      have symbol : (scale^[m] 1).toNat < 32 := iterate_scale_lt isSymbol_one.small m
      rw [Function.iterate_succ_apply', content_feedback_scale symbol, ih, element_scale symbol,
        C_mul, mul_assoc]
  by_cases zero : t = 0
  · rw [zero, show feedback 0 = 0 by decide, content_zero, UInt32.toNat_zero, element_zero, C_0,
      zero_mul]
  · obtain ⟨m, product⟩ := exists_iterate_scale isSymbol_one ⟨small, zero⟩
    rw [← product]
    exact powers m

/-- In a step the first symbol of a register leaves it, and the others move up. -/
lemma exists_symbols_eq_cons {r : UInt32} (short : r.toNat < 2 ^ 30) :
    ∃ first rest, symbols r = first :: rest ∧ first.toNat = (r >>> 25).toNat ∧
      rest.length = 5 ∧ symbols ((r &&& 0x1ffffff) <<< 5) = rest ++ [0] := by
  cases cut : symbols r with
  | nil =>
    have six := length_symbols r
    rw [cut] at six
    cases six
  | cons first rest =>
    have six : (first :: rest).length = 6 := cut ▸ length_symbols r
    have digits := map_toNat_symbols r
    have top : (r >>> 25).toNat = r.toNat / 2 ^ 25 := by
      rw [UInt32.toNat_shiftRight, Nat.shiftRight_eq_div_pow]
      rfl
    rw [cut, List.map_cons, List.map_cons] at digits
    obtain ⟨leading, others⟩ := List.cons.inj digits
    refine ⟨first, rest, rfl, ?_, Nat.succ.inj six, ?_⟩
    · rw [leading, top]
      omega
    · apply (List.map_inj_right fun _ _ => UInt8.toNat_inj.1).1
      rw [map_toNat_symbols, toNat_moved, List.map_append, others]
      simp only [List.map_cons, List.map_nil, List.cons_append, List.nil_append, List.cons.injEq,
        and_true, UInt8.toNat_zero]
      omega

/-- A step multiplies by `X`, adds the symbol that comes in, and adds the multiple of the divisor
that clears the leading term. -/
lemma content_step {r : UInt32} {v : UInt8} (short : r.toNat < 2 ^ 30) (small : v.toNat < 32) :
    content (step r v)
      = X * content r + C (element v.toNat) + C (element (r >>> 25).toNat) * divisor := by
  obtain ⟨first, rest, whole, top, five, moved⟩ := exists_symbols_eq_cons short
  have left : (r >>> 25).toNat < 32 := by
    rw [UInt32.toNat_shiftRight, Nat.shiftRight_eq_div_pow]
    exact Nat.div_lt_of_lt_mul short
  have before : content r = C (element (r >>> 25).toNat) * X ^ 5 + polynomial rest := by
    rw [content, whole, polynomial, top, five]
  have after : content ((r &&& 0x1ffffff) <<< 5) = X * polynomial rest := by
    rw [content, moved, polynomial_append_singleton, UInt8.toNat_zero, element_zero, C_0, add_zero]
  -- the leading term comes twice, from the register and from the divisor
  have twice : C (element (r >>> 25).toNat) * X ^ 6 + C (element (r >>> 25).toNat) * X ^ 6 = 0 :=
    ZModModule.add_self _
  rw [step, content_xor, content_xor, content_toUInt32 small, content_feedback left, after,
    before, divisor_eq]
  linear_combination -twice

/-- With a leading 1 in front of the symbols, the register is what a multiple of the divisor leaves
of them. -/
lemma exists_quotient {values : List UInt8} (small : ∀ v ∈ values, v.toNat < 32) :
    ∃ q, X ^ values.length + polynomial values = q * divisor + content (residue values) := by
  induction values using List.reverseRecOn with
  | nil =>
    have one : symbols 1 = [0, 0, 0, 0, 0, 1] := by decide
    refine ⟨0, ?_⟩
    show 1 + 0 = 0 * divisor + polynomial (symbols 1)
    rw [one]
    simp [polynomial, element_zero, element_one]
  | append_singleton values v ih =>
    obtain ⟨front, last⟩ := List.forall_mem_append.1 small
    obtain ⟨q, divided⟩ := ih front
    have moved := content_step (residue_lt values) (last v List.mem_cons_self)
    have whole : residue (values ++ [v]) = step (residue values) v := residue_append values [v]
    refine ⟨X * q - C (element (residue values >>> 25).toNat), ?_⟩
    rw [whole, moved, polynomial_append_singleton, List.length_append, List.length_singleton,
      pow_succ]
    linear_combination X * divided

/-- Symbols are the elements of a field, and the register behind a list of them holds the remainder
of their polynomial, with a leading 1 in front, in the division by
`x ^ 6 + 29 x ^ 5 + 22 x ^ 4 + 20 x ^ 3 + 21 x ^ 2 + 29 x + 18`. Whatever bytes come in, the
register keeps to the thirty bits of its six coefficients all the way. -/
theorem residue_is_remainder :
    IsField SymbolField ∧ (Function.Bijective fun n : Fin 32 => element n) ∧
    (∀ values : List UInt8, (∀ v ∈ values, v < 32) →
      (∃ q, X ^ values.length + polynomial values
        = q * divisor + polynomial (symbols (residue values))) ∧
      (X ^ values.length + polynomial values) %ₘ divisor = polynomial (symbols (residue values))) ∧
    (∀ values front : List UInt8, front <+: values → (residue front).toNat < 2 ^ 30) := by
  refine ⟨isField_symbolField, element_bijective, ?_, fun values front _ => residue_lt front⟩
  intro values small
  obtain ⟨q, divided⟩ := exists_quotient fun v mem => UInt8.lt_iff_toNat_lt.1 (small v mem)
  refine ⟨⟨q, divided⟩, ?_⟩
  have short : (content (residue values)).degree < divisor.degree := by
    rw [degree_divisor]
    exact degree_polynomial_lt (symbols (residue values))
  have sum : content (residue values) + divisor * q = X ^ values.length + polynomial values := by
    rw [divided]
    ring
  exact (div_modByMonic_unique q _ monic_divisor ⟨sum, short⟩).2

/-- Seven symbols and what they leave. -/
theorem residue_is_remainder_of_seven :
    (∀ v ∈ ([3, 3, 3, 0, 24, 5, 12] : List UInt8), v < 32) ∧
    ∃ q, X ^ 7 + polynomial [3, 3, 3, 0, 24, 5, 12]
      = q * divisor + polynomial [2, 13, 26, 20, 0, 21] := by
  have small : ∀ v ∈ ([3, 3, 3, 0, 24, 5, 12] : List UInt8), v < 32 := by simp
  have register : symbols (residue [3, 3, 3, 0, 24, 5, 12]) = [2, 13, 26, 20, 0, 21] := by
    decide +kernel
  refine ⟨small, ?_⟩
  rw [← register]
  exact (residue_is_remainder.2.2.1 _ small).1

end AddressCodec.Checksum
