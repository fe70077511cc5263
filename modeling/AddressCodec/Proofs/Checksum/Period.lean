import AddressCodec.Proofs.Checksum.Codewords
import Mathlib.Data.Int.GCD
import Mathlib.Dynamics.PeriodicPts.Defs

/-!
# The period of the register

How a symbol in the register moves while zeros come in. The step of a zero commutes with multiplying
all symbols of the register by one element of the field of 32 symbols (`scale_coast`), whose powers
are all symbols but zero (`exists_iterate_scale`), so every symbol moves as the symbol 1 does. The
numbers of zeros that bring a symbol back to a symbol are the multiples of 1023, and what they bring
back is the symbol itself (`iterate_coast_eq_iff`).
-/

namespace AddressCodec.Checksum

open Function

/-- The register after a zero. -/
def coast (r : UInt32) : UInt32 := step r 0

/-- The register with each of its symbols multiplied by 2 in the field of 32 symbols, in which
`2 ^ 5 = 2 ^ 3 + 1`. -/
def scale (r : UInt32) : UInt32 :=
  let carry := (r >>> 4) &&& 0x2108421
  ((r &&& 0x1ef7bdef) <<< 1) ^^^ carry ^^^ (carry <<< 3)

/-- A map that respects exclusive or. -/
def Linear (f : UInt32 → UInt32) : Prop :=
  ∀ r s, f (r ^^^ s) = f r ^^^ f s

/-- A linear map keeps zero. -/
lemma Linear.map_zero {f : UInt32 → UInt32} (linear : Linear f) : f 0 = 0 := by
  have twice := linear 0 0
  rw [UInt32.xor_self, UInt32.xor_self] at twice
  exact twice

/-- Linear maps one behind the other are linear. -/
lemma Linear.comp {f g : UInt32 → UInt32} (hf : Linear f) (hg : Linear g) :
    Linear fun r => f (g r) := by
  intro r s
  exact (congrArg f (hg r s)).trans (hf _ _)

/-- A number without its top bit is smaller than that bit. -/
lemma xor_two_pow_lt {m n : Nat} (le : 2 ^ n ≤ m) (lt : m < 2 ^ (n + 1)) : m ^^^ 2 ^ n < 2 ^ n := by
  have pos := Nat.two_pow_pos n
  have top : m / 2 ^ n = 1 := by
    apply Nat.div_eq_of_lt_le
    · rw [Nat.one_mul]
      exact le
    · rw [Nat.pow_succ] at lt
      omega
  have cleared : (m ^^^ 2 ^ n) / 2 ^ n = 0 := by
    rw [Nat.xor_div_two_pow, Nat.div_self pos, top]
    rfl
  exact Nat.lt_of_div_eq_zero pos cleared

/-- Linear maps that agree on single bits agree. -/
lemma Linear.eq_of_bits {f g : UInt32 → UInt32} (hf : Linear f) (hg : Linear g)
    (bits : ∀ i < 32, f (UInt32.ofNat (2 ^ i)) = g (UInt32.ofNat (2 ^ i))) (r : UInt32) :
    f r = g r := by
  have below : ∀ n ≤ 32, ∀ m < 2 ^ n, f (UInt32.ofNat m) = g (UInt32.ofNat m) := by
    intro n
    induction n with
    | zero =>
      intro _ m small
      cases Nat.lt_one_iff.1 small
      exact hf.map_zero.trans hg.map_zero.symm
    | succ n ih =>
      intro le m small
      rcases Nat.lt_or_ge m (2 ^ n) with low | high
      · exact ih (Nat.le_of_succ_le le) m low
      · have parts : UInt32.ofNat m = UInt32.ofNat (m ^^^ 2 ^ n) ^^^ UInt32.ofNat (2 ^ n) := by
          rw [← UInt32.ofNat_xor, Nat.xor_assoc, Nat.xor_self, Nat.xor_zero]
        rw [parts, hf, hg, bits n le, ih (Nat.le_of_succ_le le) _ (xor_two_pow_lt high small)]
  have whole := below 32 (Nat.le_refl 32) r.toNat r.toNat_lt
  rwa [UInt32.ofNat_toNat] at whole

/-- Moving the register over a zero is linear. -/
lemma linear_coast : Linear coast := by
  intro r s
  exact step_xor r s 0 0

/-- Scaling is linear. -/
lemma linear_scale : Linear scale := by
  intro r s
  simp only [scale, UInt32.shiftRight_xor, xor_and_mask, UInt32.shiftLeft_xor]
  ac_rfl

/-- Taking in a zero is linear over the field of symbols. -/
lemma scale_coast : Function.Commute scale coast :=
  (linear_scale.comp linear_coast).eq_of_bits (linear_coast.comp linear_scale)
    (by decide +kernel)

/-- The products of a symbol are symbols. -/
lemma scale_lt {r : UInt32} (small : r.toNat < 32) : (scale r).toNat < 32 := by
  have table : ∀ n < 32, (scale (UInt32.ofNat n)).toNat < 32 := by decide +kernel
  have product := table r.toNat small
  rwa [UInt32.ofNat_toNat] at product

/-- Scaling a symbol gives a symbol, any number of times. -/
lemma iterate_scale_lt {r : UInt32} (small : r.toNat < 32) (m : Nat) :
    (scale^[m] r).toNat < 32 := by
  induction m generalizing r with
  | zero => exact small
  | succ m ih => exact ih (scale_lt small)

/-- A register that holds one symbol and not zero. -/
structure IsSymbol (r : UInt32) : Prop where
  small : r.toNat < 32
  ne_zero : r ≠ 0

/-- One is a symbol. -/
lemma isSymbol_one : IsSymbol 1 := ⟨by decide, by decide⟩

/-- Every symbol but zero is a product of every other one. -/
lemma exists_iterate_scale {r s : UInt32} (hr : IsSymbol r) (hs : IsSymbol s) :
    ∃ m, scale^[m] r = s := by
  have toOne : ∀ n < 32, UInt32.ofNat n ≠ 0 → ∃ m < 31, scale^[m] (UInt32.ofNat n) = 1 := by
    decide +kernel
  have ofOne : ∀ n < 32, UInt32.ofNat n ≠ 0 → ∃ m < 31, scale^[m] 1 = UInt32.ofNat n := by
    decide +kernel
  have first := toOne r.toNat hr.small
  have second := ofOne s.toNat hs.small
  rw [UInt32.ofNat_toNat] at first second
  obtain ⟨m, -, one⟩ := first hr.ne_zero
  obtain ⟨n, -, same⟩ := second hs.ne_zero
  refine ⟨n + m, ?_⟩
  rw [iterate_add_apply, one, same]

/-- So many zeros bring symbols back to symbols. -/
def Returns (k : Nat) : Prop := (coast^[k] 1).toNat < 32

/-- All symbols move as the symbol 1 does. -/
lemma returns_iff_of_isSymbol {r : UInt32} (hr : IsSymbol r) {k : Nat} :
    Returns k ↔ (coast^[k] r).toNat < 32 := by
  refine ⟨?_, ?_⟩
  · intro back
    obtain ⟨m, product⟩ := exists_iterate_scale isSymbol_one hr
    rw [← product, ← (scale_coast.iterate_iterate m k).eq]
    exact iterate_scale_lt back m
  · intro back
    obtain ⟨m, product⟩ := exists_iterate_scale hr isSymbol_one
    rw [Returns, ← product, ← (scale_coast.iterate_iterate m k).eq]
    exact iterate_scale_lt back m

/-- A register of 30 bits keeps to them over zeros. -/
lemma iterate_coast_lt {r : UInt32} (small : r.toNat < 2 ^ 30) (k : Nat) :
    (coast^[k] r).toNat < 2 ^ 30 := by
  induction k generalizing r with
  | zero => exact small
  | succ k ih => exact ih (step_lt r 0)

/-- Registers of 30 bits that zeros make equal are equal. -/
lemma iterate_coast_injective (k : Nat) {r s : UInt32} (hr : r.toNat < 2 ^ 30)
    (hs : s.toNat < 2 ^ 30) (same : coast^[k] r = coast^[k] s) : r = s := by
  induction k generalizing r s with
  | zero => exact same
  | succ k ih => exact step_injective hr hs (ih (step_lt r 0) (step_lt s 0) same)

/-- An empty register stays empty over zeros. -/
lemma iterate_coast_zero (k : Nat) : coast^[k] 0 = 0 :=
  iterate_fixed linear_coast.map_zero k

/-- A symbol that comes back to a symbol does not come back to zero. -/
lemma IsSymbol.iterate_coast {r : UInt32} (hr : IsSymbol r) {k : Nat} (back : Returns k) :
    IsSymbol (coast^[k] r) := by
  refine ⟨(returns_iff_of_isSymbol hr).1 back, ?_⟩
  intro empty
  have short : r.toNat < 2 ^ 30 := Nat.lt_trans hr.small (by decide)
  exact hr.ne_zero
    (iterate_coast_injective k short (by decide) (empty.trans (iterate_coast_zero k).symm))

/-- Numbers of zeros that bring symbols back do so one after the other. -/
lemma Returns.add {k l : Nat} (hk : Returns k) (hl : Returns l) : Returns (k + l) := by
  rw [Returns, iterate_add_apply]
  exact ((isSymbol_one.iterate_coast hl).iterate_coast hk).small

/-- A multiple of a number of zeros that brings symbols back does so too. -/
lemma Returns.of_dvd {k l : Nat} (hk : Returns k) (dvd : k ∣ l) : Returns l := by
  obtain ⟨m, rfl⟩ := dvd
  induction m with
  | zero => exact show (1 : UInt32).toNat < 32 by decide
  | succ m ih => exact ih.add hk

/-- After 1023 zeros the symbol 1 is back. -/
lemma isPeriodicPt_coast_one : IsPeriodicPt coast 1023 1 := by
  show coast^[1023] 1 = 1
  decide +kernel

/-- Symbols are back after the multiples of 1023 and never else. If they were back after another
number of zeros, they would be after its greatest common divisor with 1023, and so after one of the
three largest proper divisors. -/
lemma returns_iff {k : Nat} : Returns k ↔ 1023 ∣ k := by
  refine ⟨?_, ?_⟩
  · intro back
    by_contra other
    have less : Nat.gcd k 1023 < 1023 := by
      refine Nat.lt_of_le_of_ne (Nat.gcd_le_right k (by decide)) ?_
      intro whole
      exact other (whole ▸ Nat.gcd_dvd_left k 1023)
    obtain ⟨m, -, gcd⟩ := Nat.exists_mul_mod_eq_gcd less
    -- By Bezout, a multiple of the number of zeros is the divisor modulo 1023.
    have short : Returns (Nat.gcd k 1023) := by
      have far := back.of_dvd (Dvd.intro m rfl)
      rw [Returns, ← isPeriodicPt_coast_one.iterate_mod_apply, gcd] at far
      exact far
    have divisors : ∀ d < 1023, d ∣ 1023 → d ∣ 341 ∨ d ∣ 93 ∨ d ∣ 33 := by decide +kernel
    rcases divisors _ less (Nat.gcd_dvd_right k 1023) with h | h | h
    · exact absurd (short.of_dvd h) (by unfold Returns; decide +kernel)
    · exact absurd (short.of_dvd h) (by unfold Returns; decide +kernel)
    · exact absurd (short.of_dvd h) (by unfold Returns; decide +kernel)
  · intro dvd
    have once : Returns 1023 := by
      rw [Returns, isPeriodicPt_coast_one.eq]
      decide
    exact once.of_dvd dvd

/-- Every symbol is back after 1023 zeros. -/
lemma IsSymbol.isPeriodicPt {r : UInt32} (hr : IsSymbol r) : IsPeriodicPt coast 1023 r := by
  obtain ⟨m, product⟩ := exists_iterate_scale isSymbol_one hr
  rw [← product]
  exact isPeriodicPt_coast_one.map (scale_coast.iterate_left m)

/-- Zeros bring a symbol to a symbol exactly if they are a multiple of 1023 and the two symbols are
the same. -/
lemma iterate_coast_eq_iff {r s : UInt32} (hr : IsSymbol r) (hs : IsSymbol s) {k : Nat} :
    coast^[k] r = s ↔ 1023 ∣ k ∧ r = s := by
  refine ⟨?_, ?_⟩
  · intro moved
    have dvd : 1023 ∣ k := by
      rw [← returns_iff, returns_iff_of_isSymbol hr, moved]
      exact hs.small
    exact ⟨dvd, (hr.isPeriodicPt.trans_dvd dvd).eq.symm.trans moved⟩
  · intro both
    obtain ⟨dvd, same⟩ := both
    rw [← same]
    exact (hr.isPeriodicPt.trans_dvd dvd).eq

/-- The register after zeros is that after each of them in turn. -/
lemma foldl_step_replicate_zero (k : Nat) (r : UInt32) :
    (List.replicate k 0).foldl step r = coast^[k] r := by
  induction k generalizing r with
  | zero => rfl
  | succ k ih => exact ih (step r 0)

/-- A difference in the register moves through a run as it does through zeros. -/
lemma foldl_step_xor (values : List UInt8) (r s : UInt32) :
    values.foldl step (r ^^^ s) = values.foldl step r ^^^ coast^[values.length] s := by
  rw [UInt32.xor_comm r s, foldl_step_split, foldl_step_replicate_zero, UInt32.xor_comm]

/-- A difference in a value is one in the register behind it. -/
lemma step_xor_value (r : UInt32) (v e : UInt8) : step r (v ^^^ e) = step r v ^^^ e.toUInt32 := by
  rw [step, step, UInt8.toUInt32_xor]
  ac_rfl

/-- A difference in one value, moved through the values behind it, is the difference at the end. -/
lemma foldl_step_modify {values : List UInt8} {i : Nat} (inside : i < values.length) (e : UInt8)
    (r : UInt32) : (values.modify i (· ^^^ e)).foldl step r
      = values.foldl step r ^^^ coast^[values.length - 1 - i] e.toUInt32 := by
  induction values generalizing i r with
  | nil => cases inside
  | cons v values ih =>
    cases i with
    | zero =>
      rw [List.modify_zero_cons, List.foldl_cons, List.foldl_cons, step_xor_value, foldl_step_xor]
      rfl
    | succ i =>
      have place : (v :: values).length - 1 - (i + 1) = values.length - 1 - i := by
        rw [List.length_cons]
        omega
      rw [List.modify_succ_cons, List.foldl_cons, List.foldl_cons, place]
      exact ih (Nat.lt_of_succ_lt_succ inside) (step r v)

/-- A byte fits in the register. -/
lemma toUInt32_lt {e : UInt8} : e.toUInt32.toNat < 2 ^ 30 := by
  rw [UInt8.toNat_toUInt32]
  exact Nat.lt_trans e.toNat_lt (by decide)

/-- A value between 1 and 31 is a symbol. -/
lemma isSymbol_toUInt32 {e : UInt8} (ne : e ≠ 0) (small : e < 32) : IsSymbol e.toUInt32 := by
  refine ⟨?_, ?_⟩
  · rw [UInt8.toNat_toUInt32]
    exact UInt8.lt_iff_toNat_lt.1 small
  · intro zero
    exact ne (UInt8.toUInt32_inj.1 zero)

/-- Only zero changes nothing when it is added. -/
lemma xor_eq_left_iff (r d : UInt32) : r ^^^ d = r ↔ d = 0 := by
  refine ⟨?_, ?_⟩
  · intro same
    exact (UInt32.xor_right_inj r).1 (same.trans UInt32.xor_zero.symm)
  · intro none
    rw [none, UInt32.xor_zero]

/-- Two wrong symbols behind each other pass exactly if they are a multiple of 1023 places apart and
are wrong in the same way. -/
lemma verify_modify_modify_iff {hrp : String} {symbols : List UInt8}
    (valid : verify hrp symbols = true) {i j : Nat} (before : i < j) (inside : j < symbols.length)
    {e f : UInt8} (he : IsSymbol e.toUInt32) (hf : IsSymbol f.toUInt32) :
    verify hrp ((symbols.modify i (· ^^^ e)).modify j (· ^^^ f)) = true ↔
      1023 ∣ j - i ∧ e = f := by
  have apart : symbols.length - 1 - i = symbols.length - 1 - j + (j - i) := by omega
  have changed : residue (expand hrp ++ (symbols.modify i (· ^^^ e)).modify j (· ^^^ f))
      = residue (expand hrp ++ symbols)
        ^^^ coast^[symbols.length - 1 - j] (coast^[j - i] e.toUInt32)
        ^^^ coast^[symbols.length - 1 - j] f.toUInt32 := by
    rw [residue_append, residue_append, foldl_step_modify (by simpa using inside),
      foldl_step_modify (Nat.lt_trans before inside), List.length_modify, apart, iterate_add_apply]
  rw [verify, beq_iff_eq] at valid
  rw [verify, beq_iff_eq, changed, valid, UInt32.xor_assoc, xor_eq_left_iff,
    UInt32.xor_eq_zero_iff, ← UInt8.toUInt32_inj, ← iterate_coast_eq_iff he hf]
  refine ⟨?_, ?_⟩
  · exact iterate_coast_injective _ (iterate_coast_lt toUInt32_lt _) toUInt32_lt
  · exact congrArg _

end AddressCodec.Checksum
