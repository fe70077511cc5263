import AddressCodec.Checksum
import Mathlib.Algebra.Order.Ring.Nat
import Mathlib.Tactic.Common

/-!
# The checksum register

The register step is linear over exclusive or (`step_xor`), keeps the register below 30 bits
(`step_lt`) and loses nothing of a 30-bit register (`step_injective`). From these three, runs of the
register are compared: two runs over the same values differ exactly as their starts do
(`foldl_step_injective`), and six symbols fed to an empty register fill it with their own bits
(`symbols_foldl_step_zero`).
-/

namespace AddressCodec.Checksum

/-- Masking respects exclusive or. -/
lemma xor_and_mask (a b mask : UInt32) : (a ^^^ b) &&& mask = (a &&& mask) ^^^ (b &&& mask) := by
  apply UInt32.toBitVec_inj.1
  simp only [UInt32.toBitVec_and, UInt32.toBitVec_xor]
  ext i
  simp [Bool.and_xor_distrib_right]

/-- A bit is zero or one. -/
lemma and_one_cases (a : UInt32) : a &&& 1 = 0 ∨ a &&& 1 = 1 := by
  have low : (a &&& 1).toNat = a.toNat % 2 := by
    rw [UInt32.toNat_and]
    exact Nat.and_one_is_mod a.toNat
  rcases Nat.mod_two_eq_zero_or_one a.toNat with e | e
  · exact .inl (UInt32.toNat_inj.1 (low.trans e))
  · exact .inr (UInt32.toNat_inj.1 (low.trans e))

/-- The words selected by an exclusive or of bits add up to what both select. -/
lemma foldl_select_xor (words : List (UInt32 × Nat)) (a b s t : UInt32) :
    words.foldl (fun sum (word, i) =>
        if ((a ^^^ b) >>> i.toUInt32) &&& 1 = 1 then sum ^^^ word else sum) (s ^^^ t)
      = words.foldl (fun sum (word, i) =>
          if (a >>> i.toUInt32) &&& 1 = 1 then sum ^^^ word else sum) s
        ^^^ words.foldl (fun sum (word, i) =>
          if (b >>> i.toUInt32) &&& 1 = 1 then sum ^^^ word else sum) t := by
  induction words generalizing s t with
  | nil => rfl
  | cons entry words ih =>
    obtain ⟨word, i⟩ := entry
    simp only [List.foldl_cons]
    rw [← ih]
    congr 1
    rw [UInt32.shiftRight_xor, xor_and_mask]
    -- a word selected twice cancels
    rcases and_one_cases (a >>> i.toUInt32) with ha | ha <;>
      rcases and_one_cases (b >>> i.toUInt32) with hb | hb <;>
      simp only [ha, hb, UInt32.xor_self, UInt32.xor_zero, UInt32.zero_xor, if_true,
        show (0 : UInt32) ≠ 1 by decide, if_false]
    · ac_rfl
    · ac_rfl
    · rw [show s ^^^ word ^^^ (t ^^^ word) = s ^^^ t ^^^ (word ^^^ word) by ac_rfl]
      simp

/-- What is fed back is linear in the bits that left the register. -/
lemma feedback_xor (a b : UInt32) : feedback (a ^^^ b) = feedback a ^^^ feedback b :=
  foldl_select_xor generators.zipIdx a b 0 0

/-- The register step is linear. -/
lemma step_xor (r s : UInt32) (v w : UInt8) :
    step (r ^^^ s) (v ^^^ w) = step r v ^^^ step s w := by
  rw [step, step, step, UInt32.shiftRight_xor, feedback_xor, xor_and_mask, UInt32.shiftLeft_xor,
    UInt8.toUInt32_xor]
  ac_rfl

/-- Selected words of 30 bits add up to 30 bits. -/
lemma foldl_select_lt (words : List (UInt32 × Nat)) (top sum : UInt32)
    (small : ∀ entry ∈ words, entry.1.toNat < 2 ^ 30) (start : sum.toNat < 2 ^ 30) :
    (words.foldl (fun sum (word, i) =>
      if (top >>> i.toUInt32) &&& 1 = 1 then sum ^^^ word else sum) sum).toNat < 2 ^ 30 := by
  induction words generalizing sum with
  | nil => exact start
  | cons entry words ih =>
    obtain ⟨word, i⟩ := entry
    rw [List.foldl_cons]
    apply ih
    · exact fun entry mem => small entry (List.mem_cons_of_mem _ mem)
    · have wordSmall : word.toNat < 2 ^ 30 := small (word, i) List.mem_cons_self
      dsimp only
      split
      · rw [UInt32.toNat_xor]
        exact Nat.xor_lt_two_pow start wordSmall
      · exact start

/-- What is fed back has 30 bits. -/
lemma feedback_lt (top : UInt32) : (feedback top).toNat < 2 ^ 30 :=
  foldl_select_lt generators.zipIdx top 0 (by decide) (by decide)

/-- The bits that stay in the register, moved up, as a number. -/
lemma toNat_moved (r : UInt32) : ((r &&& 0x1ffffff) <<< 5).toNat = r.toNat % 2 ^ 25 * 2 ^ 5 := by
  have kept : (r &&& 0x1ffffff).toNat = r.toNat % 2 ^ 25 := by
    rw [UInt32.toNat_and]
    exact Nat.and_two_pow_sub_one_eq_mod r.toNat 25
  rw [UInt32.toNat_shiftLeft, kept, Nat.shiftLeft_eq]
  have : r.toNat % 2 ^ 25 < 2 ^ 25 := Nat.mod_lt _ (by decide)
  simp only [show (5 : UInt32).toNat % 32 = 5 by decide]
  omega

/-- After a step the register has 30 bits, whatever it held before and whichever byte came in. -/
lemma step_lt (r : UInt32) (v : UInt8) : (step r v).toNat < 2 ^ 30 := by
  rw [step, UInt32.toNat_xor, UInt32.toNat_xor]
  refine Nat.xor_lt_two_pow (Nat.xor_lt_two_pow ?_ ?_) (feedback_lt _)
  · rw [toNat_moved]
    have : r.toNat % 2 ^ 25 < 2 ^ 25 := Nat.mod_lt _ (by decide)
    omega
  · have := v.toNat_lt
    rw [UInt8.toNat_toUInt32]
    omega

/-- Five bits that left the register and feed nothing back into its low five bits are all clear. -/
lemma eq_zero_of_feedback_low {top : Nat} (small : top < 32)
    (low : (feedback (UInt32.ofNat top)).toNat % 32 = 0) : top = 0 := by
  have table : ∀ t < 32, (feedback (UInt32.ofNat t)).toNat % 32 = 0 → t = 0 := by decide
  exact table top small low

/-- Only the empty 30-bit register is emptied by a step that adds nothing in. -/
lemma eq_zero_of_step_eq_zero {r : UInt32} (small : r.toNat < 2 ^ 30) (e : step r 0 = 0) :
    r = 0 := by
  have balanced : (r &&& 0x1ffffff) <<< 5 = feedback (r >>> 25) := by
    have : ((r &&& 0x1ffffff) <<< 5) ^^^ feedback (r >>> 25) = 0 := by
      simpa [step] using e
    exact UInt32.xor_eq_zero_iff.1 this
  have top : r >>> 25 = UInt32.ofNat (r.toNat / 2 ^ 25) := by
    apply UInt32.toNat_inj.1
    rw [UInt32.toNat_shiftRight, UInt32.toNat_ofNat_of_lt' (by simp [UInt32.size]; omega),
      Nat.shiftRight_eq_div_pow]
    rfl
  have number := congrArg UInt32.toNat balanced
  rw [toNat_moved, top] at number
  -- What is moved up leaves the low five bits free, so nothing can be fed back into them.
  have left : r.toNat / 2 ^ 25 = 0 :=
    eq_zero_of_feedback_low (by omega) (by omega)
  rw [left, show feedback (UInt32.ofNat 0) = 0 by decide] at number
  apply UInt32.toNat_inj.1
  change r.toNat = 0
  rw [UInt32.toNat_zero] at number
  omega

/-- A step loses nothing of a 30-bit register. -/
lemma step_injective {r s : UInt32} {v : UInt8} (hr : r.toNat < 2 ^ 30) (hs : s.toNat < 2 ^ 30)
    (e : step r v = step s v) : r = s := by
  have cancel : step (r ^^^ s) 0 = 0 := by
    have := step_xor r s v v
    rw [UInt8.xor_self, e, UInt32.xor_self] at this
    exact this
  have small : (r ^^^ s).toNat < 2 ^ 30 := by
    rw [UInt32.toNat_xor]
    exact Nat.xor_lt_two_pow hr hs
  exact UInt32.xor_eq_zero_iff.1 (eq_zero_of_step_eq_zero small cancel)

/-- The register keeps to 30 bits over all values. -/
lemma foldl_step_lt (values : List UInt8) {r : UInt32} (small : r.toNat < 2 ^ 30) :
    (values.foldl step r).toNat < 2 ^ 30 := by
  induction values generalizing r with
  | nil => exact small
  | cons v values ih => exact ih (step_lt r v)

/-- The register never has more than 30 bits. -/
lemma residue_lt (values : List UInt8) : (residue values).toNat < 2 ^ 30 :=
  foldl_step_lt values (by decide)

/-- The register after more values goes on from the one after the first. -/
lemma residue_append (values more : List UInt8) :
    residue (values ++ more) = more.foldl step (residue values) :=
  List.foldl_append

/-- Registers of 30 bits that the same values make equal are equal. -/
lemma foldl_step_injective (values : List UInt8) {r s : UInt32} (hr : r.toNat < 2 ^ 30)
    (hs : s.toNat < 2 ^ 30) (e : values.foldl step r = values.foldl step s) : r = s := by
  induction values generalizing r s with
  | nil => exact e
  | cons v values ih => exact step_injective hr hs (ih (step_lt r v) (step_lt s v) e)

/-- Runs are linear: the run over a list from any register is the run over as many zeros from that
register, plus the run over the list from the empty register. -/
lemma foldl_step_split (values : List UInt8) (r s : UInt32) :
    values.foldl step (r ^^^ s)
      = (List.replicate values.length 0).foldl step r ^^^ values.foldl step s := by
  induction values generalizing r s with
  | nil => rfl
  | cons v values ih =>
    simp only [List.foldl_cons, List.length_cons, List.replicate_succ]
    rw [← ih, ← step_xor, UInt8.zero_xor]

/-- A number of five bits added in below a multiple of 32 is added to it. -/
lemma xor_eq_add {a b : Nat} (small : b < 2 ^ 5) : 2 ^ 5 * a ^^^ b = 2 ^ 5 * a + b := by
  apply Nat.eq_of_testBit_eq
  intro i
  rw [Nat.testBit_xor, Nat.testBit_two_pow_mul, Nat.testBit_two_pow_mul_add a small]
  by_cases h : i < 5
  · simp [h, Nat.not_le.2 h]
  · have clear : b.testBit i = false :=
      Nat.testBit_lt_two_pow <| Nat.lt_of_lt_of_le small <|
        Nat.pow_le_pow_right (by decide) (by omega)
    simp [h, clear]
    omega

/-- A symbol added to a register with room for it moves the register up and takes the low place. -/
lemma toNat_step {r : UInt32} {v : UInt8} (room : r.toNat < 2 ^ 25) (small : v.toNat < 32) :
    (step r v).toNat = 32 * r.toNat + v.toNat := by
  have top : r >>> 25 = 0 := by
    apply UInt32.toNat_inj.1
    rw [UInt32.toNat_shiftRight, Nat.shiftRight_eq_div_pow]
    exact Nat.div_eq_of_lt room
  have moved : ((r &&& 0x1ffffff) <<< 5).toNat = 2 ^ 5 * r.toNat := by
    rw [toNat_moved, Nat.mod_eq_of_lt room, Nat.mul_comm]
  unfold step
  rw [top, show feedback 0 = 0 by decide, UInt32.xor_zero, UInt32.toNat_xor, moved,
    UInt8.toNat_toUInt32]
  exact xor_eq_add small

/-- The symbol of a register at a bit is the number its five bits from there make. -/
lemma toNat_digit (r : UInt32) {k : Nat} (hk : k < 32) :
    ((r >>> k.toUInt32) &&& 31).toUInt8.toNat = r.toNat / 2 ^ k % 2 ^ 5 := by
  have amount : k.toUInt32.toNat % 32 = k := by
    rw [Nat.toUInt32_eq, UInt32.toNat_ofNat_of_lt' (by simp [UInt32.size]; omega)]
    exact Nat.mod_eq_of_lt hk
  rw [UInt32.toNat_toUInt8, UInt32.toNat_and, UInt32.toNat_shiftRight, amount,
    Nat.shiftRight_eq_div_pow, show (31 : UInt32).toNat = 2 ^ 5 - 1 by rfl,
    Nat.and_two_pow_sub_one_eq_mod]
  omega

/-- The symbols of a register are the digits of its number to base 32. -/
lemma map_toNat_symbols (r : UInt32) :
    (symbols r).map UInt8.toNat = [25, 20, 15, 10, 5, 0].map fun k => r.toNat / 2 ^ k % 2 ^ 5 := by
  have places :
      (List.range length).map (fun i => 5 * (length - 1 - i)) = [25, 20, 15, 10, 5, 0] := by
    decide
  rw [← places, symbols, List.map_map, List.map_map]
  apply List.map_congr_left
  intro i _
  exact toNat_digit r (by simp only [length]; omega)

/-- A 30-bit register is known from its symbols. -/
lemma symbols_injective {r s : UInt32} (hr : r.toNat < 2 ^ 30) (hs : s.toNat < 2 ^ 30)
    (e : symbols r = symbols s) : r = s := by
  have digits := congrArg (List.map UInt8.toNat) e
  simp only [map_toNat_symbols, List.map_cons, List.map_nil, List.cons.injEq, and_true] at digits
  apply UInt32.toNat_inj.1
  omega

/-- Every symbol of a register has five bits. -/
lemma symbols_lt (r : UInt32) : ∀ symbol ∈ symbols r, symbol.toNat < 32 := by
  intro symbol mem
  have digit : symbol.toNat ∈ (symbols r).map UInt8.toNat := List.mem_map_of_mem mem
  rw [map_toNat_symbols, List.mem_map] at digit
  obtain ⟨k, -, e⟩ := digit
  rw [← e]
  exact Nat.mod_lt _ (by decide)

/-- As long as no bit leaves the register, symbols come in as digits to base 32. -/
lemma toNat_foldl_step {values : List UInt8} {r : UInt32} {k : Nat}
    (small : ∀ v ∈ values, v.toNat < 32) (held : r.toNat < 2 ^ (5 * k))
    (room : k + values.length ≤ 6) :
    (values.foldl step r).toNat = values.foldl (fun n v => 32 * n + v.toNat) r.toNat := by
  induction values generalizing r k with
  | nil => rfl
  | cons v values ih =>
    obtain ⟨hv, small⟩ := List.forall_mem_cons.1 small
    simp only [List.length_cons] at room
    have space : r.toNat < 2 ^ 25 :=
      Nat.lt_of_lt_of_le held (Nat.pow_le_pow_right (by decide) (by omega))
    have next := toNat_step space hv
    rw [List.foldl_cons, List.foldl_cons, ← next]
    apply ih (k := k + 1) small
    · rw [next, Nat.mul_add, Nat.pow_add]
      omega
    · omega

/-- Six symbols fed to the empty register are the symbols of what it then holds. -/
lemma symbols_foldl_step_zero {check : List UInt8} (six : check.length = length)
    (small : ∀ symbol ∈ check, symbol.toNat < 32) : symbols (check.foldl step 0) = check := by
  have number := toNat_foldl_step (r := 0) (k := 0) small (by decide) (by rw [six]; decide)
  match check, six with
  | [a, b, c, d, e, f], _ =>
    simp only [List.mem_cons, List.not_mem_nil, or_false, forall_eq_or_imp, forall_eq] at small
    apply (List.map_inj_right fun _ _ => UInt8.toNat_inj.1).1
    rw [map_toNat_symbols, number]
    simp only [List.foldl_cons, List.foldl_nil, List.map_cons, List.map_nil, List.cons.injEq,
      and_true, UInt32.toNat_zero]
    omega

end AddressCodec.Checksum
