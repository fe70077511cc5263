import AddressCodec.Proofs.Regroup.Bits
import AddressCodec.Regroup

/-!
# Regrouping as cutting of bit strings

The invariant of a stream: the words written and the pending bits are together the bits that were
read (`spell_stream`). From it follows when regrouping succeeds and with which words, with padding
(`regroup_pad_eq_ok_iff`) and without (`regroup_exact_eq_ok_iff`).
-/

namespace AddressCodec.Regroup

/-- Widths between 1 and 8. -/
structure ValidWidths (source target : Nat) : Prop where
  source_pos : 0 < source
  source_le : source ≤ 8
  target_pos : 0 < target
  target_le : target ≤ 8

/-- The pending bits, most significant first. -/
def Pending.bits (p : Pending) : List Bool :=
  bitsOf p.count p.register.toNat

section Stream

variable {source target : Nat}

/-- Shift amounts below 32 are exact. -/
lemma toNat_shift_mod {k : Nat} (h : k < 32) : k.toUInt32.toNat % 32 = k := by
  rw [Nat.toUInt32_eq, UInt32.toNat_ofNat_of_lt' (by simp only [UInt32.size]; omega)]
  exact Nat.mod_eq_of_lt h

/-- The low sixteen bits of the register after a word was added. -/
lemma testBit_push (p : Pending) (word : UInt8) (le : source ≤ 8) {i : Nat} (low : i < 16) :
    (p.push source word).register.toNat.testBit i
      = (decide (source ≤ i) && p.register.toNat.testBit (i - source) || word.toNat.testBit i) := by
  have mask : (0xffff : UInt32).toNat = 2 ^ 16 - 1 := rfl
  rw [Pending.push, UInt32.toNat_and, UInt32.toNat_or, UInt32.toNat_shiftLeft,
    toNat_shift_mod (by omega), UInt8.toNat_toUInt32, mask, Nat.testBit_and, Nat.testBit_or,
    Nat.testBit_two_pow_sub_one, Nat.testBit_mod_two_pow, Nat.testBit_shiftLeft,
    decide_eq_true low, decide_eq_true (show i < 32 by omega), Bool.and_true, Bool.true_and]

/-- A word that is added comes behind the pending bits. -/
lemma Pending.bits_push {p : Pending} {word : UInt8} (le : source ≤ 8)
    (room : p.count + source ≤ 16) (small : word.toNat < 2 ^ source) :
    (p.push source word).bits = p.bits ++ bitsOf source word.toNat := by
  have count : (p.push source word).count = p.count + source := rfl
  rw [Pending.bits, Pending.bits, count, bitsOf_add]
  congr 1
  · apply bitsOf_congr
    intro i h
    have clear : word.toNat.testBit (source + i) = false :=
      Nat.testBit_lt_two_pow
        (Nat.lt_of_lt_of_le small (Nat.pow_le_pow_right (by decide) (Nat.le_add_right _ _)))
    rw [Nat.testBit_shiftRight, testBit_push p word le (by omega), clear, Bool.or_false,
      decide_eq_true (Nat.le_add_right _ _), Bool.true_and, Nat.add_sub_cancel_left]
  · apply bitsOf_congr
    intro i h
    rw [testBit_push p word le (by omega), decide_eq_false (Nat.not_le.2 h), Bool.false_and,
      Bool.false_or]

/-- A mask keeps the low bits. -/
lemma toNat_and_mask (x : UInt32) (h : target ≤ 8) :
    (x &&& mask target).toUInt8.toNat = x.toNat % 2 ^ target := by
  have ones : (mask target).toNat = 2 ^ target - 1 := by
    have table : ∀ k < 9, (mask k).toNat = 2 ^ k - 1 := by decide
    exact table target (by omega)
  have bound : x.toNat % 2 ^ target < 2 ^ target := Nat.mod_lt _ (Nat.two_pow_pos _)
  have byte : 2 ^ target ≤ 2 ^ 8 := Nat.pow_le_pow_right (by decide) h
  rw [UInt32.toNat_toUInt8, UInt32.toNat_and, ones, Nat.and_two_pow_sub_one_eq_mod]
  exact Nat.mod_eq_of_lt (Nat.lt_of_lt_of_le bound byte)

/-- A window is a run of bits of the register. -/
lemma toNat_window (register : UInt32) {offset : Nat} (h : target ≤ 8) (near : offset < 32) :
    (window target register offset).toNat = (register.toNat >>> offset) % 2 ^ target := by
  rw [window, toNat_and_mask _ h, UInt32.toNat_shiftRight, toNat_shift_mod near]

/-- Written words have the target width. -/
lemma Pending.fit_words {p : Pending} (h : target ≤ 8) (room : p.count ≤ 16) :
    Fit target (p.words target) := by
  intro word mem
  obtain ⟨i, -, rfl⟩ := List.mem_map.1 mem
  rw [toNat_window _ h (by omega)]
  exact Nat.mod_lt _ (Nat.two_pow_pos _)

/-- The pending bits are those of the whole words among them and those that stay pending. -/
lemma Pending.spell_words {p : Pending} (h : target ≤ 8) (room : p.count ≤ 16) :
    spell target (p.words target) ++ (p.rest target).bits = p.bits := by
  have total : p.count / target * target + p.count % target = p.count := Nat.div_add_mod' _ _
  have cut := bitsOf_mul_add target (p.count / target) (p.count % target) p.register.toNat
  rw [total] at cut
  rw [Pending.bits, Pending.bits, cut]
  congr 1
  rw [spell, Pending.words, List.flatMap_map]
  congr 1
  funext i
  rw [toNat_window _ h (by omega), bitsOf_mod]

/-- What a stream has written and what is pending at its end are the bits that were pending at its
start and those of the words it read. -/
lemma spell_stream (valid : ValidWidths source target) {words : List UInt8} {p : Pending}
    (pending : p.count < target) (fit : Fit source words) :
    Fit target (stream source target p words).1 ∧
      (stream source target p words).2.count < target ∧
      spell target (stream source target p words).1 ++ (stream source target p words).2.bits
        = p.bits ++ spell source words := by
  obtain ⟨-, source_le, target_pos, target_le⟩ := valid
  induction words generalizing p with
  | nil =>
    refine ⟨nofun, pending, ?_⟩
    show [] ++ p.bits = p.bits ++ []
    rw [List.nil_append, List.append_nil]
  | cons word words ih =>
    obtain ⟨small, fit⟩ := List.forall_mem_cons.1 fit
    -- Fewer bits than a target word are pending, so with a source word there are at most 16.
    have room : (p.push source word).count ≤ 16 := by
      change p.count + source ≤ 16
      omega
    obtain ⟨restFit, restPending, restBits⟩ :=
      ih (p := (p.push source word).rest target) (Pending.count_rest_lt _ target_pos) fit
    rw [stream]
    dsimp only
    refine ⟨?_, restPending, ?_⟩
    · exact List.forall_mem_append.2 ⟨Pending.fit_words target_le room, restFit⟩
    · rw [spell_append, List.append_assoc, restBits, ← List.append_assoc,
        Pending.spell_words target_le room, Pending.bits_push source_le room small,
        List.append_assoc]
      rfl

/-- A filled word is the pending bits and zeros behind them. -/
lemma Pending.bits_padded {p : Pending} (h : target ≤ 8) (pending : p.count < target) :
    bitsOf target (p.padded target).toNat
      = p.bits ++ List.replicate (target - p.count) false := by
  have total : p.count + (target - p.count) = target := by omega
  rw [padded, toNat_and_mask _ h, bitsOf_mod, UInt32.toNat_shiftLeft, toNat_shift_mod (by omega),
    Pending.bits]
  rw [← bitsOf_shiftLeft, total]
  apply bitsOf_congr
  intro i inside
  rw [Nat.testBit_mod_two_pow, decide_eq_true (by omega), Bool.true_and]

/-- A filled word has the target width. -/
lemma Pending.padded_lt (p : Pending) (h : target ≤ 8) : (p.padded target).toNat < 2 ^ target := by
  rw [padded, toNat_and_mask _ h]
  exact Nat.mod_lt _ (Nat.two_pow_pos _)

/-- A filled word is zero exactly if all pending bits are. -/
lemma Pending.padded_eq_zero_iff {p : Pending} (h : target ≤ 8) (pending : p.count < target) :
    p.padded target = 0 ↔ p.bits = List.replicate p.count false := by
  have bits := Pending.bits_padded h pending
  have zeros : List.replicate target false
      = List.replicate p.count false ++ List.replicate (target - p.count) false := by
    rw [List.replicate_append_replicate]
    congr 1
    omega
  refine ⟨?_, ?_⟩
  · intro zero
    rw [zero, UInt8.toNat_zero, bitsOf_zero, zeros] at bits
    exact (List.append_inj_left bits (by simp [Pending.bits])).symm
  · intro clear
    rw [clear, ← zeros, ← bitsOf_zero] at bits
    apply UInt8.toNat_inj.1
    exact bitsOf_injective (p.padded_lt h) (Nat.two_pow_pos _) bits

/-- A word stands out exactly if it does not have the source width. -/
lemma wide_iff (le : source ≤ 8) {word : UInt8} :
    word.toUInt32 >>> source.toUInt32 ≠ 0 ↔ 2 ^ source ≤ word.toNat := by
  rw [Ne, ← UInt32.toNat_inj, UInt32.toNat_shiftRight, toNat_shift_mod (by omega),
    UInt8.toNat_toUInt32, Nat.shiftRight_eq_div_pow, UInt32.toNat_zero, Nat.div_eq_zero_iff]
  have := Nat.two_pow_pos source
  omega

/-- No word stands out exactly if all have the source width. -/
lemma find?_wide_eq_none_iff {words : List UInt8} (le : source ≤ 8) :
    (words.find? fun word => word.toUInt32 >>> source.toUInt32 ≠ 0) = none ↔ Fit source words := by
  rw [List.find?_eq_none, Fit]
  apply forall₂_congr
  intro word _
  rw [decide_eq_true_eq, wide_iff le, Nat.not_le]

/-- Beyond the checks of its input, regrouping is a stream from its start and its close. -/
lemma regroup_eq_ok_iff_finish {pad : Bool} {words out : List UInt8} :
    regroup source target pad words = .ok out ↔ ValidWidths source target ∧ Fit source words ∧
      finish source target pad (stream source target .empty words).1
        (stream source target .empty words).2 = .ok out := by
  rw [regroup]
  split
  · rename_i bad
    refine ⟨?_, ?_⟩
    · nofun
    · intro h
      obtain ⟨⟨_, _, _, _⟩, -⟩ := h
      omega
  · rename_i good
    have valid : ValidWidths source target := ⟨by omega, by omega, by omega, by omega⟩
    rw [← find?_wide_eq_none_iff valid.source_le]
    split
    · rename_i word wide
      rw [wide]
      simp
    · rename_i none
      rw [none]
      simp [valid]

/-- Numbers of one remainder class below the modulus are equal. -/
lemma eq_of_mul_add_eq {width a b k l : Nat} (hk : k < width) (hl : l < width)
    (e : width * a + k = width * b + l) : a = b ∧ k = l := by
  have left := congrArg (· % width) e
  simp only [Nat.mul_add_mod, Nat.mod_eq_of_lt hk, Nat.mod_eq_of_lt hl] at left
  subst left
  exact ⟨Nat.eq_of_mul_eq_mul_left (Nat.zero_lt_of_lt hk) (Nat.add_right_cancel e), rfl⟩

/-- Words are known from their bits up to fewer zeros than fill a word. -/
lemma eq_of_spell_eq_append {words others : List UInt8} {bits : List Bool} {k l : Nat}
    (hw : Fit target words) (ho : Fit target others) (hk : k < target) (hl : l < target)
    (bitsOfWords : spell target words = bits ++ List.replicate k false)
    (bitsOfOthers : spell target others = bits ++ List.replicate l false) : words = others := by
  have lengths := congrArg List.length bitsOfWords
  have lengths' := congrArg List.length bitsOfOthers
  simp only [length_spell, List.length_append, List.length_replicate] at lengths lengths'
  have same : k = l :=
    (eq_of_mul_add_eq hl hk (show target * words.length + l = target * others.length + k by
      omega)).2.symm
  subst same
  exact spell_injective (Nat.zero_lt_of_lt hk) hw ho (bitsOfWords.trans bitsOfOthers.symm)

/-- With padding, regrouping succeeds for all words of the source width, and gives the words of the
target width whose bits are those of the source words and fewer zeros than fill a word. -/
lemma regroup_pad_eq_ok_iff {words out : List UInt8} :
    regroup source target true words = .ok out ↔ ValidWidths source target ∧ Fit source words ∧
      Fit target out ∧ ∃ zeros < target,
        spell target out = spell source words ++ List.replicate zeros false := by
  rw [regroup_eq_ok_iff_finish]
  apply and_congr_right
  intro valid
  apply and_congr_right
  intro fit
  obtain ⟨writtenFit, pending, bits⟩ := spell_stream valid (p := .empty) valid.target_pos fit
  generalize stream source target .empty words = streamed at *
  obtain ⟨written, last⟩ := streamed
  change spell target written ++ last.bits = spell source words at bits
  -- Closing always succeeds, and decides how many zeros there are.
  have closed : ∃ closed, finish source target true written last = .ok closed ∧
      Fit target closed ∧ ∃ zeros < target,
        spell target closed = spell source words ++ List.replicate zeros false := by
    by_cases full : last.count = 0
    · refine ⟨written, by simp [finish, full], writtenFit, 0, valid.target_pos, ?_⟩
      rw [← bits, Pending.bits, full]
      simp [bitsOf]
    · refine ⟨written ++ [last.padded target], by simp [finish, full], ?_,
        target - last.count, by omega, ?_⟩
      · exact List.forall_mem_append.2
          ⟨writtenFit, List.forall_mem_singleton.2 (last.padded_lt valid.target_le)⟩
      · rw [spell_append, ← bits, List.append_assoc, ← Pending.bits_padded valid.target_le pending]
        simp [spell]
  obtain ⟨closed, done, closedFit, zeros, few, closedBits⟩ := closed
  rw [done, Except.ok.injEq]
  refine ⟨?_, ?_⟩
  · intro e
    subst e
    exact ⟨closedFit, zeros, few, closedBits⟩
  · -- Both fill up less than one word, so their numbers of zeros are equal.
    intro h
    obtain ⟨outFit, zeros', few', outBits⟩ := h
    exact eq_of_spell_eq_append closedFit outFit few few' closedBits outBits

/-- Without padding, regrouping succeeds for words of the source width whose bits are those of words
of the target width and fewer zeros than fill a word of either width, and gives these words. -/
lemma regroup_exact_eq_ok_iff {words out : List UInt8} :
    regroup source target false words = .ok out ↔ ValidWidths source target ∧ Fit source words ∧
      Fit target out ∧ ∃ zeros < target, zeros < source ∧
        spell source words = spell target out ++ List.replicate zeros false := by
  rw [regroup_eq_ok_iff_finish]
  apply and_congr_right
  intro valid
  apply and_congr_right
  intro fit
  obtain ⟨writtenFit, pending, bits⟩ := spell_stream valid (p := .empty) valid.target_pos fit
  generalize stream source target .empty words = streamed at *
  obtain ⟨written, last⟩ := streamed
  change spell target written ++ last.bits = spell source words at bits
  have close : finish source target false written last = .ok out ↔
      last.count < source ∧ last.bits = List.replicate last.count false ∧ written = out := by
    rw [← Pending.padded_eq_zero_iff valid.target_le pending]
    rw [finish]
    rw [if_neg Bool.false_ne_true]
    split
    · simp only [reduceCtorEq, false_iff]
      omega
    · split
      · rename_i nonzero
        simp [nonzero]
      · rename_i few zero
        rw [Decidable.not_not] at zero
        simp [zero, Nat.lt_of_not_le few]
  rw [close, ← bits]
  refine ⟨?_, ?_⟩
  · intro h
    obtain ⟨few, clear, rfl⟩ := h
    exact ⟨writtenFit, last.count, pending, few, by rw [clear]⟩
  · intro h
    obtain ⟨outFit, zeros, few, few', outBits⟩ := h
    -- Both are shorter than a target word, so the zeros are as many as the pending bits.
    have lengths := congrArg List.length outBits
    simp only [length_spell, List.length_append, List.length_replicate, Pending.bits,
      length_bitsOf] at lengths
    obtain ⟨count, rfl⟩ := eq_of_mul_add_eq pending few lengths
    obtain ⟨same, clear⟩ := List.append_inj outBits (by rw [length_spell, length_spell, count])
    exact ⟨few', clear, spell_injective valid.target_pos writtenFit outFit same⟩

/-- Regrouping into words that are not wider, with padding, is undone by regrouping without it. -/
lemma regroup_pad_eq_ok_iff_exact (le : target ≤ source) {words out : List UInt8} :
    regroup source target true words = .ok out ↔
      Fit source words ∧ regroup target source false out = .ok words := by
  rw [regroup_pad_eq_ok_iff, regroup_exact_eq_ok_iff]
  refine ⟨?_, ?_⟩
  · intro h
    obtain ⟨⟨a, b, c, d⟩, fit, outFit, zeros, few, bits⟩ := h
    exact ⟨fit, ⟨c, d, a, b⟩, outFit, fit, zeros, Nat.lt_of_lt_of_le few le, few, bits⟩
  · intro h
    obtain ⟨-, ⟨a, b, c, d⟩, outFit, fit, zeros, -, few, bits⟩ := h
    exact ⟨⟨c, d, a, b⟩, fit, outFit, zeros, few, bits⟩

end Stream

end AddressCodec.Regroup
