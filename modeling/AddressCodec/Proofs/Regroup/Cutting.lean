import AddressCodec.Proofs.Regroup.Stream
import Mathlib

/-!
# Regrouping as it is specified

Regrouping said of one bit string: that of all words together, most significant bit first, is cut
into words of the target width (`regroupBits`). The register that reads word after word and writes a
target word as soon as it is full does the same (`regroup_eq_regroupBits`).
-/

namespace AddressCodec.Regroup

/-- The number that bits denote, most significant first. -/
def number (bits : List Bool) : Nat :=
  bits.foldl (fun n b => 2 * n + b.toNat) 0

/-- So many words of one width, cut off the front of a bit string. -/
def cutInto (width : Nat) : Nat → List Bool → List UInt8
  | 0, _ => []
  | count + 1, bits =>
    UInt8.ofNat (number (bits.take width)) :: cutInto width count (bits.drop width)

/-- The whole words of one width in a bit string. -/
def cut (width : Nat) (bits : List Bool) : List UInt8 :=
  cutInto width (bits.length / width) bits

/-- How many bits are missing to the next multiple of a width. -/
def padding (width count : Nat) : Nat :=
  ((-(count : Int)) % width).toNat

/-- Regrouping, said of the bit string of all words: with `pad` it is extended by zeros to a
multiple of the target width and cut; without it, what does not fill a target word must be fewer
bits than a source word has and all zero, and is dropped. -/
def regroupBits (source target : Nat) (pad : Bool) (words : List UInt8) :
    Except Error (List UInt8) :=
  if ¬ (1 ≤ source ∧ source ≤ 8 ∧ 1 ≤ target ∧ target ≤ 8) then
    .error (.invalidWidth source target)
  else
    match words.find? fun word => 2 ^ source ≤ word.toNat with
    | some word => .error (.wordTooWide word source)
    | none =>
      let bits := spell source words
      let whole := bits.length - bits.length % target
      if pad then .ok (cut target (bits ++ List.replicate (padding target bits.length) false))
      else if source ≤ bits.length % target then .error .leftoverWord
      else if true ∈ bits.drop whole then .error .nonZeroPadding
      else .ok (cut target (bits.take whole))

/-- A bit behind others adds itself to twice their number. -/
lemma number_append_singleton (bits : List Bool) (b : Bool) :
    number (bits ++ [b]) = 2 * number bits + b.toNat := by
  rw [number, List.foldl_append]
  rfl

/-- Bits denote a number of their width. -/
lemma number_lt (bits : List Bool) : number bits < 2 ^ bits.length := by
  induction bits using List.reverseRecOn with
  | nil => exact Nat.one_pos
  | append_singleton bits b ih =>
    have small : b.toNat < 2 := b.toNat_lt
    rw [number_append_singleton, List.length_append, List.length_singleton, Nat.pow_succ]
    omega

/-- The bits of the number that bits denote are these bits. -/
lemma bitsOf_number (bits : List Bool) : bitsOf bits.length (number bits) = bits := by
  induction bits using List.reverseRecOn with
  | nil => rfl
  | append_singleton bits b ih =>
    have high : number (bits ++ [b]) >>> 1 = number bits := by
      have small : b.toNat < 2 := b.toNat_lt
      rw [number_append_singleton, Nat.shiftRight_one]
      omega
    have low : bitsOf 1 (number (bits ++ [b])) = [b] := by
      have bit : (2 * number bits + b.toNat).testBit 0 = b := by
        cases b <;> simp [Nat.testBit_zero]
      rw [number_append_singleton, bitsOf, bit]
      rfl
    rw [List.length_append, List.length_singleton, bitsOf_add, high, ih, low]

section Cut

variable {width : Nat}

/-- The number of eight bits at most fits in a byte. -/
lemma toNat_ofNat_number {bits : List Bool} (le : bits.length ≤ 8) :
    (UInt8.ofNat (number bits)).toNat = number bits := by
  have byte : 2 ^ bits.length ≤ 2 ^ 8 := Nat.pow_le_pow_right (by decide) le
  exact UInt8.toNat_ofNat_of_lt' (Nat.lt_of_lt_of_le (number_lt bits) byte)

/-- Words that are cut from a bit string have the width of the cut. -/
lemma fit_cutInto (le : width ≤ 8) (count : Nat) (bits : List Bool) :
    Fit width (cutInto width count bits) := by
  induction count generalizing bits with
  | zero => exact nofun
  | succ count ih =>
    have short : (bits.take width).length ≤ width := List.length_take_le _ _
    refine List.forall_mem_cons.2 ⟨?_, ih (bits.drop width)⟩
    rw [toNat_ofNat_number (Nat.le_trans short le)]
    exact Nat.lt_of_lt_of_le (number_lt _) (Nat.pow_le_pow_right (by decide) short)

/-- The words cut off a bit string are its front. -/
lemma spell_cutInto (le : width ≤ 8) {count : Nat} {bits : List Bool}
    (enough : count * width ≤ bits.length) :
    spell width (cutInto width count bits) = bits.take (count * width) := by
  induction count generalizing bits with
  | zero => rw [Nat.zero_mul, List.take_zero]; rfl
  | succ count ih =>
    rw [Nat.succ_mul] at enough
    have full : (bits.take width).length = width := by
      rw [List.length_take]
      omega
    have first : bitsOf width (UInt8.ofNat (number (bits.take width))).toNat = bits.take width := by
      have back := bitsOf_number (bits.take width)
      rw [full] at back
      rw [toNat_ofNat_number (full.symm ▸ le), back]
    have behind : count * width ≤ (bits.drop width).length := by
      rw [List.length_drop]
      omega
    rw [cutInto, spell, List.flatMap_cons, first, Nat.succ_mul, Nat.add_comm, List.take_add]
    exact congrArg (bits.take width ++ ·) (ih behind)

/-- The whole words of a bit string have the width of the cut. -/
lemma fit_cut (le : width ≤ 8) (bits : List Bool) : Fit width (cut width bits) :=
  fit_cutInto le _ bits

/-- A bit string of a multiple of a width is that of the words cut from it. -/
lemma spell_cut (le : width ≤ 8) {bits : List Bool} (multiple : width ∣ bits.length) :
    spell width (cut width bits) = bits := by
  have whole : bits.length / width * width = bits.length := Nat.div_mul_cancel multiple
  rw [cut, spell_cutInto le (Nat.le_of_eq whole), whole, List.take_length]

/-- Words are those cut from their bit string. -/
lemma eq_cut_of_spell_eq (pos : 0 < width) (le : width ≤ 8) {words : List UInt8}
    (fit : Fit width words) {bits : List Bool} (spelled : spell width words = bits) :
    words = cut width bits := by
  have multiple : width ∣ bits.length := by
    rw [← spelled, length_spell]
    exact Nat.dvd_mul_right _ _
  exact spell_injective pos fit (fit_cut le bits) (spelled.trans (spell_cut le multiple).symm)

/-- What is missing to the next multiple is the negative length, modulo the width. -/
lemma coe_padding (pos : 0 < width) (count : Nat) :
    (padding width count : Int) = (-(count : Int)) % width :=
  Int.toNat_of_nonneg (Int.emod_nonneg _ (by omega))

/-- Less than a word is missing to the next multiple of its width. -/
lemma padding_lt (pos : 0 < width) (count : Nat) : padding width count < width := by
  have less := Int.emod_lt_of_pos (-(count : Int)) (Int.natCast_pos.2 pos)
  rw [← coe_padding pos] at less
  exact Int.ofNat_lt.1 less

/-- With the padding there is a multiple of the width. -/
lemma dvd_add_padding (pos : 0 < width) (count : Nat) : width ∣ count + padding width count := by
  have split := Int.emod_add_mul_ediv (-(count : Int)) width
  rw [← coe_padding pos] at split
  apply Int.natCast_dvd_natCast.1
  refine ⟨-(-(count : Int) / width), ?_⟩
  rw [Int.natCast_add, Int.mul_neg]
  omega

/-- Bits and their padding are those of the words cut from them. -/
lemma spell_cut_padded (pos : 0 < width) (le : width ≤ 8) (bits : List Bool) :
    spell width (cut width (bits ++ List.replicate (padding width bits.length) false))
      = bits ++ List.replicate (padding width bits.length) false := by
  apply spell_cut le
  rw [List.length_append, List.length_replicate]
  exact dvd_add_padding pos bits.length

end Cut

section Specified

variable {source target : Nat}

/-- What is written without the padding, and what stays pending at the end, are the whole target
words of the bit string and its rest. -/
lemma stream_eq_cut (valid : ValidWidths source target) {words : List UInt8}
    (fit : Fit source words) :
    let bits := spell source words
    let whole := bits.length - bits.length % target
    let streamed := stream source target .empty words
    streamed.1 = cut target (bits.take whole) ∧ streamed.2.bits = bits.drop whole ∧
      streamed.2.count = bits.length % target := by
  intro bits whole streamed
  obtain ⟨writtenFit, pending, spelled⟩ := spell_stream valid (p := .empty) valid.target_pos fit
  change streamed.2.count < target at pending
  change spell target streamed.1 ++ streamed.2.bits = bits at spelled
  have lengths := congrArg List.length spelled
  rw [List.length_append, length_spell, Pending.bits, length_bitsOf] at lengths
  have count : streamed.2.count = bits.length % target := by
    rw [← lengths, Nat.mul_add_mod, Nat.mod_eq_of_lt pending]
  have written : (spell target streamed.1).length = whole := by
    rw [length_spell]
    omega
  refine ⟨?_, ?_, count⟩
  · apply eq_cut_of_spell_eq valid.target_pos valid.target_le writtenFit
    rw [← spelled, ← written, List.take_left]
  · rw [← spelled, ← written, List.drop_left]

/-- The widths are valid exactly if regrouping does not refuse them. -/
lemma validWidths_iff : ValidWidths source target ↔
    ¬ (source = 0 ∨ 8 < source ∨ target = 0 ∨ 8 < target) := by
  refine ⟨?_, ?_⟩
  · intro ⟨_, _, _, _⟩
    omega
  · intro inside
    exact ⟨by omega, by omega, by omega, by omega⟩

/-- With padding, the whole bit string and the zeros behind it are cut. -/
lemma regroup_pad_eq (valid : ValidWidths source target) {words : List UInt8}
    (fit : Fit source words) :
    let bits := spell source words
    regroup source target true words
      = .ok (cut target (bits ++ List.replicate (padding target bits.length) false)) := by
  intro bits
  exact regroup_pad_eq_ok_iff.2 ⟨valid, fit, fit_cut valid.target_le _, _,
    padding_lt valid.target_pos _, spell_cut_padded valid.target_pos valid.target_le bits⟩

/-- Words that have their width can always be regrouped with padding. -/
lemma exists_regroup_pad (valid : ValidWidths source target) {words : List UInt8}
    (fit : Fit source words) :
    ∃ symbols, regroup source target true words = .ok symbols ∧ Fit target symbols :=
  ⟨_, regroup_pad_eq valid fit, fit_cut valid.target_le _⟩

/-- Bits that are not all zero. -/
lemma ne_replicate_false_iff {bits : List Bool} :
    bits ≠ List.replicate bits.length false ↔ true ∈ bits := by
  rw [Ne, List.eq_replicate_length]
  refine ⟨?_, ?_⟩
  · intro some
    by_contra absent
    apply some
    intro b mem
    rw [← Bool.not_eq_true]
    intro set
    exact absent (set ▸ mem)
  · intro mem all
    cases all true mem

/-- Without padding, the bits left over decide. -/
lemma finish_exact_eq (valid : ValidWidths source target) {words : List UInt8}
    (fit : Fit source words) :
    let bits := spell source words
    let whole := bits.length - bits.length % target
    finish source target false (stream source target .empty words).1
        (stream source target .empty words).2
      = if source ≤ bits.length % target then .error .leftoverWord
        else if true ∈ bits.drop whole then .error .nonZeroPadding
        else .ok (cut target (bits.take whole)) := by
  intro bits whole
  obtain ⟨written, left, count⟩ := stream_eq_cut valid fit
  obtain ⟨-, pending, -⟩ := spell_stream valid (p := .empty) valid.target_pos fit
  have length : (stream source target .empty words).2.count = (bits.drop whole).length := by
    rw [← left, Pending.bits, length_bitsOf]
  have nonzero : (stream source target .empty words).2.padded target ≠ 0
      ↔ true ∈ bits.drop whole := by
    rw [Ne, Pending.padded_eq_zero_iff valid.target_le pending, left, length]
    exact ne_replicate_false_iff
  rw [finish, if_neg Bool.false_ne_true, written, count]
  exact if_congr Iff.rfl rfl (if_congr nonzero rfl rfl)

/-- Regrouping does what is specified. -/
lemma regroup_eq_regroupBits (pad : Bool) (words : List UInt8) :
    regroup source target pad words = regroupBits source target pad words := by
  rw [regroup, regroupBits]
  by_cases valid : ValidWidths source target
  · have found : (words.find? fun word => word.toUInt32 >>> source.toUInt32 ≠ 0)
        = words.find? fun word => 2 ^ source ≤ word.toNat := by
      congr 1
      funext word
      rw [decide_eq_decide, wide_iff valid.source_le]
    have within : 1 ≤ source ∧ source ≤ 8 ∧ 1 ≤ target ∧ target ≤ 8 :=
      ⟨valid.source_pos, valid.source_le, valid.target_pos, valid.target_le⟩
    rw [if_neg (validWidths_iff.1 valid), if_neg (Decidable.not_not.2 within), found]
    cases wide : words.find? fun word => 2 ^ source ≤ word.toNat with
    | some word => rfl
    | none =>
      have fit : Fit source words := (find?_wide_eq_none_iff valid.source_le).1 (found.trans wide)
      cases pad with
      | true => exact (regroup_eq_ok_iff_finish.1 (regroup_pad_eq valid fit)).2.2
      | false => exact finish_exact_eq valid fit
  · rw [if_pos (Decidable.not_not.1 (mt validWidths_iff.2 valid)), if_pos]
    rintro ⟨source_pos, source_le, target_pos, target_le⟩
    exact valid ⟨source_pos, source_le, target_pos, target_le⟩

end Specified

end AddressCodec.Regroup
