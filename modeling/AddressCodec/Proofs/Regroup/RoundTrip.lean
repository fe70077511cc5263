import AddressCodec.Proofs.Regroup.Cutting

/-!
# Regrouping there and back

Words regrouped with padding come back from regrouping without it, followed by the words of zeros
that the padding fills, and words regrouped without padding come back from regrouping with it
(`regroup_round_trips`).
-/

namespace AddressCodec.Regroup

section RoundTrip

variable {source target : Nat}

/-- Valid widths are valid the other way round. -/
lemma ValidWidths.swap (valid : ValidWidths source target) : ValidWidths target source :=
  ⟨valid.target_pos, valid.target_le, valid.source_pos, valid.source_le⟩

/-- Words of zeros are zeros. -/
lemma spell_replicate_zero (width count : Nat) :
    spell width (List.replicate count 0) = List.replicate (width * count) false := by
  induction count with
  | zero => rfl
  | succ count ih =>
    rw [List.replicate_succ, spell, List.flatMap_cons, UInt8.toNat_zero, bitsOf_zero, Nat.mul_succ,
      Nat.add_comm, ← List.replicate_append_replicate]
    exact congrArg (List.replicate width false ++ ·) ih

/-- Zero words have every width. -/
lemma fit_append_zeros {words : List UInt8} (fit : Fit source words) (count : Nat) :
    Fit source (words ++ List.replicate count 0) := by
  refine List.forall_mem_append.2 ⟨fit, ?_⟩
  intro word mem
  rw [List.eq_of_mem_replicate mem]
  exact Nat.two_pow_pos source

/-- What was padded comes back, with the words of zeros that fit in the padding behind it. -/
lemma regroup_exact_of_pad (valid : ValidWidths source target) {words symbols : List UInt8}
    (fit : Fit source words) (regrouped : regroup source target true words = .ok symbols) :
    regroup target source false symbols
      = .ok (words ++ List.replicate (padding target (words.length * source) / source) 0) := by
  rw [regroup_pad_eq valid fit, Except.ok.injEq] at regrouped
  have spelled := spell_cut_padded valid.target_pos valid.target_le (spell source words)
  have few := padding_lt valid.target_pos (words.length * source)
  have length : (spell source words).length = words.length * source := by
    rw [length_spell, Nat.mul_comm]
  rw [regrouped, length] at spelled
  generalize padding target (words.length * source) = count at *
  have parts : source * (count / source) + count % source = count := Nat.div_add_mod _ _
  refine regroup_exact_eq_ok_iff.2 ⟨valid.swap, ?_, fit_append_zeros fit _, count % source,
    Nat.mod_lt _ valid.source_pos, Nat.lt_of_le_of_lt (Nat.mod_le _ _) few, ?_⟩
  · rw [← regrouped]
    exact fit_cut valid.target_le _
  · rw [spelled, spell_append, spell_replicate_zero, List.append_assoc,
      List.replicate_append_replicate, parts]

/-- What was regrouped without padding comes back with it. -/
lemma regroup_pad_of_exact {symbols words : List UInt8}
    (regrouped : regroup source target false symbols = .ok words) :
    regroup target source true words = .ok symbols := by
  obtain ⟨valid, symbolsFit, fit, zeros, -, few, bits⟩ := regroup_exact_eq_ok_iff.1 regrouped
  exact regroup_pad_eq_ok_iff.2 ⟨valid.swap, fit, symbolsFit, zeros, few, bits⟩

end RoundTrip

/-- Words of any width regroup with padding, and regrouping the result without padding gives the
words again and behind them the whole words of zeros in the padding, of which there are none if the
target words are not wider. What regroups without padding comes back with it, so that no two lists
regroup to the same words. -/
theorem regroup_round_trips :
    (∀ (source target : Nat) (words : List UInt8), ValidWidths source target → Fit source words →
      ∃ symbols, regroup source target true words = .ok symbols ∧ Fit target symbols ∧
        regroup target source false symbols
          = .ok (words ++ List.replicate (padding target (words.length * source) / source) 0) ∧
        (target ≤ source → regroup target source false symbols = .ok words)) ∧
    (∀ (source target : Nat) (symbols words : List UInt8),
      regroup source target false symbols = .ok words →
        regroup target source true words = .ok symbols ∧
        ∀ others, regroup source target false others = .ok words → others = symbols) := by
  refine ⟨?_, ?_⟩
  · intro source target words valid fit
    obtain ⟨symbols, regrouped, narrow⟩ := exists_regroup_pad valid fit
    have back := regroup_exact_of_pad valid fit regrouped
    refine ⟨symbols, regrouped, narrow, back, ?_⟩
    intro le
    have none : padding target (words.length * source) / source = 0 :=
      Nat.div_eq_of_lt (Nat.lt_of_lt_of_le (padding_lt valid.target_pos _) le)
    rw [back, none, List.replicate_zero, List.append_nil]
  · intro source target symbols words regrouped
    have back := regroup_pad_of_exact regrouped
    refine ⟨back, ?_⟩
    intro others same
    exact Except.ok.inj ((regroup_pad_of_exact same).symm.trans back)

/-- A word of three bits in a byte: five bits of padding, which fill another word of three. -/
theorem regroup_round_trips_of_three_bits :
    ValidWidths 3 8 ∧ Fit 3 [5] ∧
    (∃ symbols, regroup 3 8 true [5] = .ok symbols ∧ Fit 8 symbols ∧
      regroup 8 3 false symbols = .ok [5, 0]) ∧
    regroup 8 3 false [160] = .ok [5, 0] ∧ regroup 3 8 true [5, 0] = .ok [160] ∧
    (∀ others, regroup 8 3 false others = .ok [5, 0] → others = [160]) := by
  have valid : ValidWidths 3 8 := ⟨by decide, by decide, by decide, by decide⟩
  have fit : Fit 3 [5] := List.forall_mem_singleton.2 (by decide)
  have regrouped : regroup 8 3 false [160] = .ok [5, 0] := by decide
  obtain ⟨symbols, padded, narrow, back, -⟩ := regroup_round_trips.1 3 8 [5] valid fit
  exact ⟨valid, fit, ⟨symbols, padded, narrow, back⟩, regrouped,
    regroup_round_trips.2 8 3 [160] [5, 0] regrouped⟩

end AddressCodec.Regroup
