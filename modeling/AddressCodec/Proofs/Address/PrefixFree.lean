import AddressCodec.Proofs.Address.Text
import AddressCodec.Proofs.Checksum.Period

/-!
# No accepted payload continues another one

An element is read to its end and no further (`Element.Spells.eq_nil_of_append`), so the bytes of an
address are not the beginning of those of another (`Address.eq_nil_of_toData_append`), nor are the
symbols of an accepted text (`Address.eq_nil_of_parse_append`). Zeros in front of a last symbol 1
leave the checksum valid (`Checksum.verify_insert_zeros`); as they lengthen the payload, the text is
no address any more (`accepted_payloads_are_prefix_free`).
-/

namespace AddressCodec

/-- Behind the bytes of an element there is nothing that belongs to them. -/
lemma Element.Spells.eq_nil_of_append {e f : Element} {bytes more : List UInt8}
    (first : e.Spells bytes) (second : f.Spells (bytes ++ more)) : more = [] := by
  have short : Reader.element.run (.start (bytes ++ more) none)
      = .ok e ⟨more, bytes.length, none⟩ :=
    Reader.element_run_eq_ok_iff.2 ⟨bytes, first, rfl, (Nat.zero_add _).symm, rfl, nofun⟩
  have long : Reader.element.run (.start (bytes ++ more) none)
      = .ok f ⟨[], (bytes ++ more).length, none⟩ :=
    Reader.element_run_eq_ok_iff.2
      ⟨_, second, (List.append_nil _).symm, (Nat.zero_add _).symm, rfl, nofun⟩
  have same := short.symm.trans long
  cases more with
  | nil => rfl
  | cons b more => cases same

namespace Regroup

/-- Words whose bits are the first bits of others are the first words of these. -/
lemma prefix_of_spell_append {width : Nat} {words others : List UInt8} {bits bits' : List Bool}
    (pos : 0 < width) (hw : Fit width words) (ho : Fit width others)
    (enough : words.length ≤ others.length)
    (same : spell width words ++ bits = spell width others ++ bits') : words <+: others := by
  have lengths : (spell width words).length = (spell width (others.take words.length)).length := by
    rw [length_spell, length_spell, List.length_take, Nat.min_eq_left enough]
  rw [← List.take_append_drop words.length others, spell_append, List.append_assoc] at same
  have front := (List.append_inj same lengths).1
  exact List.prefix_iff_eq_take.2
    (spell_injective pos hw (fun word mem => ho word (List.mem_of_mem_take mem)) front)

/-- Words that continue others are regrouped to words that continue theirs. Fewer bits than a source
word are left over, so more source words make more target words. -/
lemma regroup_exact_append {source target : Nat} {words more out longer : List UInt8}
    (first : regroup source target false words = .ok out)
    (second : regroup source target false (words ++ more) = .ok longer) :
    ∃ rest, longer = out ++ rest ∧ (rest = [] → more = []) := by
  obtain ⟨valid, -, outFit, zeros, few, few', bits⟩ := regroup_exact_eq_ok_iff.1 first
  obtain ⟨-, -, longerFit, zeros', fewer, fewer', bits'⟩ := regroup_exact_eq_ok_iff.1 second
  rw [spell_append, bits, List.append_assoc] at bits'
  have total := congrArg List.length bits'
  simp only [List.length_append, length_spell, List.length_replicate] at total
  have enough : out.length ≤ longer.length := by
    apply Nat.le_of_lt_succ
    apply Nat.lt_of_mul_lt_mul_left (a := target)
    rw [Nat.mul_succ]
    omega
  obtain ⟨rest, rfl⟩ := prefix_of_spell_append valid.target_pos outFit longerFit enough bits'
  refine ⟨rest, rfl, ?_⟩
  intro nothing
  rw [nothing, List.append_nil] at total
  have less : source * more.length < source * 1 := by omega
  exact List.eq_nil_of_length_eq_zero (Nat.lt_one_iff.1 (Nat.lt_of_mul_lt_mul_left less))

end Regroup

namespace Checksum

/-- A last value 1 that makes the checksum valid stands behind an empty register, and zeros in front
of it leave the register empty. -/
lemma verify_insert_zeros {hrp : String} {front : List UInt8}
    (valid : verify hrp (front ++ [1]) = true) (k : Nat) :
    verify hrp (front ++ (List.replicate k 0 ++ [1])) = true := by
  rw [verify, beq_iff_eq, ← List.append_assoc, residue_append] at valid
  have empty : residue (expand hrp ++ front) = 0 :=
    step_injective (v := 1) (residue_lt _) (by decide) valid
  rw [verify, beq_iff_eq, ← List.append_assoc, residue_append, empty, List.foldl_append,
    foldl_step_replicate_zero, iterate_coast_zero]
  rfl

end Checksum

namespace Bech32

/-- The characters of the symbols 0 and 1. -/
lemma letter_zero_one : letter 0 = 'q' ∧ letter 1 = 'p' := by decide

/-- In text in lowercase that is read, a last character `p` spells a last symbol 1. -/
lemma exists_front_of_decode {before : List Char} {hrp : String} {data : List UInt8}
    (decoded : decode (String.ofList (before ++ ['p'])) = .ok (hrp, data))
    (inLower : lower (before ++ ['p']) = before ++ ['p']) :
    ∃ front, before = hrp.toList ++ separator :: front.map letter ∧ hrp.toList ≠ [] ∧
      (∀ byte ∈ Utf8.encode hrp, 33 ≤ byte ∧ byte ≤ 126) ∧
      (∀ symbol ∈ front, symbol.toNat < 32) ∧ Checksum.length ≤ front.length ∧
      Checksum.verify hrp (front ++ [1]) = true ∧
      data = (front ++ [1]).take ((front ++ [1]).length - Checksum.length) := by
  obtain ⟨-, payload, symbols, whole, ne, printable, ⟨small, spelled⟩, enough, valid, rfl⟩ :=
    decode_eq_ok_iff.1 decoded
  obtain rfl | ⟨front, last, rfl⟩ := List.eq_nil_or_concat' symbols
  · cases enough
  obtain ⟨smallFront, smallLast⟩ := List.forall_mem_append.1 small
  rw [String.toList_ofList, inLower, spelled, List.map_append, ← List.cons_append,
    ← List.append_assoc] at whole
  obtain ⟨beforeEq, lastEq⟩ := List.append_inj' whole rfl
  have one : [last] = [1] := by
    refine map_letter_injective smallLast (List.forall_mem_singleton.2 (by decide)) ?_
    rw [← lastEq, List.map_singleton, letter_zero_one.2]
  cases one
  rw [List.length_append, List.length_singleton] at enough
  exact ⟨front, beforeEq, ne, printable, smallFront, Nat.le_of_lt_succ enough, valid, rfl⟩

/-- What stands in front of the checksum goes on where zeros are put in front of a last symbol. -/
lemma take_insert_zeros {front : List UInt8} (enough : Checksum.length ≤ front.length) (k : Nat) :
    ∃ more, more.length = k ∧
      (front ++ (List.replicate k 0 ++ [1])).take
          ((front ++ (List.replicate k 0 ++ [1])).length - Checksum.length)
        = (front ++ [1]).take ((front ++ [1]).length - Checksum.length) ++ more := by
  rw [Checksum.length] at *
  have kept : (front ++ [1]).length - 6 ≤ front.length := by
    rw [List.length_append, List.length_singleton]
    omega
  have count : (front ++ (List.replicate k 0 ++ [1])).length - 6
      = (front ++ [1]).length - 6 + k := by
    simp only [List.length_append, List.length_replicate, List.length_singleton]
    omega
  rw [count, List.take_add, List.take_append_of_le_length kept, List.take_append_of_le_length kept]
  refine ⟨_, ?_, rfl⟩
  simp only [List.length_take, List.length_drop, List.length_append, List.length_replicate,
    List.length_singleton]
  omega

/-- Text that is read is read also with zeros in front of a last symbol 1, as a longer payload. -/
lemma decode_insert_zeros {before : List Char} {hrp : String} {data : List UInt8}
    (decoded : decode (String.ofList (before ++ ['p'])) = .ok (hrp, data))
    (inLower : lower (before ++ ['p']) = before ++ ['p']) (k : Nat) :
    ∃ more, more.length = k ∧
      decode (String.ofList (before ++ (List.replicate k 'q' ++ ['p'])))
        = .ok (hrp, data ++ more) := by
  obtain ⟨-, hrpInLower, -, -⟩ := decode_eq_ok_iff_encode.1 decoded
  obtain ⟨front, rfl, ne, printable, small, enough, valid, rfl⟩ :=
    exists_front_of_decode decoded inLower
  obtain ⟨more, count, payload⟩ := take_insert_zeros enough k
  have spells : Spells (front ++ (List.replicate k 0 ++ [1]))
      (front.map letter ++ (List.replicate k 'q' ++ ['p'])) := by
    refine ⟨List.forall_mem_append.2 ⟨small, List.forall_mem_append.2 ⟨?_, ?_⟩⟩, ?_⟩
    · intro symbol mem
      rw [List.eq_of_mem_replicate mem]
      decide
    · exact List.forall_mem_singleton.2 (by decide)
    · rw [List.map_append, List.map_append, List.map_replicate, letter_zero_one.1,
        List.map_singleton, letter_zero_one.2]
  -- The longer text has the same front, so it is decoded from its own symbols.
  have text : String.ofList (hrp.toList ++ separator :: front.map letter
        ++ (List.replicate k 'q' ++ ['p']))
      = assemble hrp.toList (front.map letter ++ (List.replicate k 'q' ++ ['p'])) := by
    rw [assemble, hrpInLower, List.append_assoc]
    rfl
  have inLower := lower_toList_assemble hrp.toList spells
  have longer : Checksum.length < (front ++ (List.replicate k 0 ++ [1])).length := by
    simp only [List.length_append, List.length_singleton]
    omega
  have read := decode_eq_of_spells (mixesCase_of_lower_eq inLower)
    (inLower.trans (by rw [assemble, String.toList_ofList, hrpInLower])) ne printable spells longer
  rw [← text, if_pos (Checksum.verify_insert_zeros valid k), payload] at read
  exact ⟨more, count, read⟩

end Bech32

namespace Address

open Bech32 (lower)

/-- The bytes of an address do not begin with those of another one. -/
lemma eq_nil_of_toData_append {a b : Address} {bytes more : List UInt8}
    (distinct : a.DistinctKeys) (distinct' : b.DistinctKeys) (first : a.toData = .ok bytes)
    (second : b.toData = .ok (bytes ++ more)) : more = [] := by
  obtain ⟨rest, written, whole⟩ := toData_eq_ok_iff.1 first
  obtain ⟨rest', written', whole'⟩ := toData_eq_ok_iff.1 second
  have keys : a.publicKey.bytes.length = b.publicKey.bytes.length := by
    rw [a.publicKey.length_eq, b.publicKey.length_eq]
  rw [whole, List.append_assoc] at whole'
  obtain ⟨-, rfl⟩ := List.append_inj whole' keys
  -- Behind the equal keys the type bytes are equal, so both have extra data or neither has.
  cases tail_eq_ok_iff.1 written with
  | inl plain =>
    obtain ⟨-, rfl⟩ := plain
    cases tail_eq_ok_iff.1 written' with
    | inl plain' => exact (List.cons.inj plain'.2).2
    | inr integrated' =>
      obtain ⟨f, extra', -, -, type⟩ := integrated'
      exact absurd (List.cons.inj type).1 (by decide)
  | inr integrated =>
    obtain ⟨e, extra, present, bytes, rfl⟩ := integrated
    cases tail_eq_ok_iff.1 written' with
    | inl plain' => exact absurd (List.cons.inj plain'.2).1 (by decide)
    | inr integrated' =>
      obtain ⟨f, extra', present', bytes', type⟩ := integrated'
      obtain ⟨-, rfl⟩ := List.cons.inj type
      have spelled := Element.spells_iff.2 ⟨distinct e present, (extraBytes_eq_ok_iff.1 bytes).1⟩
      have spelled' :=
        Element.spells_iff.2 ⟨distinct' f present', (extraBytes_eq_ok_iff.1 bytes').1⟩
      exact spelled.eq_nil_of_append spelled'

/-- The symbols of an accepted text do not begin with those of another one. -/
lemma eq_nil_of_parse_append {text other hrp hrp' : String} {data more : List UInt8} {a b : Address}
    (accepted : parse text = .ok a) (accepted' : parse other = .ok b)
    (decoded : Bech32.decode text = .ok (hrp, data))
    (decoded' : Bech32.decode other = .ok (hrp', data ++ more)) : more = [] := by
  obtain ⟨network, symbols, same, bytes, regrouped, read⟩ := parse_eq_ok_iff.1 accepted
  obtain ⟨network', symbols', same', bytes', regrouped', read'⟩ := parse_eq_ok_iff.1 accepted'
  cases same.symm.trans decoded
  cases same'.symm.trans decoded'
  obtain ⟨rest, rfl, shorter⟩ := Regroup.regroup_exact_append regrouped regrouped'
  obtain ⟨-, distinct, written⟩ := ofData_eq_ok_iff.1 read
  obtain ⟨-, distinct', written'⟩ := ofData_eq_ok_iff.1 read'
  exact shorter (eq_nil_of_toData_append distinct distinct' written written')

/-- The text of an address has a human readable part, and symbols under a valid checksum. -/
lemma exists_decode_of_parse {text : String} {a : Address} (accepted : parse text = .ok a) :
    ∃ hrp data, Bech32.decode text = .ok (hrp, data) := by
  obtain ⟨network, symbols, decoded, -⟩ := parse_eq_ok_iff.1 accepted
  exact ⟨_, _, decoded⟩

/-- An accepted text in lowercase that ends in `p` is not accepted with `q`s in front of that `p`,
though its checksum is valid then. -/
lemma parse_insert_zeros {before : List Char} {a : Address} {k : Nat} (pos : 0 < k)
    (accepted : parse (String.ofList (before ++ ['p'])) = .ok a)
    (inLower : lower (before ++ ['p']) = before ++ ['p']) :
    (∃ result, Bech32.decode (String.ofList (before ++ (List.replicate k 'q' ++ ['p'])))
      = .ok result) ∧
    ∃ cause, parse (String.ofList (before ++ (List.replicate k 'q' ++ ['p']))) = .error cause := by
  obtain ⟨hrp, data, decoded⟩ := exists_decode_of_parse accepted
  obtain ⟨more, count, longer⟩ := Bech32.decode_insert_zeros decoded inLower k
  refine ⟨⟨_, longer⟩, Outcome.exists_error_of_ne_ok ?_⟩
  intro b accepted'
  rw [eq_nil_of_parse_append accepted accepted' decoded longer] at count
  exact Nat.ne_of_lt pos count

/-- The symbols of an accepted text are never the beginning of those of another one. So though `q`s
in front of a last `p` leave a valid checksum valid, no address becomes another one if such are
inserted or deleted. -/
theorem accepted_payloads_are_prefix_free :
    (∀ (text other hrp hrp' : String) (data data' : List UInt8) (a b : Address),
      parse text = .ok a → parse other = .ok b → Bech32.decode text = .ok (hrp, data) →
      Bech32.decode other = .ok (hrp', data') → data <+: data' → data = data') ∧
    (∀ (before : List Char) (a : Address) (k : Nat), 0 < k →
      parse (String.ofList (before ++ ['p'])) = .ok a →
      lower (before ++ ['p']) = before ++ ['p'] →
      (∃ result, Bech32.decode (String.ofList (before ++ (List.replicate k 'q' ++ ['p'])))
        = .ok result) ∧
      ∃ cause, parse (String.ofList (before ++ (List.replicate k 'q' ++ ['p']))) = .error cause) ∧
    (∀ (before : List Char) (a : Address) (k : Nat), 0 < k →
      parse (String.ofList (before ++ (List.replicate k 'q' ++ ['p']))) = .ok a →
      lower (before ++ (List.replicate k 'q' ++ ['p']))
        = before ++ (List.replicate k 'q' ++ ['p']) →
      ∃ cause, parse (String.ofList (before ++ ['p'])) = .error cause) := by
  refine ⟨?_, ?_, ?_⟩
  · intro text other hrp hrp' data data' a b accepted accepted' decoded decoded' start
    obtain ⟨more, rfl⟩ := start
    rw [eq_nil_of_parse_append accepted accepted' decoded decoded', List.append_nil]
  · intro before a k pos accepted inLower
    exact parse_insert_zeros pos accepted inLower
  · intro before a k pos accepted inLower
    apply Outcome.exists_error_of_ne_ok
    intro b accepted'
    have front : lower (before ++ ['p']) = before ++ ['p'] := by
      rw [lower, List.map_append] at inLower ⊢
      rw [(List.append_inj inLower (List.length_map _)).1]
      rfl
    obtain ⟨cause, refused⟩ := (parse_insert_zeros pos accepted' front).2
    cases accepted.symm.trans refused

/-- An address whose text ends in `qp`, with more `q`s in front of the `p` and with none. -/
theorem accepted_payloads_are_prefix_free_plain :
    ∃ before, before = "xel:qqqqqqqqqqqqqqqqqqqqqqqqqqqqqqqqqqqqqqqqqqqqqqqqqygsqgr2l".toList ∧
      parse (String.ofList (before ++ ['q'] ++ ['p']))
        = .ok (plain ⟨List.replicate 30 0 ++ [1, 17], rfl⟩ .mainnet) ∧
      (∃ result, Bech32.decode
        (String.ofList (before ++ ['q'] ++ (List.replicate 3 'q' ++ ['p']))) = .ok result) ∧
      (∃ cause, parse (String.ofList (before ++ ['p'])) = .error cause) := by
  refine ⟨_, rfl, ?_⟩
  have accepted : parse (String.ofList
      ("xel:qqqqqqqqqqqqqqqqqqqqqqqqqqqqqqqqqqqqqqqqqqqqqqqqqygsqgr2l".toList ++ ['q'] ++ ['p']))
      = .ok (plain ⟨List.replicate 30 0 ++ [1, 17], rfl⟩ .mainnet) := by
    refine parse_eq_ok_iff_format.2 ⟨nofun, ?_, ?_⟩
    · decide +kernel
    · decide +kernel
  have inLower : lower
      ("xel:qqqqqqqqqqqqqqqqqqqqqqqqqqqqqqqqqqqqqqqqqqqqqqqqqygsqgr2l".toList ++ ['q'] ++ ['p'])
      = "xel:qqqqqqqqqqqqqqqqqqqqqqqqqqqqqqqqqqqqqqqqqqqqqqqqqygsqgr2l".toList
        ++ ['q'] ++ ['p'] := by
    decide +kernel
  generalize "xel:qqqqqqqqqqqqqqqqqqqqqqqqqqqqqqqqqqqqqqqqqqqqqqqqqygsqgr2l".toList = before at *
  refine ⟨accepted, ?_, ?_⟩
  · exact (accepted_payloads_are_prefix_free.2.1 _ _ 3 (by decide) accepted inLower).1
  · rw [List.append_assoc] at accepted inLower
    exact accepted_payloads_are_prefix_free.2.2 before _ 1 (by decide) accepted inLower

end Address

end AddressCodec
