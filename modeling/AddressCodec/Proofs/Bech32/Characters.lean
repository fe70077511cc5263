import AddressCodec.Bech32
import AddressCodec.Proofs.Outcome
import Mathlib

/-!
# Characters of checksummed text

Letter case and the alphabet. Two different characters that are equal in lowercase are one letter in
both cases, so a text with both mixes cases (`isLower_or_of_toLower_eq`). Symbols and the characters
that stand for them determine each other (`mapM_charOf_eq_ok_iff`, `mapM_symbolOf_eq_ok_iff`).
-/

namespace AddressCodec.Bech32

/-- Lowercasing moves the capital letters of ASCII by 32 and nothing else. -/
lemma toNat_toLower (c : Char) :
    c.toLower.toNat = if 65 ≤ c.toNat ∧ c.toNat ≤ 90 then c.toNat + 32 else c.toNat := by
  unfold Char.toLower
  have h1 : (c.val ≥ 'A'.val ∧ c.val ≤ 'Z'.val) ↔ (65 ≤ c.toNat ∧ c.toNat ≤ 90) := by
    simp only [ge_iff_le, UInt32.le_iff_toNat_le]
    rfl
  split
  · rename_i upper
    rw [if_pos (h1.1 upper)]
    have := (h1.1 upper).2
    change (c.val + ('a'.val - 'A'.val)).toNat = c.val.toNat + 32
    rw [UInt32.toNat_add]
    change (c.val.toNat + 32) % 4294967296 = _
    have : c.val.toNat = c.toNat := rfl
    omega
  · rename_i other
    rw [if_neg (mt h1.2 other)]

/-- The capital letters are those of ASCII. -/
lemma isUpper_iff (c : Char) : c.isUpper = true ↔ 65 ≤ c.toNat ∧ c.toNat ≤ 90 := by
  delta Char.isUpper
  simp only [ge_iff_le, UInt32.le_iff_toNat_le, decide_eq_true_eq]
  rfl

/-- The small letters are those of ASCII. -/
lemma isLower_iff (c : Char) : c.isLower = true ↔ 97 ≤ c.toNat ∧ c.toNat ≤ 122 := by
  delta Char.isLower
  simp only [ge_iff_le, UInt32.le_iff_toNat_le, Bool.and_eq_true, decide_eq_true_eq]
  rfl

/-- A character is its own lowercase unless it is an uppercase letter. -/
lemma toLower_eq_self_iff (c : Char) : c.toLower = c ↔ c.isUpper = false := by
  rw [← Char.toNat_inj, toNat_toLower, ← Bool.not_eq_true, isUpper_iff]
  split <;> omega

/-- Different characters that are equal in lowercase are one letter in both cases. -/
lemma isLower_or_of_toLower_eq {c d : Char} (ne : c ≠ d) (same : c.toLower = d.toLower) :
    (c.isLower = true ∧ d.isUpper = true) ∨ (c.isUpper = true ∧ d.isLower = true) := by
  rw [← Char.toNat_inj, toNat_toLower, toNat_toLower] at same
  rw [Ne, ← Char.toNat_inj] at ne
  rw [isLower_iff, isUpper_iff, isUpper_iff, isLower_iff]
  split at same <;> split at same <;> omega

/-- A character whose lowercase is no letter is that lowercase. -/
lemma eq_of_toLower_eq {c d : Char} (other : d.isLower = false) (same : c.toLower = d) : c = d := by
  rw [← Char.toNat_inj, toNat_toLower] at same
  rw [← Char.toNat_inj]
  rw [← Bool.not_eq_true, isLower_iff] at other
  split at same <;> omega

/-- Lowercase text is its own lowercase. -/
@[simp] lemma lower_lower (cs : List Char) : lower (lower cs) = lower cs := by
  simp [lower]

/-- Lowercase text is of one case. -/
@[simp] lemma mixesCase_lower (cs : List Char) : mixesCase (lower cs) = false := by
  simp [mixesCase, lower]

/-- A text that is its own lowercase is of one case. -/
lemma mixesCase_of_lower_eq {cs : List Char} (h : lower cs = cs) : mixesCase cs = false := by
  rw [← h]
  exact mixesCase_lower cs

/-- A text that does not mix cases has no lowercase letter beside one in uppercase. -/
lemma not_isUpper_of_isLower {cs : List Char} (h : mixesCase cs = false) {c d : Char}
    (hc : c ∈ cs) (hd : d ∈ cs) (low : c.isLower = true) : ¬ d.isUpper = true := by
  intro up
  simp only [mixesCase, Bool.and_eq_false_iff, List.any_eq_false] at h
  exact h.elim (fun none => none c hc low) (fun none => none d hd up)

/-- In a text that does not mix cases, characters that are equal in lowercase are equal. -/
lemma eq_of_mixesCase_eq_false {cs : List Char} (h : mixesCase cs = false) {c d : Char}
    (hc : c ∈ cs) (hd : d ∈ cs) (same : c.toLower = d.toLower) : c = d := by
  by_contra ne
  rcases isLower_or_of_toLower_eq ne same with ⟨low, up⟩ | ⟨up, low⟩
  · exact not_isUpper_of_isLower h hc hd low up
  · exact not_isUpper_of_isLower h hd hc low up

/-- A character whose lowercase is a letter is one. -/
lemma isLower_or_isUpper {c : Char} (letter : c.toLower.isLower = true) :
    c.isLower = true ∨ c.isUpper = true := by
  rw [isLower_iff, toNat_toLower] at letter
  rw [isLower_iff, isUpper_iff]
  split at letter <;> omega

/-- Beside a letter that two texts share, a character of each that has the same lowercase has the
same case. -/
lemma eq_of_shared_letter {cs ds : List Char} {c d z : Char} (one : mixesCase cs = false)
    (two : mixesCase ds = false) (hc : c ∈ cs) (hd : d ∈ ds) (hz : z ∈ cs) (hz' : z ∈ ds)
    (letter : z.toLower.isLower = true) (same : c.toLower = d.toLower) : c = d := by
  by_contra ne
  rcases isLower_or_of_toLower_eq ne same with ⟨low, up⟩ | ⟨up, low⟩
  · cases isLower_or_isUpper letter with
    | inl lowZ => exact not_isUpper_of_isLower two hz' hd lowZ up
    | inr upZ => exact not_isUpper_of_isLower one hc hz low upZ
  · cases isLower_or_isUpper letter with
    | inl lowZ => exact not_isUpper_of_isLower one hz hc lowZ up
    | inr upZ => exact not_isUpper_of_isLower two hd hz' low upZ

/-- The character that stands for a symbol. -/
def letter (symbol : UInt8) : Char := alphabet[symbol.toNat]?.getD separator

/-- Symbols of five bits and the characters that stand for them. -/
def Spells (symbols : List UInt8) (payload : List Char) : Prop :=
  (∀ symbol ∈ symbols, symbol.toNat < 32) ∧ payload = symbols.map letter

/-- Exactly the values of five bits have a character. -/
lemma charOf_eq_ok_iff {symbol : UInt8} {c : Char} :
    charOf symbol = .ok c ↔ symbol.toNat < 32 ∧ c = letter symbol := by
  have size : alphabet.length = 32 := by decide
  rw [charOf, letter]
  split
  · rename_i d found
    obtain ⟨inside, -⟩ := List.getElem?_eq_some_iff.1 found
    rw [size] at inside
    simp [found, inside, eq_comm]
  · rename_i missing
    have outside : ¬ symbol.toNat < 32 := by
      rw [← size]
      exact Nat.not_lt.2 (List.getElem?_eq_none_iff.1 missing)
    simp [outside]

/-- Symbols can be written exactly if all of them have five bits. -/
lemma mapM_charOf_eq_ok_iff {symbols : List UInt8} {payload : List Char} :
    symbols.mapM charOf = .ok payload ↔ Spells symbols payload := by
  induction symbols generalizing payload with
  | nil => simp [Spells, pure, Except.pure, eq_comm]
  | cons symbol symbols ih =>
    simp only [List.mapM_cons, Outcome.bind_eq_ok_iff, Outcome.pure_eq_ok_iff, charOf_eq_ok_iff, ih]
    simp only [Spells, List.forall_mem_cons, List.map_cons]
    refine ⟨?_, ?_⟩
    · intro both
      obtain ⟨c, ⟨small, rfl⟩, cs, ⟨rest, rfl⟩, rfl⟩ := both
      exact ⟨⟨small, rest⟩, rfl⟩
    · intro both
      obtain ⟨⟨small, rest⟩, rfl⟩ := both
      exact ⟨_, ⟨small, rfl⟩, _, ⟨rest, rfl⟩, rfl⟩

/-- Characters are read as symbols exactly if the symbols are written as these characters. -/
lemma mapM_symbolOf_eq_ok_iff {symbols : List UInt8} {payload : List Char} :
    payload.mapM symbolOf = .ok symbols ↔ Spells symbols payload := by
  induction payload generalizing symbols with
  | nil =>
    simp only [List.mapM_nil, Outcome.pure_eq_ok_iff, Spells]
    refine ⟨?_, ?_⟩
    · intro same
      subst same
      exact ⟨nofun, rfl⟩
    · intro both
      obtain ⟨-, e⟩ := both
      exact (List.map_eq_nil_iff.1 e.symm).symm
  | cons c payload ih =>
    simp only [List.mapM_cons, Outcome.bind_eq_ok_iff, Outcome.pure_eq_ok_iff, symbolOf_eq_ok_iff,
      charOf_eq_ok_iff, ih]
    refine ⟨?_, ?_⟩
    · intro both
      obtain ⟨symbol, ⟨small, rfl⟩, symbols, ⟨rest, rfl⟩, rfl⟩ := both
      exact ⟨List.forall_mem_cons.2 ⟨small, rest⟩, rfl⟩
    · intro both
      obtain ⟨small, e⟩ := both
      obtain ⟨symbol, symbols, rfl, rfl, rfl⟩ := List.map_eq_cons_iff.1 e.symm
      obtain ⟨first, rest⟩ := List.forall_mem_cons.1 small
      exact ⟨symbol, ⟨first, rfl⟩, symbols, ⟨rest, rfl⟩, rfl⟩

/-- The letter of a symbol is in the alphabet. -/
lemma letter_mem {symbol : UInt8} (small : symbol.toNat < 32) : letter symbol ∈ alphabet := by
  have inside : symbol.toNat < alphabet.length := small
  rw [letter, List.getElem?_eq_getElem inside, Option.getD_some]
  exact List.getElem_mem inside

/-- Every character of the alphabet stands for a symbol. -/
lemma exists_letter_eq {c : Char} (mem : c ∈ alphabet) :
    ∃ w : UInt8, w.toNat < 32 ∧ letter w = c := by
  obtain ⟨i, inside, found⟩ := List.getElem_of_mem mem
  have small : i < 32 := inside
  have back : (UInt8.ofNat i).toNat = i := UInt8.toNat_ofNat_of_lt' (Nat.lt_trans small (by decide))
  refine ⟨UInt8.ofNat i, back.symm ▸ small, ?_⟩
  rw [letter, back, List.getElem?_eq_getElem inside, Option.getD_some, found]

/-- Symbols are known from the characters that stand for them. -/
lemma map_letter_injective {symbols others : List UInt8} (hs : ∀ s ∈ symbols, s.toNat < 32)
    (ho : ∀ s ∈ others, s.toNat < 32) (same : symbols.map letter = others.map letter) :
    symbols = others := by
  have read := mapM_symbolOf_eq_ok_iff.2 ⟨hs, rfl⟩
  rw [same, mapM_symbolOf_eq_ok_iff.2 ⟨ho, rfl⟩] at read
  exact (Except.ok.inj read).symm

/-- Characters of the alphabet are in lowercase, are no separator and take one byte. -/
lemma of_mem_alphabet {c : Char} (mem : c ∈ alphabet) :
    c.toLower = c ∧ c ≠ separator ∧ c.utf8Size = 1 := by
  have table : (alphabet.all fun c =>
      decide (c.toLower = c ∧ c ≠ separator ∧ c.utf8Size = 1)) = true := by
    decide
  exact of_decide_eq_true (List.all_eq_true.1 table c mem)

/-- Text of one-byte characters has as many bytes as characters. -/
lemma byteLength_eq_length {cs : List Char} (single : ∀ c ∈ cs, c.utf8Size = 1) :
    Utf8.byteLength cs = cs.length := by
  induction cs with
  | nil => rfl
  | cons c cs ih =>
    obtain ⟨first, rest⟩ := List.forall_mem_cons.1 single
    have tail := ih rest
    unfold Utf8.byteLength at tail ⊢
    rw [List.flatMap_cons, List.length_append, tail, String.length_utf8EncodeChar, first,
      List.length_cons, Nat.add_comm]

section Spells

variable {symbols : List UInt8} {payload : List Char}

/-- Symbols are spelled in the alphabet. -/
lemma Spells.mem_alphabet (h : Spells symbols payload) : ∀ c ∈ payload, c ∈ alphabet := by
  intro c mem
  rw [h.2] at mem
  obtain ⟨symbol, inside, rfl⟩ := List.mem_map.1 mem
  exact letter_mem (h.1 symbol inside)

/-- Each symbol is spelled by one character. -/
lemma Spells.length_eq (h : Spells symbols payload) : payload.length = symbols.length := by
  rw [h.2, List.length_map]

/-- Symbols are spelled without the separator. -/
lemma Spells.separator_notMem (h : Spells symbols payload) : separator ∉ payload := by
  intro mem
  exact (of_mem_alphabet (h.mem_alphabet _ mem)).2.1 rfl

/-- Symbols are spelled in lowercase. -/
lemma Spells.lower_eq (h : Spells symbols payload) : lower payload = payload := by
  rw [lower, ← List.map_id payload, List.map_map]
  apply List.map_congr_left
  intro c mem
  exact (of_mem_alphabet (h.mem_alphabet c mem)).1

/-- Each symbol is spelled by one byte. -/
lemma Spells.byteLength_eq (h : Spells symbols payload) :
    Utf8.byteLength payload = symbols.length := by
  rw [← h.length_eq]
  apply byteLength_eq_length
  exact fun c mem => (of_mem_alphabet (h.mem_alphabet c mem)).2.2

end Spells

/-- Beyond ASCII a character starts with a high byte. -/
lemma exists_lead {c : Char} (wide : ¬ c.toNat ≤ 127) :
    ∃ lead rest, String.utf8EncodeChar c = lead :: rest ∧ 127 < lead.toNat := by
  have number : c.val.toNat = c.toNat := rfl
  rw [String.utf8EncodeChar, number, if_neg wide]
  split
  · exact ⟨_, _, rfl, by rw [UInt8.toNat_ofNat']; omega⟩
  · split
    · exact ⟨_, _, rfl, by rw [UInt8.toNat_ofNat']; omega⟩
    · exact ⟨_, _, rfl, by rw [UInt8.toNat_ofNat']; omega⟩

/-- A character may stand in a human readable part exactly if its bytes are printable. -/
lemma isHrpChar_iff (c : Char) :
    isHrpChar c = true ↔ ∀ byte ∈ String.utf8EncodeChar c, 33 ≤ byte ∧ byte ≤ 126 := by
  have number : c.val.toNat = c.toNat := rfl
  rw [isHrpChar, Bool.and_eq_true, decide_eq_true_eq, decide_eq_true_eq]
  by_cases ascii : c.toNat ≤ 127
  · have bytes : String.utf8EncodeChar c = [UInt8.ofNat c.toNat] := by
      rw [String.utf8EncodeChar, number, if_pos ascii]
    have back : (UInt8.ofNat c.toNat).toNat = c.toNat := UInt8.toNat_ofNat_of_lt' (by
      simp only [UInt8.size]; omega)
    rw [bytes, List.forall_mem_singleton, UInt8.le_iff_toNat_le, UInt8.le_iff_toNat_le, back]
    rfl
  · refine ⟨?_, ?_⟩
    · omega
    · intro printable
      obtain ⟨lead, rest, bytes, high⟩ := exists_lead ascii
      rw [bytes] at printable
      have := UInt8.le_iff_toNat_le.1 (printable lead List.mem_cons_self).2
      change lead.toNat ≤ 126 at this
      omega

/-- Lowercasing a character does not change whether it may stand there. -/
lemma isHrpChar_toLower (c : Char) : isHrpChar c.toLower = isHrpChar c := by
  rw [Bool.eq_iff_iff]
  simp only [isHrpChar, Bool.and_eq_true, decide_eq_true_eq, toNat_toLower]
  split <;> omega

/-- The bytes of a text are printable exactly if each of its characters may stand in a human
readable part. -/
lemma forall_printable_iff {cs : List Char} :
    (∀ byte ∈ Utf8.encode (String.ofList cs), 33 ≤ byte ∧ byte ≤ 126) ↔
      ∀ c ∈ cs, isHrpChar c = true := by
  rw [Utf8.encode_ofList, List.forall_mem_flatMap]
  exact forall₂_congr fun c _ => (isHrpChar_iff c).symm

/-- A human readable part passes exactly if all its bytes are printable. -/
lemma checkHrp_eq_ok_iff {hrp : List Char} :
    checkHrp hrp = .ok () ↔ ∀ byte ∈ Utf8.encode (String.ofList hrp), 33 ≤ byte ∧ byte ≤ 126 := by
  rw [forall_printable_iff]
  rw [checkHrp]
  split
  · rename_i c found
    simp only [reduceCtorEq, false_iff]
    intro all
    have bad := List.find?_some found
    simp [all c (List.mem_of_find?_eq_some found)] at bad
  · rename_i none
    simpa using none

end AddressCodec.Bech32
