import AddressCodec.Proofs.Bech32.Canonical
import Mathlib

/-!
# Faults of checksummed text

Why a text is not read, exactly: the faults of a text are listed with the place where each of them
is found, and reading reports a fault just if the text has it (`decode_eq_error_iff`). So every text
that is not read has one fault.
-/

namespace AddressCodec.Bech32

open Utf8

/-- Lowercasing a character keeps its number of bytes. -/
lemma utf8Size_toLower (c : Char) : c.toLower.utf8Size = c.utf8Size := by
  by_cases upper : c.isUpper = true
  · have ascii {d : Char} (low : d.toNat ≤ 127) : d.utf8Size = 1 := Char.utf8Size_eq_one_iff.2 low
    have bounds := (isUpper_iff c).1 upper
    have low : c.toLower.toNat ≤ 127 := by
      rw [toNat_toLower]
      split <;> omega
    rw [ascii low, ascii (by omega)]
  · rw [(toLower_eq_self_iff c).2 (Bool.not_eq_true _ ▸ upper)]

/-- In lowercase a text takes as many bytes. -/
lemma byteLength_lower (cs : List Char) : byteLength (lower cs) = byteLength cs := by
  induction cs with
  | nil => rfl
  | cons c cs ih =>
    unfold byteLength lower at *
    rw [List.map_cons, List.flatMap_cons, List.flatMap_cons, List.length_append,
      List.length_append, ih, String.length_utf8EncodeChar, String.length_utf8EncodeChar,
      utf8Size_toLower]

/-- Only the empty text has no bytes. -/
lemma byteLength_eq_zero_iff {cs : List Char} : byteLength cs = 0 ↔ cs = [] := by
  rw [byteLength, List.length_eq_zero_iff, List.flatMap_eq_nil_iff]
  refine ⟨?_, ?_⟩
  · intro none
    cases cs with
    | nil => rfl
    | cons c cs => exact absurd (none c List.mem_cons_self) String.utf8EncodeChar_ne_nil
  · rintro rfl
    exact nofun

/-- Lowercasing neither adds separators nor removes them. -/
lemma mem_lower_separator_iff {cs : List Char} : separator ∈ lower cs ↔ separator ∈ cs := by
  rw [lower, List.mem_map]
  refine ⟨?_, ?_⟩
  · rintro ⟨c, mem, same⟩
    exact eq_of_toLower_eq (by decide) same ▸ mem
  · intro mem
    exact ⟨separator, mem, by decide⟩

/-- A text splits where its lowercase does. -/
lemma splitLast?_lower_eq_some_iff {cs hrp payload : List Char} :
    splitLast? separator (lower cs) = some (hrp, payload) ↔ ∃ front behind,
      cs = front ++ separator :: behind ∧ separator ∉ behind ∧
      lower front = hrp ∧ lower behind = payload := by
  rw [splitLast?_eq_some_iff]
  refine ⟨?_, ?_⟩
  · rintro ⟨whole, last⟩
    obtain ⟨front, tail, rfl, rfl, rest⟩ := List.map_eq_append_iff.1 whole
    obtain ⟨c, behind, rfl, same, rfl⟩ := List.map_eq_cons_iff.1 rest
    obtain rfl := eq_of_toLower_eq (by decide) same
    exact ⟨front, behind, rfl, mt mem_lower_separator_iff.2 last, rfl, rfl⟩
  · rintro ⟨front, behind, rfl, last, rfl, rfl⟩
    refine ⟨?_, mt mem_lower_separator_iff.1 last⟩
    rw [lower, List.map_append, List.map_cons]
    rfl

/-- A character of ASCII is its own byte. -/
lemma toNat_leadByte_of_ascii {c : Char} (ascii : c.toNat ≤ 127) :
    (leadByte c).toNat = c.toNat := by
  have number : c.val.toNat = c.toNat := rfl
  have bytes : String.utf8EncodeChar c = [UInt8.ofNat c.toNat] := by
    rw [String.utf8EncodeChar, number, if_pos ascii]
  simp only [leadByte, bytes, List.head_cons]
  exact UInt8.toNat_ofNat_of_lt' (Nat.lt_of_le_of_lt ascii (by decide))

/-- The first byte of a character outside ASCII is above 127. -/
lemma lt_toNat_leadByte_of_wide {c : Char} (wide : ¬ c.toNat ≤ 127) : 127 < (leadByte c).toNat := by
  obtain ⟨lead, rest, bytes, high⟩ := exists_lead wide
  simp only [leadByte, bytes, List.head_cons]
  exact high

/-- Exactly the characters that have no place in a human readable part start with a byte that has
none. -/
lemma isHrpChar_eq_false_iff {c : Char} :
    isHrpChar c = false ↔ leadByte c < 33 ∨ 126 < leadByte c := by
  rw [← Bool.not_eq_true, isHrpChar, Bool.and_eq_true, decide_eq_true_eq, decide_eq_true_eq,
    UInt8.lt_iff_toNat_lt, UInt8.lt_iff_toNat_lt]
  show _ ↔ (leadByte c).toNat < 33 ∨ 126 < (leadByte c).toNat
  by_cases ascii : c.toNat ≤ 127
  · rw [toNat_leadByte_of_ascii ascii]
    omega
  · have high := lt_toNat_leadByte_of_wide ascii
    omega

/-- The first bytes of the characters of the alphabet are those of no other character. -/
lemma mem_alphabet_iff {c : Char} : c ∈ alphabet ↔ leadByte c ∈ alphabet.map leadByte := by
  refine ⟨List.mem_map_of_mem, ?_⟩
  intro mem
  obtain ⟨d, mem, same⟩ := List.mem_map.1 mem
  have low : d.toNat ≤ 127 := Char.utf8Size_eq_one_iff.1 (of_mem_alphabet mem).2.2
  have same := congrArg UInt8.toNat same
  rw [toNat_leadByte_of_ascii low] at same
  by_cases ascii : c.toNat ≤ 127
  · rw [toNat_leadByte_of_ascii ascii] at same
    exact Char.toNat_inj.1 same ▸ mem
  · have high := lt_toNat_leadByte_of_wide ascii
    omega

/-- What is no printable character of ASCII is no letter of it. -/
lemma toLower_eq_self_of_isHrpChar {c : Char} (bad : isHrpChar c = false) : c.toLower = c := by
  rw [toLower_eq_self_iff, ← Bool.not_eq_true, isUpper_iff]
  rw [← Bool.not_eq_true, isHrpChar, Bool.and_eq_true, decide_eq_true_eq, decide_eq_true_eq] at bad
  omega

/-- Lowercasing a text does not change whether it may be a human readable part. -/
lemma forall_mem_lower_isHrpChar_iff {cs : List Char} :
    (∀ c ∈ lower cs, isHrpChar c = true) ↔ ∀ c ∈ cs, isHrpChar c = true := by
  rw [lower, List.forall_mem_map]
  exact forall₂_congr fun c _ => by rw [isHrpChar_toLower]

/-- A human readable part is refused for its first character that may not stand there. -/
lemma checkHrp_eq_error_iff {hrp : List Char} {cause : Error} :
    checkHrp hrp = .error cause ↔ ∃ good c rest, hrp = good ++ c :: rest ∧
      (∀ d ∈ good, isHrpChar d = true) ∧ isHrpChar c = false ∧
      cause = .invalidHrpByte (leadByte c) := by
  rw [checkHrp]
  cases found : hrp.find? (fun c => !isHrpChar c) with
  | none =>
    refine iff_of_false ?_ ?_
    · intro same
      cases same
    · rintro ⟨good, c, rest, rfl, -, bad, -⟩
      have every := List.find?_eq_none.1 found c (List.mem_append_right _ List.mem_cons_self)
      simp [bad] at every
  | some c =>
    obtain ⟨bad, good, rest, whole, all⟩ := List.find?_eq_some_iff_append.1 found
    refine ⟨?_, ?_⟩
    · rintro ⟨⟩
      exact ⟨good, c, rest, whole, fun d mem => by simpa using all d mem, by simpa using bad, rfl⟩
    · rintro ⟨good', c', rest', rfl, all', bad', rfl⟩
      have first : (good' ++ c' :: rest').find? (fun c => !isHrpChar c) = some c' := by
        refine List.find?_eq_some_iff_append.2 ⟨by simp [bad'], good', rest', rfl, ?_⟩
        intro d mem
        simp [all' d mem]
      rw [first] at found
      cases found
      rfl

/-- A character is refused exactly if it is not in the alphabet. -/
lemma symbolOf_eq_error_iff {c : Char} {cause : Error} :
    symbolOf c = .error cause ↔ c ∉ alphabet ∧ cause = .invalidDataByte (leadByte c) := by
  rw [symbolOf]
  cases found : alphabet.idxOf? c with
  | none => simp [List.idxOf?_eq_none_iff.1 found, eq_comm]
  | some i =>
    have mem : c ∈ alphabet := by
      by_contra other
      rw [List.idxOf?_eq_none_iff.2 other] at found
      cases found
    simp [mem]

/-- A character stands for a symbol exactly if it is in the alphabet. -/
lemma exists_symbolOf_iff {c : Char} : (∃ symbol, symbolOf c = .ok symbol) ↔ c ∈ alphabet := by
  simp only [symbolOf_eq_ok_iff, charOf_eq_ok_iff]
  refine ⟨?_, ?_⟩
  · rintro ⟨symbol, small, rfl⟩
    exact letter_mem small
  · intro mem
    obtain ⟨symbol, small, same⟩ := exists_letter_eq mem
    exact ⟨symbol, small, same.symm⟩

/-- Text that is read has symbols, of five bits each. -/
lemma symbols_of_decode {text hrp : String} {data : List UInt8}
    (decoded : decode text = .ok (hrp, data)) :
    data ≠ [] ∧ ∀ symbol ∈ data, symbol.toNat < 32 := by
  obtain ⟨-, -, ne, written⟩ := decode_eq_ok_iff_encode.1 decoded
  exact ⟨ne, (exists_encode_iff.1 ⟨_, written⟩).2⟩

/-- A text of one case, and what stands before and behind its last separator. -/
structure Split (text : String) (front behind : List Char) : Prop where
  oneCase : mixesCase text.toList = false
  whole : text.toList = front ++ separator :: behind
  last : separator ∉ behind

/-- A split with something in front and more than a checksum behind. -/
structure Roomy (text : String) (front behind : List Char) : Prop extends
    Split text front behind where
  pos : byteLength front ≠ 0
  enough : 7 ≤ byteLength behind

/-- What is wrong with a text, and where this is found. -/
inductive Fault (text : String) : Error → Prop
  | mixedCase : mixesCase text.toList = true → Fault text .mixedCase
  | noSeparator : mixesCase text.toList = false → separator ∉ text.toList →
      Fault text (.invalidSeparator none)
  | separator {front behind : List Char} : Split text front behind →
      byteLength front = 0 ∨ byteLength behind < 7 →
      Fault text (.invalidSeparator (some (byteLength front)))
  | hrpByte {good rest behind : List Char} {c : Char} : Roomy text (good ++ c :: rest) behind →
      (∀ d ∈ good, isHrpChar d = true) → leadByte c < 33 ∨ 126 < leadByte c →
      Fault text (.invalidHrpByte (leadByte c))
  | dataByte {front good rest : List Char} {c : Char} : Roomy text front (good ++ c :: rest) →
      (∀ d ∈ front, isHrpChar d = true) → (∀ d ∈ lower good, d ∈ alphabet) →
      leadByte c.toLower ∉ alphabet.map leadByte →
      Fault text (.invalidDataByte (leadByte c.toLower))
  | checksum {front behind : List Char} {symbols : List UInt8} : Roomy text front behind →
      (∀ d ∈ front, isHrpChar d = true) → Spells symbols (lower behind) →
      Checksum.verify (String.ofList (lower front)) symbols = false → Fault text .invalidChecksum

section Reading

variable {text : String} {front behind : List Char} {cause : Error}

/-- A text of one case that has a separator is split at the last one. -/
lemma exists_split (oneCase : mixesCase text.toList = false) (present : separator ∈ text.toList) :
    ∃ front behind, Split text front behind := by
  obtain ⟨⟨front, behind⟩, found⟩ := Option.ne_none_iff_exists'.1
    (mt splitLast?_eq_none_iff.1 (not_not.2 present))
  obtain ⟨whole, last⟩ := splitLast?_eq_some_iff.1 found
  exact ⟨front, behind, oneCase, whole, last⟩

/-- A split with something in front and seven bytes behind is roomy. -/
lemma Split.roomy (split : Split text front behind)
    (enough : ¬ (byteLength front = 0 ∨ byteLength behind < 7)) : Roomy text front behind where
  toSplit := split
  pos := (not_or.1 enough).1
  enough := Nat.le_of_not_lt (not_or.1 enough).2

/-- Decoding splits the lowercase text where the text is split. -/
lemma Split.splitLast?_eq (split : Split text front behind) :
    splitLast? separator (lower text.toList) = some (lower front, lower behind) :=
  splitLast?_lower_eq_some_iff.2 ⟨front, behind, split.whole, split.last, rfl, rfl⟩

/-- A split with nothing in front, or too little behind, is refused for its offset. -/
lemma Split.decode_eq_of_short (split : Split text front behind)
    (short : byteLength front = 0 ∨ byteLength behind < 7) :
    decode text = .error (.invalidSeparator (some (byteLength front))) := by
  have short : lower front = [] ∨ byteLength (lower behind) ≤ Checksum.length := by
    rw [← byteLength_eq_zero_iff, byteLength_lower, byteLength_lower]
    exact short.imp_right Nat.le_of_lt_succ
  simp only [decode, split.oneCase, split.splitLast?_eq, if_pos short]
  rw [byteLength_lower]
  rfl

/-- Behind the checks of case and of the separator. -/
lemma Roomy.decode_eq (roomy : Roomy text front behind) :
    decode text = checkHrp (lower front) >>= fun _ =>
      (lower behind).mapM symbolOf >>= fun symbols =>
        if Checksum.verify (String.ofList (lower front)) symbols then
          .ok (String.ofList (lower front), symbols.take (symbols.length - Checksum.length))
        else .error .invalidChecksum := by
  have room : ¬ (lower front = [] ∨ byteLength (lower behind) ≤ Checksum.length) := by
    rw [← byteLength_eq_zero_iff, byteLength_lower, byteLength_lower]
    exact fun short => short.elim roomy.pos (Nat.not_le_of_lt roomy.enough)
  simp only [decode, roomy.oneCase, roomy.splitLast?_eq, if_neg room]
  rfl

/-- The lowercase front passes exactly if each of its characters may stand there. -/
lemma checkHrp_lower_eq_ok_iff :
    checkHrp (lower front) = .ok () ↔ ∀ c ∈ front, isHrpChar c = true := by
  rw [checkHrp_eq_ok_iff, forall_printable_iff, forall_mem_lower_isHrpChar_iff]

/-- A fault that a text has is reported. -/
lemma decode_of_fault (fault : Fault text cause) : decode text = .error cause := by
  cases fault with
  | mixedCase mixed =>
    simp only [decode, mixed]
    rfl
  | noSeparator oneCase missing =>
    have none := splitLast?_eq_none_iff.2 (mt mem_lower_separator_iff.1 missing)
    simp only [decode, oneCase, none]
    rfl
  | separator split short => exact split.decode_eq_of_short short
  | @hrpByte good rest behind c roomy printable outside =>
    -- What may not stand in the human readable part is no letter, so lowercasing leaves it.
    have bad := isHrpChar_eq_false_iff.2 outside
    have refused :
        checkHrp (lower (good ++ c :: rest)) = .error (.invalidHrpByte (leadByte c)) := by
      refine checkHrp_eq_error_iff.2 ⟨lower good, c, lower rest, ?_, ?_, bad, rfl⟩
      · rw [lower, List.map_append, List.map_cons, toLower_eq_self_of_isHrpChar bad]
        rfl
      · exact forall_mem_lower_isHrpChar_iff.2 printable
    rw [roomy.decode_eq, refused]
    rfl
  | @dataByte front good rest c roomy printable known outside =>
    have refused : (lower (good ++ c :: rest)).mapM symbolOf
        = .error (.invalidDataByte (leadByte c.toLower)) := by
      refine Outcome.mapM_eq_error_iff.2 ⟨lower good, c.toLower, lower rest, ?_, ?_, ?_⟩
      · rw [lower, List.map_append, List.map_cons]
        rfl
      · exact fun d mem => exists_symbolOf_iff.2 (known d mem)
      · exact symbolOf_eq_error_iff.2 ⟨mt mem_alphabet_iff.1 outside, rfl⟩
    rw [roomy.decode_eq, checkHrp_lower_eq_ok_iff.2 printable, refused]
    rfl
  | checksum roomy printable spells invalid =>
    rw [roomy.decode_eq, checkHrp_lower_eq_ok_iff.2 printable, mapM_symbolOf_eq_ok_iff.2 spells]
    simp [bind, Except.bind, invalid]

/-- What is reported where there is enough around the separator is a fault. -/
lemma Roomy.fault (roomy : Roomy text front behind) (failed : decode text = .error cause) :
    Fault text cause := by
  rw [roomy.decode_eq] at failed
  rcases Outcome.bind_eq_error_iff.1 failed with bad | ⟨_, checked, failed⟩
  · obtain ⟨good, c, rest, whole, printable, outside, rfl⟩ := checkHrp_eq_error_iff.1 bad
    -- The place is found in lowercase; the same place of the text itself is reported.
    obtain ⟨good, tail, rfl, rfl, same⟩ := List.map_eq_append_iff.1 whole
    obtain ⟨c, rest, rfl, rfl, rfl⟩ := List.map_eq_cons_iff.1 same
    rw [isHrpChar_toLower] at outside
    rw [toLower_eq_self_of_isHrpChar outside]
    exact .hrpByte roomy (forall_mem_lower_isHrpChar_iff.1 printable)
      (isHrpChar_eq_false_iff.1 outside)
  · have printable := checkHrp_lower_eq_ok_iff.1 checked
    rcases Outcome.bind_eq_error_iff.1 failed with bad | ⟨symbols, read, failed⟩
    · obtain ⟨good, c, rest, whole, known, bad⟩ := Outcome.mapM_eq_error_iff.1 bad
      obtain ⟨outside, rfl⟩ := symbolOf_eq_error_iff.1 bad
      obtain ⟨good, tail, rfl, rfl, same⟩ := List.map_eq_append_iff.1 whole
      obtain ⟨c, rest, rfl, rfl, rfl⟩ := List.map_eq_cons_iff.1 same
      refine .dataByte roomy printable ?_ (mt mem_alphabet_iff.2 outside)
      exact fun d mem => exists_symbolOf_iff.1 (known d mem)
    · have spells := mapM_symbolOf_eq_ok_iff.1 read
      split at failed
      next => cases failed
      next invalid =>
        cases failed
        exact .checksum roomy printable spells (Bool.not_eq_true _ ▸ invalid)

/-- Reading reports a fault exactly if the text has it. -/
lemma decode_eq_error_iff : decode text = .error cause ↔ Fault text cause := by
  refine ⟨?_, decode_of_fault⟩
  intro failed
  -- Each case has a fault of its own, and what is reported is that one.
  by_cases mixed : mixesCase text.toList = true
  · rw [decode_of_fault (.mixedCase mixed)] at failed
    cases failed
    exact .mixedCase mixed
  have oneCase : mixesCase text.toList = false := Bool.not_eq_true _ ▸ mixed
  by_cases present : separator ∈ text.toList
  · obtain ⟨front, behind, split⟩ := exists_split oneCase present
    by_cases short : byteLength front = 0 ∨ byteLength behind < 7
    · rw [split.decode_eq_of_short short] at failed
      cases failed
      exact .separator split short
    · exact (split.roomy short).fault failed
  · rw [decode_of_fault (.noSeparator oneCase present)] at failed
    cases failed
    exact .noSeparator oneCase present

end Reading

end AddressCodec.Bech32
