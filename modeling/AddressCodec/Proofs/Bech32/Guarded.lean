import AddressCodec.Proofs.Bech32.Faults
import AddressCodec.Proofs.Checksum.Guarded

/-!
# Checksummed text in checked operations

Reading and writing of checksummed text once more, on the bytes of the text: the last separator is
looked for among the bytes, the text is cut at byte offsets, and a character is taken from the
alphabet by its place. Cutting yields nothing where no character starts, and taking nothing beyond
the end. Both yield what the plain definitions do on all input (`decode?_eq`, `encode?_eq`): a byte
of a separator is no part of another character (`separatorByte_mem_iff`), so a character starts at
it and behind it.
-/

namespace AddressCodec.Bech32

open Checked Utf8

/-- The byte of a separator. -/
def separatorByte : UInt8 := 58

/-- The last place of a byte. -/
def lastIndex? (b : UInt8) : List UInt8 → Option Nat
  | [] => none
  | d :: rest =>
    match lastIndex? b rest with
    | some i => some (i + 1)
    | none => if d = b then some 0 else none

/-- What stands before and behind a byte offset, if a character or the end is there. -/
def cutAt? : List Char → Nat → Option (List Char × List Char)
  | cs, 0 => some ([], cs)
  | [], _ + 1 => none
  | c :: cs, offset + 1 => do
    let left ← sub (offset + 1) c.utf8Size
    let (before, behind) ← cutAt? cs left
    return (c :: before, behind)

/-- Reads text into its human readable part, in lowercase, and its symbols without the checksum. -/
def decode? (text : String) : Option (Except Error (String × List UInt8)) := ExceptT.run do
  if mixesCase text.toList then throw .mixedCase
  let cs := lower text.toList
  let size := byteLength cs
  match lastIndex? separatorByte (cs.flatMap String.utf8EncodeChar) with
  | none => throw (.invalidSeparator none)
  | some offset =>
    if offset < 1 then throw (.invalidSeparator (some offset))
    let tail ← sub size offset
    let payloadSize ← sub tail 1
    if payloadSize < Checksum.length + 1 then throw (.invalidSeparator (some offset))
    let (hrp, _) ← cutAt? cs offset
    plain (checkHrp hrp)
    let (_, payload) ← cutAt? cs (offset + 1)
    let symbols ← plain (payload.mapM symbolOf)
    let valid ← Checksum.verify? (String.ofList hrp) symbols
    if valid then
      let count ← sub symbols.length Checksum.length
      return (String.ofList hrp, symbols.take count)
    else throw .invalidChecksum

/-- The character of the alphabet at the place of a symbol, if it has one there. -/
def letterAt? (symbol : UInt8) : Option Char :=
  alphabet[symbol.toNat]?

/-- Writes a human readable part, in lowercase, and symbols followed by their checksum. -/
def encode? (hrp : String) (data : List UInt8) : Option (Except Error String) := ExceptT.run do
  if hrp.toList = [] then throw .emptyHrp
  plain (checkHrp hrp.toList)
  if mixesCase hrp.toList then throw .mixedCase
  match data.find? fun symbol => alphabet.length ≤ symbol.toNat with
  | some symbol => throw (.invalidSymbol symbol)
  | none =>
    let hrp := lower hrp.toList
    let check ← Checksum.create? (String.ofList hrp) data
    let payload ← ((data ++ check).mapM letterAt? : Option (List Char))
    return String.ofList (hrp ++ separator :: payload)

/-- Beyond ASCII all bytes of a character are high. -/
lemma high_of_mem_utf8EncodeChar {c : Char} (wide : ¬ c.toNat ≤ 127) :
    ∀ byte ∈ String.utf8EncodeChar c, 127 < byte.toNat := by
  have number : c.val.toNat = c.toNat := rfl
  rw [String.utf8EncodeChar, number, if_neg wide]
  split
  · simp; omega
  · split
    · simp; omega
    · simp; omega

/-- The byte of a separator is no part of another character. -/
lemma separatorByte_mem_iff {c : Char} :
    separatorByte ∈ String.utf8EncodeChar c ↔ c = separator := by
  by_cases ascii : c.toNat ≤ 127
  · have single := String.utf8EncodeChar_eq_singleton (Char.utf8Size_eq_one_iff.2 ascii)
    have small : c.val.toNat < 256 := Nat.lt_of_le_of_lt ascii (by decide)
    rw [single, List.mem_singleton, ← UInt8.toNat_inj, ← Char.toNat_inj, UInt32.toNat_toUInt8,
      Nat.mod_eq_of_lt small]
    exact eq_comm
  · refine iff_of_false ?_ ?_
    · intro mem
      have high := high_of_mem_utf8EncodeChar ascii _ mem
      exact absurd high (by decide)
    · rintro rfl
      exact ascii (by decide)

section Cutting

/-- A byte that is missing has no last place. -/
lemma lastIndex?_eq_none {b : UInt8} {bytes : List UInt8} (missing : b ∉ bytes) :
    lastIndex? b bytes = none := by
  induction bytes with
  | nil => rfl
  | cons d bytes ih =>
    obtain ⟨other, rest⟩ := not_or.1 (mt List.mem_cons.2 missing)
    rw [lastIndex?, ih rest]
    exact if_neg (Ne.symm other)

/-- The last place of a byte is the one behind which it is missing. -/
lemma lastIndex?_append {b : UInt8} {before behind : List UInt8} (last : b ∉ behind) :
    lastIndex? b (before ++ b :: behind) = some before.length := by
  induction before with
  | nil =>
    rw [List.nil_append, lastIndex?, lastIndex?_eq_none last]
    exact if_pos rfl
  | cons d before ih =>
    rw [List.cons_append, lastIndex?, ih]
    rfl

/-- The first character adds its bytes. -/
lemma byteLength_cons (c : Char) (cs : List Char) :
    byteLength (c :: cs) = c.utf8Size + byteLength cs := by
  rw [byteLength, List.flatMap_cons, List.length_append, String.length_utf8EncodeChar]
  rfl

/-- Behind whole characters a text can be cut. -/
lemma cutAt?_append (front behind : List Char) :
    cutAt? (front ++ behind) (byteLength front) = some (front, behind) := by
  induction front with
  | nil => cases behind <;> rfl
  | cons c front ih =>
    have size := byteLength_cons c front
    have pos : 0 < byteLength (c :: front) := by
      have := c.utf8Size_pos
      omega
    obtain ⟨offset, succ⟩ := Nat.exists_eq_add_one.2 pos
    have left : sub (offset + 1) c.utf8Size = some (byteLength front) := by
      rw [← succ, size, sub_eq_some (Nat.le_add_right _ _), Nat.add_sub_cancel_left]
    rw [succ, List.cons_append, cutAt?, left, Option.bind_eq_bind, Option.bind_some, ih]
    rfl

/-- A text is cut between characters only. -/
lemma cutAt?_eq_some_iff {cs front behind : List Char} {offset : Nat} :
    cutAt? cs offset = some (front, behind) ↔ cs = front ++ behind ∧ byteLength front = offset := by
  refine ⟨?_, ?_⟩
  · intro cut
    induction cs generalizing offset front with
    | nil =>
      cases offset with
      | zero =>
        cases cut
        exact ⟨rfl, rfl⟩
      | succ offset => cases cut
    | cons c cs ih =>
      cases offset with
      | zero =>
        cases cut
        exact ⟨rfl, rfl⟩
      | succ offset =>
        rw [cutAt?] at cut
        -- A cut inside a character fails, so this one lies before the cut as a whole.
        by_cases inside : c.utf8Size ≤ offset + 1
        · rw [sub_eq_some inside, Option.bind_eq_bind, Option.bind_some] at cut
          obtain ⟨⟨before, rest⟩, cut, same⟩ := Option.bind_eq_some_iff.1 cut
          cases same
          obtain ⟨rfl, size⟩ := ih cut
          refine ⟨rfl, ?_⟩
          rw [byteLength_cons, size, Nat.add_sub_cancel' inside]
        · rw [sub, if_neg inside] at cut
          cases cut
  · rintro ⟨rfl, rfl⟩
    exact cutAt?_append front behind

example : cutAt? ['é', ':', 'q'] 2 = some (['é'], [':', 'q']) ∧
    cutAt? ['é', ':', 'q'] 1 = none := by
  decide

end Cutting

/-- The separator's byte is in the bytes of a text exactly if the separator is in the text. -/
lemma separatorByte_mem_flatMap_iff {cs : List Char} :
    separatorByte ∈ cs.flatMap String.utf8EncodeChar ↔ separator ∈ cs := by
  rw [List.mem_flatMap]
  refine ⟨?_, ?_⟩
  · rintro ⟨c, mem, inside⟩
    exact separatorByte_mem_iff.1 inside ▸ mem
  · intro mem
    exact ⟨separator, mem, separatorByte_mem_iff.2 rfl⟩

section Reading

variable {text : String} {front behind : List Char}

/-- A split text in lowercase has the separator between its parts in lowercase. -/
lemma Split.lower_eq (split : Split text front behind) :
    lower text.toList = lower front ++ separator :: lower behind := by
  rw [split.whole, lower, List.map_append, List.map_cons]
  rfl

/-- The last separator of a split is found behind the bytes of the front. -/
lemma Split.lastIndex?_eq (split : Split text front behind) :
    lastIndex? separatorByte ((lower text.toList).flatMap String.utf8EncodeChar)
      = some (byteLength front) := by
  have last : separatorByte ∉ (lower behind).flatMap String.utf8EncodeChar := by
    rw [separatorByte_mem_flatMap_iff, mem_lower_separator_iff]
    exact split.last
  rw [split.lower_eq, List.flatMap_append, List.flatMap_cons, ← byteLength_lower front]
  exact lastIndex?_append last

/-- The text takes a byte for the separator. -/
lemma Split.byteLength_eq (split : Split text front behind) :
    byteLength (lower text.toList) = byteLength front + 1 + byteLength behind := by
  rw [split.lower_eq, byteLength, List.flatMap_append, List.flatMap_cons, List.length_append,
    List.length_append, ← byteLength_lower front, ← byteLength_lower behind, Nat.add_assoc]
  rfl

/-- A split text can be cut in front of its separator. -/
lemma Split.cut_eq (split : Split text front behind) :
    cutAt? (lower text.toList) (byteLength front)
      = some (lower front, separator :: lower behind) :=
  cutAt?_eq_some_iff.2 ⟨split.lower_eq, byteLength_lower front⟩

/-- A split text can be cut behind its separator. -/
lemma Split.cut_succ_eq (split : Split text front behind) :
    cutAt? (lower text.toList) (byteLength front + 1)
      = some (lower front ++ [separator], lower behind) := by
  refine cutAt?_eq_some_iff.2 ⟨split.lower_eq.trans (List.append_cons _ _ _), ?_⟩
  rw [byteLength, List.flatMap_append, List.length_append, ← byteLength_lower front]
  rfl

/-- Behind the front of a split stand the separator and the rest, so the difference is not negative.
-/
lemma Split.tail_eq (split : Split text front behind) :
    sub (byteLength (lower text.toList)) (byteLength front) = some (byteLength behind + 1) := by
  rw [split.byteLength_eq, Nat.add_assoc, sub_eq_some (Nat.le_add_right _ _),
    Nat.add_sub_cancel_left, Nat.add_comm]

/-- The number of bytes behind the separator is asked for only if there is something in front. -/
lemma Split.decode?_eq (split : Split text front behind)
    (short : byteLength front = 0 ∨ byteLength behind < 7) :
    decode? text = some (decode text) := by
  have mixed : ¬ mixesCase text.toList = true := Bool.not_eq_true _ ▸ split.oneCase
  rw [split.decode_eq_of_short short, decode?, if_neg mixed]
  simp only [split.lastIndex?_eq]
  by_cases zero : byteLength front < 1
  · rw [if_pos zero]
    rfl
  · have few : byteLength behind < Checksum.length + 1 :=
      short.resolve_left fun none => zero (Nat.lt_one_iff.2 none)
    rw [if_neg zero]
    refine Yields.step split.tail_eq (Yields.step (sub_eq_some (Nat.le_add_left 1 _)) ?_)
    rw [Nat.add_sub_cancel, if_pos few]
    rfl

/-- With enough on both sides there is a character at the separator and one behind it, and there are
the symbols of a checksum. -/
lemma Roomy.decode?_eq (roomy : Roomy text front behind) : decode? text = some (decode text) := by
  have mixed : ¬ mixesCase text.toList = true := Bool.not_eq_true _ ▸ roomy.oneCase
  have some_front : ¬ byteLength front < 1 := fun less => roomy.pos (Nat.lt_one_iff.1 less)
  have enough : ¬ byteLength behind < Checksum.length + 1 := Nat.not_lt.2 roomy.enough
  rw [roomy.decode_eq, decode?, if_neg mixed]
  simp only [roomy.lastIndex?_eq, if_neg some_front]
  refine Yields.step roomy.tail_eq (Yields.step (sub_eq_some (Nat.le_add_left 1 _)) ?_)
  rw [Nat.add_sub_cancel, if_neg enough]
  refine Yields.step roomy.cut_eq ((yields_plain _).bind fun _ _ => ?_)
  refine Yields.step roomy.cut_succ_eq ((yields_plain _).bind fun symbols read => ?_)
  refine Yields.step (Checksum.verify?_eq _ symbols) ?_
  -- Each symbol stands for one byte behind the separator, and there are seven of them at least.
  have count : Checksum.length ≤ symbols.length := by
    rw [← (mapM_symbolOf_eq_ok_iff.1 read).byteLength_eq, byteLength_lower]
    exact Nat.le_of_succ_le roomy.enough
  split
  · exact Yields.step (sub_eq_some count) (yields_pure _)
  · exact yields_throw _

end Reading

/-- Reading in checked operations is reading. -/
lemma decode?_eq (text : String) : decode? text = some (decode text) := by
  by_cases mixed : mixesCase text.toList = true
  · rw [decode_of_fault (.mixedCase mixed), decode?, if_pos mixed]
    rfl
  have oneCase : mixesCase text.toList = false := Bool.not_eq_true _ ▸ mixed
  by_cases present : separator ∈ text.toList
  · obtain ⟨front, behind, split⟩ := exists_split oneCase present
    by_cases short : byteLength front = 0 ∨ byteLength behind < 7
    · exact split.decode?_eq short
    · exact (split.roomy short).decode?_eq
  · have missing := mt separatorByte_mem_flatMap_iff.1 (mt mem_lower_separator_iff.1 present)
    rw [decode_of_fault (.noSeparator oneCase present), decode?, if_neg mixed]
    simp only [lastIndex?_eq_none missing]
    rfl

/-- A symbol below 32 has a place in the alphabet. -/
lemma letterAt?_eq {symbol : UInt8} (small : symbol.toNat < 32) :
    letterAt? symbol = some (letter symbol) := by
  have inside : symbol.toNat < alphabet.length := small
  rw [letterAt?, letter, List.getElem?_eq_getElem inside]
  rfl

/-- A symbol without a place in the alphabet is refused. -/
lemma charOf_of_le {symbol : UInt8} (large : alphabet.length ≤ symbol.toNat) :
    charOf symbol = .error (.invalidSymbol symbol) := by
  rw [charOf, List.getElem?_eq_none large]

/-- The first symbol that has no character is the first one that cannot be written. -/
lemma mapM_charOf_of_find? {data check : List UInt8} {symbol : UInt8}
    (found : (data.find? fun symbol => alphabet.length ≤ symbol.toNat) = some symbol) :
    (data ++ check).mapM charOf = .error (.invalidSymbol symbol) := by
  obtain ⟨large, good, rest, rfl, small⟩ := List.find?_eq_some_iff_append.1 found
  refine Outcome.mapM_eq_error_iff.2 ⟨good, symbol, rest ++ check, ?_, ?_, ?_⟩
  · rw [List.append_assoc, List.cons_append]
  · intro other mem
    have inside : other.toNat < alphabet.length := by simpa using small other mem
    exact ⟨letter other, charOf_eq_ok_iff.2 ⟨inside, rfl⟩⟩
  · exact charOf_of_le (of_decide_eq_true large)

/-- Writing in checked operations is writing: all symbols have been tested, or are those of a
checksum, where they are looked up in the alphabet. -/
lemma encode?_eq (hrp : String) (data : List UInt8) :
    encode? hrp data = some (encode hrp data) := by
  rw [encode?, encode]
  refine Yields.check fun _ => (yields_plain _).bind fun _ _ => Yields.check fun _ => ?_
  cases found : data.find? fun symbol => alphabet.length ≤ symbol.toNat with
  | some symbol =>
    dsimp only
    rw [mapM_charOf_of_find? found]
    exact yields_throw _
  | none =>
    have small : ∀ symbol ∈ data ++ Checksum.create (String.ofList (lower hrp.toList)) data,
        symbol.toNat < 32 := by
      refine List.forall_mem_append.2 ⟨fun symbol mem => ?_, Checksum.create_lt _ data⟩
      have inside : symbol.toNat < alphabet.length := by
        simpa using List.find?_eq_none.1 found symbol mem
      exact inside
    dsimp only
    rw [mapM_charOf_eq_ok_iff.2 ⟨small, rfl⟩]
    refine Yields.step (Checksum.create?_eq _ data) ?_
    refine Yields.step (mapM_eq_some fun symbol mem => letterAt?_eq (small symbol mem)) ?_
    exact yields_pure _

end AddressCodec.Bech32
