import AddressCodec.Checksum

/-!
# Checksummed text

A human readable part, a separator, and 5-bit symbols that end in a checksum, one character of a
fixed alphabet for each symbol. Text is written in lowercase and read in either case, but never in
both; its length is not limited. The last separator counts, so the human readable part may hold
separators of its own.
-/

namespace AddressCodec.Bech32

/-- Why a text cannot be read or written. The offset of a separator that is missing, stands first or
has too little behind it is in bytes. -/
inductive Error where
  | mixedCase
  | emptyHrp
  | invalidSeparator (offset : Option Nat)
  | invalidHrpByte (byte : UInt8)
  | invalidDataByte (byte : UInt8)
  | invalidChecksum
  | invalidSymbol (value : UInt8)
  deriving DecidableEq, Repr

/-- The form of an optional offset in a message. -/
def offsetText : Option Nat → String
  | none => "None"
  | some offset => s!"Some({offset})"

/-- The wording of an error; bad bytes and values are shown as numbers. -/
def Error.message : Error → String
  | .mixedCase => "mix case is not allowed"
  | .emptyHrp => "human readable part is empty"
  | .invalidSeparator offset => s!"invalid separator position: {offsetText offset}"
  | .invalidHrpByte byte => s!"invalid character value in human readable part: {byte}"
  | .invalidDataByte byte => s!"invalid character value in data part: {byte}"
  | .invalidChecksum => "invalid checksum"
  | .invalidSymbol value => s!"invalid value: {value}, max is 31"

/-- The characters of the symbols 0 to 31. -/
def alphabet : List Char :=
  "qpzry9x8gf2tvdw0s3jn54khce6mua7l".toList

/-- Stands between the human readable part and the symbols. -/
def separator : Char := ':'

/-- The character of a symbol; the alphabet has none for 32 and above. -/
def charOf (symbol : UInt8) : Except Error Char :=
  match alphabet[symbol.toNat]? with
  | some c => .ok c
  | none => .error (.invalidSymbol symbol)

/-- The symbol of a character; one outside the alphabet is reported by its first byte. -/
def symbolOf (c : Char) : Except Error UInt8 :=
  match alphabet.idxOf? c with
  | some i => .ok (UInt8.ofNat i)
  | none => .error (.invalidDataByte (Utf8.leadByte c))

/-- No character stands twice in the alphabet. -/
theorem idxOf?_of_getElem?_alphabet {n : Nat} {c : Char} (h : alphabet[n]? = some c) :
    alphabet.idxOf? c = some n := by
  have found : ∀ n < 32, (alphabet[n]?.bind alphabet.idxOf?) = some n := by decide
  obtain ⟨inside, -⟩ := List.getElem?_eq_some_iff.1 h
  simpa [h] using found n inside

/-- A character stands for a symbol exactly where the symbol is written as that character. -/
theorem symbolOf_eq_ok_iff {c : Char} {symbol : UInt8} :
    symbolOf c = .ok symbol ↔ charOf symbol = .ok c := by
  unfold symbolOf charOf
  constructor
  · split
    next i found =>
      rintro ⟨⟩
      obtain ⟨inside, here, -⟩ := List.idxOf?_eq_some_iff.1 found
      have back : (UInt8.ofNat i).toNat = i :=
        UInt8.toNat_ofNat_of_lt' (Nat.lt_of_lt_of_le inside (by decide))
      rw [back, List.getElem?_eq_some_iff.2 ⟨inside, here⟩]
    next => nofun
  · split
    next c' here =>
      rintro ⟨⟩
      simp [idxOf?_of_getElem?_alphabet here]
    next => nofun

/-- Whether both letter cases of ASCII occur. -/
def mixesCase (cs : List Char) : Bool :=
  cs.any Char.isLower && cs.any Char.isUpper

/-- Characters with the letters of ASCII in lowercase. -/
def lower (cs : List Char) : List Char :=
  cs.map Char.toLower

/-- A human readable part holds printable characters of ASCII, without the blank. -/
def isHrpChar (c : Char) : Bool :=
  33 ≤ c.toNat && c.toNat ≤ 126

/-- Refuses the first character that has no place in a human readable part. -/
def checkHrp (hrp : List Char) : Except Error Unit :=
  match hrp.find? fun c => !isHrpChar c with
  | some c => .error (.invalidHrpByte (Utf8.leadByte c))
  | none => .ok ()

/-- What stands before and after the last occurrence of a character. -/
def splitLast? (c : Char) : List Char → Option (List Char × List Char)
  | [] => none
  | d :: rest =>
    match splitLast? c rest with
    | some (before, after) => some (d :: before, after)
    | none => if d = c then some ([], rest) else none

/-- There is no split exactly where the character does not occur. -/
theorem splitLast?_eq_none_iff {c : Char} {cs : List Char} :
    splitLast? c cs = none ↔ c ∉ cs := by
  induction cs with
  | nil => simp [splitLast?]
  | cons d rest ih =>
    cases h : splitLast? c rest with
    | some parts => simp_all [splitLast?]
    | none =>
      by_cases e : d = c
      · simp [splitLast?, h, e]
      · simp [splitLast?, h, e, ih.1 h, Ne.symm e]

/-- The split is at an occurrence behind which there is no other. -/
theorem splitLast?_eq_some_iff {c : Char} {cs before after : List Char} :
    splitLast? c cs = some (before, after) ↔ cs = before ++ c :: after ∧ c ∉ after := by
  induction cs generalizing before after with
  | nil => simp [splitLast?]
  | cons d rest ih =>
    -- Whether the split is at the first character depends on whether the rest has one.
    cases h : splitLast? c rest with
    | some parts =>
      obtain ⟨split, last⟩ := ih.1 h
      simp only [splitLast?, h, Option.some.injEq, Prod.mk.injEq]
      constructor
      · rintro ⟨rfl, rfl⟩
        exact ⟨by rw [split, List.cons_append], last⟩
      · rintro ⟨eq, notMem⟩
        cases before with
        | nil =>
          obtain ⟨-, rfl⟩ := List.cons.inj eq
          exact absurd (split ▸ by simp : c ∈ rest) notMem
        | cons x before =>
          obtain ⟨rfl, tail⟩ := List.cons.inj eq
          have same := Option.some.inj (h.symm.trans (ih.2 ⟨tail, notMem⟩))
          exact ⟨by rw [same], by rw [same]⟩
    | none =>
      have notMem := splitLast?_eq_none_iff.1 h
      by_cases e : d = c
      · subst e
        simp only [splitLast?, h, if_true, Option.some.injEq, Prod.mk.injEq]
        constructor
        · rintro ⟨rfl, rfl⟩
          exact ⟨rfl, notMem⟩
        · rintro ⟨eq, -⟩
          cases before with
          | nil => exact ⟨rfl, (List.cons.inj eq).2⟩
          | cons x before => exact absurd ((List.cons.inj eq).2 ▸ by simp : d ∈ rest) notMem
      · simp only [splitLast?, h, e, if_false, reduceCtorEq, false_iff]
        rintro ⟨eq, -⟩
        cases before with
        | nil => exact e (List.cons.inj eq).1
        | cons x before => exact absurd ((List.cons.inj eq).2 ▸ by simp : c ∈ rest) notMem

/-- Reads text into its human readable part, in lowercase, and its symbols without the checksum. -/
def decode (text : String) : Except Error (String × List UInt8) := do
  if mixesCase text.toList then throw .mixedCase
  match splitLast? separator (lower text.toList) with
  | none => throw (.invalidSeparator none)
  | some (hrp, payload) =>
    if hrp = [] ∨ Utf8.byteLength payload ≤ Checksum.length then
      throw (.invalidSeparator (some (Utf8.byteLength hrp)))
    checkHrp hrp
    let symbols ← payload.mapM symbolOf
    if Checksum.verify (String.ofList hrp) symbols then
      return (String.ofList hrp, symbols.take (symbols.length - Checksum.length))
    else
      throw .invalidChecksum

/-- Writes a human readable part, in lowercase, and symbols followed by their checksum. -/
def encode (hrp : String) (data : List UInt8) : Except Error String := do
  if hrp.toList = [] then throw .emptyHrp
  checkHrp hrp.toList
  if mixesCase hrp.toList then throw .mixedCase
  let hrp := lower hrp.toList
  let payload ← (data ++ Checksum.create (String.ofList hrp) data).mapM charOf
  return String.ofList (hrp ++ separator :: payload)

end AddressCodec.Bech32
