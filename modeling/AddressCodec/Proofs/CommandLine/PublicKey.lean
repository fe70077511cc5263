import AddressCodec.CommandLine.Command
import AddressCodec.Proofs.Hex
import Mathlib.Data.List.Basic

/-!
# Public keys on a command line

A public key is given by its hexadecimal digits in either case, with `0x` before them or not, and
with blanks around (`SpellsKey`). Main statement: `publicKeyOf_of_spellsKey`, it is read from every
such text.
-/

namespace AddressCodec

namespace Text.Blank

/-- Trimming removes the blanks in front, and stops at the first character that is none. -/
lemma dropWhile_append {blanks rest : List Char} (blank : ∀ c ∈ blanks, holds c = true)
    (solid : ∀ c ∈ rest.head?, holds c = false) : (blanks ++ rest).dropWhile holds = rest := by
  rw [List.dropWhile_append_of_pos blank]
  cases rest with
  | nil => rfl
  | cons c rest =>
    refine List.dropWhile_cons_of_neg ?_
    rw [solid c rfl]
    exact Bool.false_ne_true

/-- Of characters that are no blanks, only the blanks around them are removed. -/
lemma trim_append {before solid after : List Char} (ne : solid ≠ [])
    (blankBefore : ∀ c ∈ before, holds c = true) (dark : ∀ c ∈ solid, holds c = false)
    (blankAfter : ∀ c ∈ after, holds c = true) : trim (before ++ (solid ++ after)) = solid := by
  have first : ∀ c ∈ (solid ++ after).head?, holds c = false := by
    rw [List.head?_append_of_ne_nil _ ne]
    exact fun c mem => dark c (List.mem_of_mem_head? mem)
  have last : ∀ c ∈ solid.reverse.head?, holds c = false :=
    fun c mem => dark c (List.mem_reverse.1 (List.mem_of_mem_head? mem))
  have behind : ∀ c ∈ after.reverse, holds c = true :=
    fun c mem => blankAfter c (List.mem_reverse.1 mem)
  rw [trim, dropWhile_append blankBefore first, List.reverse_append, dropWhile_append behind last,
    List.reverse_reverse]

end Text.Blank

namespace CommandLine

/-- The texts that give a public key. -/
inductive SpellsKey (key : Bytes32) : String → Prop
  | around (before mark digits after : List Char) :
    (∀ c ∈ before, Text.Blank.holds c = true) → mark = [] ∨ mark = ['0', 'x'] →
    Bech32.lower digits = Hex.chars key.bytes → (∀ c ∈ after, Text.Blank.holds c = true) →
    SpellsKey key (String.ofList (before ++ (mark ++ digits ++ after)))

variable {key : Bytes32} {mark digits : List Char}

/-- The digits of a key are not empty. -/
lemma ne_nil_of_lower (hex : Bech32.lower digits = Hex.chars key.bytes) : digits ≠ [] := by
  intro none
  have length := key.length_eq
  rw [none] at hex
  cases bytes : key.bytes with
  | nil => simp [bytes] at length
  | cons b bytes =>
    rw [bytes] at hex
    cases hex

/-- No digit is a blank or a dash. -/
lemma of_mem_marked (marked : mark = [] ∨ mark = ['0', 'x'])
    (hex : Bech32.lower digits = Hex.chars key.bytes) :
    ∀ c ∈ mark ++ digits, Text.Blank.holds c = false ∧ c ≠ '-' := by
  have two : ∀ c ∈ ['0', 'x'], Text.Blank.holds c = false ∧ c ≠ '-' := by
    rw [List.forall_mem_cons, List.forall_mem_singleton]
    decide
  intro c mem
  rcases List.mem_append.1 mem with mem | mem
  · rcases marked with rfl | rfl
    · cases mem
    · exact two c mem
  · have range := Hex.toNat_of_lower hex c mem
    have dash : '-'.toNat = 45 := rfl
    rw [ne_eq, ← Char.toNat_inj, dash]
    simp only [Text.Blank.holds, Bool.or_eq_false_iff, Bool.and_eq_false_iff,
      decide_eq_false_iff_not, beq_eq_false_iff_ne]
    omega

/-- Every spelling of a key is read as the key. -/
theorem publicKeyOf_of_spellsKey {text : String} (spells : SpellsKey key text) :
    publicKeyOf text = .ok key := by
  obtain ⟨before, mark, digits, after, blankBefore, marked, hex, blankAfter⟩ := spells
  have ne : mark ++ digits ≠ [] := List.append_ne_nil_of_right_ne_nil mark (ne_nil_of_lower hex)
  have solid c (mem : c ∈ mark ++ digits) := (of_mem_marked marked hex c mem).1
  rw [publicKeyOf, String.toList_ofList, Text.Blank.trim_append ne blankBefore solid blankAfter]
  refine Outcome.bind_eq_ok_iff.2 ⟨key.bytes, Outcome.mapError_eq_ok_iff.2 ?_, ?_⟩
  · rcases marked with rfl | rfl
    · rw [List.nil_append]
      split
      · -- A digit is no mark.
        rename_i rest
        have x := Hex.toNat_of_lower hex 'x' (List.mem_cons_of_mem _ List.mem_cons_self)
        exact absurd x (by decide)
      · exact Hex.decode_of_lower hex
    · exact Hex.decode_of_lower hex
  · rw [Bytes32.ofList?_bytes]
    rfl

/-- No spelling of a key contains a dash. -/
lemma dash_notMem_of_spellsKey {text : String} (spells : SpellsKey key text) :
    '-' ∉ text.toList := by
  obtain ⟨before, mark, digits, after, blankBefore, marked, hex, blankAfter⟩ := spells
  have solid : Text.Blank.holds '-' = false := by decide
  rw [String.toList_ofList]
  intro mem
  rcases List.mem_append.1 mem with mem | mem
  · exact absurd ((blankBefore _ mem).symm.trans solid) (by decide)
  · rcases List.mem_append.1 mem with mem | mem
    · exact (of_mem_marked marked hex _ mem).2 rfl
    · exact absurd ((blankAfter _ mem).symm.trans solid) (by decide)

/-- The digits that are written give the key. -/
lemma spellsKey_encode (key : Bytes32) : SpellsKey key (Hex.encode key.bytes) := by
  have whole : Hex.encode key.bytes
      = String.ofList ([] ++ ([] ++ Hex.chars key.bytes ++ [])) := by
    rw [List.append_nil]
    rfl
  rw [whole]
  exact .around _ _ _ _ nofun (.inl rfl) (Hex.lower_chars _) nofun

end CommandLine

end AddressCodec
