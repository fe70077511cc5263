import AddressCodec.Proofs.Hex
import AddressCodec.Text

/-!
# Quoted text is read back

Which character stands first between the quotes can be read off: a short form ends behind its
letter, a code point at its brace, and any other character stands for itself (`first?_escape`). No
form begins with the quote, so this is where the text ends. Main statement: `string_append_inj`, a
string is known from its quoted form, whatever text follows.
-/

namespace AddressCodec.Text.Quoted

variable {c : Char} {rest rest' : List Char}

/-! ## Code points -/

/-- The value of a hexadecimal digit. -/
def digitValue (c : Char) : Nat :=
  if c.toNat ≤ 57 then c.toNat - 48 else c.toNat - 87

/-- The number that hexadecimal digits spell. -/
def hexNumber (digits : List Char) : Nat :=
  digits.foldl (fun n c => 16 * n + digitValue c) 0

/-- A hexadecimal digit has the value it was written for. -/
lemma digitValue_digitChar : ∀ d < 16, digitValue (Nat.digitChar d) = d := by
  decide

/-- A digit behind others adds its value to sixteen times theirs. -/
lemma hexNumber_append_digitChar (digits : List Char) {d : Nat} (small : d < 16) :
    hexNumber (digits ++ [Nat.digitChar d]) = 16 * hexNumber digits + d := by
  rw [hexNumber, List.foldl_append, List.foldl_cons, List.foldl_nil, digitValue_digitChar d small]
  rfl

/-- The digits of a number spell it. -/
lemma hexNumber_toDigits (n : Nat) : hexNumber (Nat.toDigits 16 n) = n := by
  induction n using Nat.base_induction 16 (by decide) with
  | single d small =>
    rw [Nat.toDigits_of_lt_base small, ← List.nil_append [_], hexNumber_append_digitChar [] small]
    exact Nat.zero_add d
  | digit n d small pos ih =>
    rw [← Nat.toDigits_append_toDigits (by decide) pos small, Nat.toDigits_of_lt_base small,
      hexNumber_append_digitChar _ small, ih]

/-- No digit is the brace that closes a code point. -/
lemma ne_brace_of_mem_toDigits {n : Nat} (mem : c ∈ Nat.toDigits 16 n) : c ≠ '}' := by
  have digit : ∀ d < 16, Nat.digitChar d ≠ '}' := by decide
  induction n using Nat.base_induction 16 (by decide) with
  | single d small =>
    rw [Nat.toDigits_of_lt_base small, List.mem_singleton] at mem
    exact mem ▸ digit d small
  | digit n d small pos ih =>
    rw [← Nat.toDigits_append_toDigits (by decide) pos small, Nat.toDigits_of_lt_base small,
      List.mem_append, List.mem_singleton] at mem
    obtain inner | rfl := mem
    · exact ih inner
    · exact digit d small

/-! ## Characters -/

/-- The character that a letter names behind a backslash. -/
def named : Char → Char
  | '0' => '\x00'
  | 't' => '\t'
  | 'r' => '\r'
  | 'n' => '\n'
  | c => c

/-- The first character between quotes, and what is left behind its form. -/
def first? : List Char → Option (Char × List Char)
  | [] => none
  | '\\' :: 'u' :: '{' :: cs =>
    some (Char.ofNat (hexNumber (cs.takeWhile (· ≠ '}'))), (cs.dropWhile (· ≠ '}')).tail)
  | '\\' :: letter :: cs => some (named letter, cs)
  | c :: cs => some (c, cs)

/-- A character that a letter names is read from its form. -/
lemma first?_short {letter : Char} (short : short? c = some letter) :
    first? ('\\' :: letter :: rest) = some (c, rest) := by
  rw [short?.eq_def] at short
  split at short
  case h_6 => cases short
  all_goals
    cases short
    rfl

/-- A character is read from its code point. -/
lemma first?_codePoint (c : Char) (rest : List Char) :
    first? (codePoint c ++ rest) = some (c, rest) := by
  have digits : ∀ d ∈ Nat.toDigits 16 c.toNat, decide (d ≠ '}') = true :=
    fun d mem => decide_eq_true (ne_brace_of_mem_toDigits mem)
  have closed : ('}' :: rest).takeWhile (· ≠ '}') = [] ∧
      ('}' :: rest).dropWhile (· ≠ '}') = '}' :: rest := ⟨rfl, rfl⟩
  rw [codePoint, List.append_assoc, List.append_assoc]
  simp only [List.cons_append, List.nil_append, first?]
  rw [List.takeWhile_append_of_pos digits, List.dropWhile_append_of_pos digits, closed.1, closed.2,
    List.append_nil, hexNumber_toDigits, Char.ofNat_toNat]
  rfl

/-- A character other than the backslash is read as it stands. -/
lemma first?_plain (other : c ≠ '\\') : first? (c :: rest) = some (c, rest) := by
  rw [first?.eq_def]
  split
  case h_1 none => cases none
  case h_2 same => exact absurd (List.cons.inj same).1 other
  case h_3 same => exact absurd (List.cons.inj same).1 other
  case h_4 same =>
    cases same
    rfl

/-- A character is read from its form in double quotes, and leaves what is behind it. -/
lemma first?_escape (c : Char) (rest : List Char) :
    first? (escape '"' c ++ rest) = some (c, rest) := by
  rw [escape.eq_def]
  split
  case h_1 letter short => exact first?_short short
  case h_2 none =>
    split_ifs with quote unprintable
    · cases quote
      rfl
    · exact first?_codePoint c rest
    · refine first?_plain ?_
      rintro rfl
      cases none

/-- No form begins with the quote. -/
lemma escape_append_ne (c : Char) (rest rest' : List Char) :
    escape '"' c ++ rest ≠ '"' :: rest' := by
  rw [escape.eq_def]
  split
  case h_1 => nofun
  case h_2 =>
    split_ifs with quote unprintable
    · nofun
    · nofun
    · intro same
      exact quote (List.cons.inj same).1

/-! ## Strings -/

/-- A text that begins with characters and the quote that closes them does so with one list of
characters only. -/
lemma enclosed_append_inj {cs ds : List Char}
    (same : cs.flatMap (escape '"') ++ '"' :: rest = ds.flatMap (escape '"') ++ '"' :: rest') :
    cs = ds ∧ rest = rest' := by
  induction cs generalizing ds with
  | nil =>
    cases ds with
    | nil => exact ⟨rfl, (List.cons.inj same).2⟩
    | cons d ds =>
      rw [List.flatMap_cons, List.append_assoc] at same
      exact absurd same.symm (escape_append_ne d _ _)
  | cons c cs ih =>
    cases ds with
    | nil =>
      rw [List.flatMap_cons, List.append_assoc] at same
      exact absurd same (escape_append_ne c _ _)
    | cons d ds =>
      rw [List.flatMap_cons, List.flatMap_cons, List.append_assoc, List.append_assoc] at same
      have read := congrArg first? same
      rw [first?_escape, first?_escape] at read
      obtain ⟨rfl, others⟩ := Prod.mk.inj (Option.some.inj read)
      obtain ⟨rfl, ends⟩ := ih others
      exact ⟨rfl, ends⟩

/-- A string is known from its quoted form, whatever text follows. -/
theorem string_append_inj {s t : String} (same : string s ++ rest = string t ++ rest') :
    s = t ∧ rest = rest' := by
  simp only [string, enclose, List.cons_append, List.append_assoc, List.nil_append,
    List.cons.injEq, true_and] at same
  obtain ⟨characters, ends⟩ := enclosed_append_inj same
  exact ⟨String.toList_inj.1 characters, ends⟩

end AddressCodec.Text.Quoted
