import AddressCodec.Proofs.Json.Injective
import AddressCodec.Proofs.Text.Quoted
import AddressCodec.Element.Basic

/-!
# What a message names

A value is known from how a message names it (`Value.display_inj`). The text shows by its characters
which of four forms it has (`Value.form_of_displayChars`): a hash is of hexadecimal digits alone,
which no other form is, and of these a string begins with a quote and a number with a digit. Main
statement: `Value.display_identifies`.
-/

namespace AddressCodec.Value

/-! ## Forms -/

/-- The forms that name values. -/
inductive Form where
  | word
  | quoted
  | number
  | digits

/-- The form that names a value. -/
def form : Value → Form
  | bool _ => .word
  | string _ => .quoted
  | uint _ _ => .number
  | hash _ => .digits

/-- Whether a character is a hexadecimal digit of either case. -/
def isHexDigit (c : Char) : Bool :=
  decide (48 ≤ c.toNat ∧ c.toNat ≤ 57 ∨ 65 ≤ c.toNat ∧ c.toNat ≤ 70 ∨
    97 ≤ c.toNat ∧ c.toNat ≤ 102)

/-- The form that a text shows. -/
def Form.of (cs : List Char) : Form :=
  if cs.all isHexDigit then digits
  else if cs.head? = some '"' then quoted
  else if cs.head?.any Char.isDigit then number
  else word

/-- The name of an integer type begins with a letter that is no hexadecimal digit. -/
lemma name_uint_eq_cons (w : Width) : ∃ cs, (Kind.uint w).name.toList = 'u' :: cs := by
  cases w <;> exact ⟨_, rfl⟩

/-- The form of a value can be seen from the text that names it. -/
lemma form_of_displayChars (v : Value) : Form.of v.displayChars = v.form := by
  cases v with
  | bool b => cases b <;> rfl
  | string s => rfl
  | uint w n =>
    obtain ⟨cs, name⟩ := name_uint_eq_cons w
    obtain ⟨d, ds, digits, -⟩ := Json.Parser.toDigits_eq_cons n.toNat
    have digit : d.isDigit = true :=
      Json.Parser.isDigit_of_mem_toDigits (digits ▸ List.mem_cons_self)
    have other : d ≠ '"' := by
      rintro rfl
      cases digit
    -- The letter that begins the name of the type keeps a number apart from a hash.
    have mixed : (displayChars (uint w n)).all isHexDigit = false := by
      rw [displayChars, name, List.all_append, List.all_cons]
      exact Bool.and_false _
    rw [Form.of, mixed]
    rw [displayChars, digits]
    simp [digit, other, form]
  | hash h =>
    have all : (displayChars (hash h)).all isHexDigit = true := by
      refine List.all_eq_true.2 fun c mem => decide_eq_true ?_
      exact Hex.toNat_of_lower (Hex.lower_chars h.bytes) c mem
    rw [Form.of, if_pos all]
    rfl

/-! ## Values -/

/-- Truth values with one name are equal. -/
lemma bool_inj {b b' : Bool} (same : displayChars (bool b) = displayChars (bool b')) : b = b' := by
  cases b <;> cases b' <;> first | rfl | exact absurd same (by decide)

/-- Integers with one name have the same width and the same number. -/
lemma uint_inj {w w' : Width} {n : BitVec w.bits} {n' : BitVec w'.bits}
    (same : displayChars (uint w n) = displayChars (uint w' n')) : uint w n = uint w' n' := by
  obtain ⟨cs, name⟩ := name_uint_eq_cons w
  obtain ⟨cs', name'⟩ := name_uint_eq_cons w'
  -- The digits end where the name of the type begins.
  obtain ⟨numbers, names⟩ := Json.toDigits_append_inj
    (name ▸ Json.Parser.apart_cons cs (by decide))
    (name' ▸ Json.Parser.apart_cons cs' (by decide)) same
  have kinds : Kind.uint w = .uint w' := Option.some.inj <| by
    rw [← Kind.ofName?_name, String.toList_inj.1 names, Kind.ofName?_name]
  cases kinds
  rw [BitVec.toNat_inj.1 numbers]

/-- Values with one name are equal, their types included. -/
theorem display_inj {v v' : Value} (same : v.display = v'.display) : v = v' := by
  have chars : v.displayChars = v'.displayChars := String.ofList_inj.1 same
  -- Values of different forms cannot be named alike, so each case meets its own only.
  have forms : v.form = v'.form := by
    rw [← form_of_displayChars, chars, form_of_displayChars]
  cases v with
  | bool b =>
    cases v' with
    | bool b' => rw [bool_inj chars]
    | _ => cases forms
  | string s =>
    cases v' with
    | string s' =>
      have quoted : Text.Quoted.string s ++ [] = Text.Quoted.string s' ++ [] :=
        congrArg (· ++ []) chars
      rw [(Text.Quoted.string_append_inj quoted).1]
    | _ => cases forms
  | uint w n =>
    cases v' with
    | uint w' n' => exact uint_inj chars
    | _ => cases forms
  | hash h =>
    cases v' with
    | hash h' => rw [Bytes32.ext (Hex.encode_injective (String.ofList_inj.2 chars))]
    | _ => cases forms

/-- Values are equal if and only if they are named alike, in whatever type and with whatever
characters, and so if and only if errors that report them as repeated keys say the same. -/
theorem display_identifies (v w : Value) :
    (v.display = w.display ↔ v = w) ∧
    ((WireError.duplicateKey v).message = (WireError.duplicateKey w).message ↔ v = w) := by
  have named : v.display = w.display ↔ v = w := ⟨display_inj, congrArg display⟩
  exact ⟨named, (String.append_right_inj _).trans named⟩

end AddressCodec.Value
