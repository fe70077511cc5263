import AddressCodec.Proofs.Hex
import AddressCodec.Proofs.Json.Sequences
import AddressCodec.Value.Json

/-!
# Values from their JSON text

A number is read from its decimal digits where no digit follows (`Json.Parser.answers_natural`).
What a value holds is one scalar (`Value.held`), from which and the type the value is found again
(`Value.ofScalar?_held`). Main statement: `Value.parser_answers`, a value is read from its text.
-/

namespace AddressCodec

namespace Json.Parser

variable {ε : Type} {cs : List Char}

/-- Numbers are written in decimal digits. -/
lemma isDigit_of_mem_toDigits {n : Nat} {c : Char} (mem : c ∈ Nat.toDigits 10 n) :
    c.isDigit = true :=
  Nat.isDigit_of_mem_toDigits (by decide) (by decide) mem

/-- A number has digits, and no zero before others. -/
lemma toDigits_eq_cons (n : Nat) :
    ∃ d ds, Nat.toDigits 10 n = d :: ds ∧ (d = '0' → ds = []) := by
  induction n using Nat.strongRecOn with
  | ind n ih =>
    rcases Nat.lt_or_ge n 10 with small | large
    · exact ⟨_, _, Nat.toDigits_of_lt_base small, fun _ => rfl⟩
    · obtain ⟨d, ds, digits, leading⟩ := ih (n / 10) (by omega)
      refine ⟨d, ds ++ [(n % 10).digitChar], ?_, ?_⟩
      · rw [Nat.toDigits_of_base_le (by decide) large, digits]
        rfl
      · intro zero
        have value : Nat.ofDigitChars 10 (Nat.toDigits 10 (n / 10)) 0 = n / 10 :=
          Nat.ofDigitChars_ten_toDigits
        rw [digits, leading zero, zero] at value
        have none : 0 = n / 10 := value
        omega

/-- Digits are read up to a character that is none. -/
lemma answers_digits (all : ∀ c ∈ cs, c.isDigit = true) :
    Answers Apart (digits : Parser ε (List Char)) cs (.ok cs) := by
  intro rest apart
  have stop : rest.takeWhile Char.isDigit = [] ∧ rest.dropWhile Char.isDigit = rest := by
    cases rest with
    | nil => exact ⟨rfl, rfl⟩
    | cons c rest => simp [apart c rfl]
  have run : (digits : Parser ε (List Char)).run (cs ++ rest)
      = .ok ((cs ++ rest).takeWhile Char.isDigit, (cs ++ rest).dropWhile Char.isDigit) := rfl
  rw [run, List.takeWhile_append_of_pos all, List.dropWhile_append_of_pos all, stop.1, stop.2,
    List.append_nil]
  rfl

/-- The digits of a number have no zero in front, and so are read as a whole number. -/
lemma answers_wholeDigits (n : Nat) : Answers Apart (wholeDigits : Parser ε (List Char))
    (Nat.toDigits 10 n) (.ok (Nat.toDigits 10 n)) := by
  rw [wholeDigits]
  refine (answers_digits fun c mem => isDigit_of_mem_toDigits mem).bind_nil ?_
  obtain ⟨d, ds, digits, leading⟩ := toDigits_eq_cons n
  rw [digits]
  split
  case h_1 none => cases none
  case h_2 same =>
    cases same
    cases leading rfl
  case h_3 => exact answers_pure _

/-- A number is read from its digits. -/
lemma answers_natural (n : Nat) :
    Answers Apart (natural : Parser ε Nat) (Nat.toDigits 10 n) (.ok n) := by
  have answers : Answers Apart (natural : Parser ε Nat) _ _ :=
    (answers_wholeDigits n).map fun ds => Nat.ofDigitChars 10 ds 0
  rwa [Except.map, Nat.ofDigitChars_ten_toDigits] at answers

end Json.Parser

namespace Value

variable {ε : Type} {Next : List Char → Prop} {cs : List Char}

/-- Every type is found by its name. -/
lemma Kind.ofName?_name (k : Kind) : Kind.ofName? k.name = some k := by
  cases k with
  | uint w => cases w <;> decide
  | _ => decide

/-- The digits of a number, as a string, give the number. -/
lemma decimal?_toDigits (n : Nat) :
    decimal? (String.ofList (Nat.toDigits 10 n)) = some n := by
  have value : Nat.ofDigitChars 10 (Nat.toDigits 10 n) 0 = n := Nat.ofDigitChars_ten_toDigits
  have all : ∀ c ∈ Nat.toDigits 10 n, c.isDigit = true :=
    fun _ => Json.Parser.isDigit_of_mem_toDigits
  obtain ⟨d, ds, digits, -⟩ := Json.Parser.toDigits_eq_cons n
  rw [digits] at all value ⊢
  simp only [decimal?, String.toList_ofList]
  split
  case h_1 plus =>
    cases plus
    cases all '+' List.mem_cons_self
  case h_2 =>
    rw [if_pos ⟨List.cons_ne_nil d ds, List.all_eq_true.2 all⟩, value]

/-- The number of an integer fits in its width, and gives the integer back. -/
lemma ofNat?_toNat (w : Width) (n : BitVec w.bits) : ofNat? w n.toNat = some (uint w n) := by
  have same : BitVec.ofNat w.bits n.toNat = n := by
    rw [BitVec.ofNat_toNat, BitVec.setWidth_eq]
  simp only [ofNat?, same, if_pos]

/-- What a value holds. -/
def held : Value → Scalar
  | bool b => .bool b
  | string s => .string s
  | uint .w128 n => .string (String.ofList (Nat.toDigits 10 n.toNat))
  | uint _ n => .number n.toNat
  | hash h => .string (Hex.encode h.bytes)

/-- A scalar in JSON. -/
def Scalar.toJson : Scalar → Json
  | .bool b => .bool b
  | .number n => .number n
  | .string s => .string s

/-- A value is written as the scalar that it holds. -/
lemma contentJson_eq (v : Value) : v.contentJson = v.held.toJson := by
  cases v with
  | uint w n => cases w <;> rfl
  | _ => rfl

/-- A value is given back by its type and the scalar that it holds. -/
lemma ofScalar?_held (v : Value) : ofScalar? v.kind v.held = some v := by
  cases v with
  | bool b => rfl
  | string s => rfl
  | uint w n =>
    cases w with
    | w128 =>
      rw [held, kind, ofScalar?, decimal?_toDigits]
      exact ofNat?_toNat .w128 n
    | _ => exact ofNat?_toNat _ n
  | hash h =>
    rw [held, kind, ofScalar?, Hex.decode_encode]
    exact congrArg (Option.map hash) (Bytes32.ofList?_bytes h)

/-- A value nests nothing in its own object. -/
lemma nesting_toJson (v : Value) : v.toJson.nesting = 1 := by
  have content : v.contentJson.nesting = 0 := by
    rw [contentJson_eq]
    cases v.held <;> rfl
  simp [toJson, Json.nesting, Json.memberNesting, content]

open Json (memberText enclosed memberChars_eq)
open Json.Parser

/-- The first character of a scalar shows which of the three it is. -/
lemma answers_scalar (held : Scalar) :
    Answers Apart (scalar : Json.Parser ε Scalar) held.toJson.chars (.ok held) := by
  cases held with
  | bool b =>
    cases b with
    | true =>
      have text : (Scalar.bool true).toJson.chars = ['t', 'r', 'u', 'e'] := by decide
      rw [text, scalar, answers_blanks_bind (by decide), answers_peek_bind]
      exact (answers_literally ['t', 'r', 'u', 'e']).map fun _ => Scalar.bool true
    | false =>
      have text : (Scalar.bool false).toJson.chars = ['f', 'a', 'l', 's', 'e'] := by decide
      rw [text, scalar, answers_blanks_bind (by decide), answers_peek_bind]
      exact (answers_literally ['f', 'a', 'l', 's', 'e']).map fun _ => Scalar.bool false
  | number n =>
    have answers : Answers Apart (do return Scalar.number (← natural) : Json.Parser ε Scalar) _ _ :=
      (answers_natural n).map Scalar.number
    obtain ⟨d, ds, digits, -⟩ := toDigits_eq_cons n
    have text : (Scalar.number n).toJson.chars = d :: ds := digits
    have digit : d.isDigit = true := isDigit_of_mem_toDigits (digits ▸ List.mem_cons_self)
    -- The first digit is no blank, no quote and no letter.
    have solid : isBlank d = false := by
      rw [Bool.eq_false_iff]
      intro blank
      simp only [isBlank, Bool.or_eq_true, beq_iff_eq] at blank
      obtain ((rfl | rfl) | rfl) | rfl := blank <;> cases digit
    rw [digits] at answers
    rw [text, scalar, answers_blanks_bind solid, answers_peek_bind]
    split
    case h_1 same => cases same; cases digit
    case h_2 same => cases same; cases digit
    case h_3 same => cases same; cases digit
    case h_4 => exact answers
  | string s =>
    have answers : Answers Apart
        (do return Scalar.string (← Json.Parser.string) : Json.Parser ε Scalar) _ _ :=
      (answers_string s).map Scalar.string
    have text : (Scalar.string s).toJson.chars = '"' :: (s.toList.flatMap Json.escape ++ ['"']) :=
      rfl
    rw [text, scalar, answers_blanks_bind (by decide), answers_peek_bind]
    exact answers

/-- A name is read from its quoted form, whatever the depth. -/
lemma answers_name (depth : Nat) (s : String) :
    Answers Next (name depth : Json.Parser ε String) (Json.quoted s) (.ok s) := by
  rw [name, Json.quoted, List.cons_append, answers_token_bind (by decide)]
  exact answers_quoted s

/-- A type is read where its name is. -/
lemma answers_kindNamed {name : Json.Parser ε String} (k : Kind)
    (answers : Answers Next name cs (.ok k.name)) : Answers Next (kindNamed name) cs (.ok k) := by
  rw [kindNamed]
  refine answers.bind_nil ?_
  rw [Kind.ofName?_name]
  exact answers_pure k

/-- A value is read from its text, in any depth. -/
theorem parser_answers (depth : Nat) (v : Value) :
    Answers Next (parser (depth + 1) : Json.Parser ε Value) v.toJson.chars (.ok v) := by
  have text : v.toJson.chars = '{' :: enclosed '}'
      [memberText "type" (Json.quoted v.kind.name), memberText "value" v.held.toJson.chars] := by
    rw [toJson, Json.chars, memberChars_eq, contentJson_eq]
    rfl
  have answers : Answers Next (content depth : Json.Parser ε (Kind × Scalar)) v.toJson.chars
      (.ok (v.kind, v.held)) := by
    rw [text, content, answers_token_bind (by decide)]
    exact answers_namedPair (by decide) (answers_kindNamed v.kind (answers_name depth _))
      (answers_scalar v.held)
  rw [parser]
  refine answers.bind_nil ?_
  simp only [ofScalar?_held]
  exact answers_pure v

end Value

end AddressCodec
