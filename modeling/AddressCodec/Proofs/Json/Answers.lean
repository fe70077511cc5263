import AddressCodec.Json.Basic
import AddressCodec.Json.Parser
import AddressCodec.Proofs.Hex

/-!
# What parsers answer

A parser answers on some characters, whatever follows them, if its run there is known and a result
leaves just what follows (`Answers`). Numbers end only where no digit follows, so what follows is
taken from a class of texts. Answers are put together along the parser (`Answers.bind`); a step that
looks at one character is carried out on the first one of the text (`answers_char_bind` and those
behind it). Main statement: `answers_string`, a string is read from its quoted form.
-/

namespace AddressCodec.Json.Parser

variable {ε α β : Type}

/-- On some characters in front of any text of a class, a parser fails or yields a result and leaves
the text that follows. -/
def Answers (Next : List Char → Prop) (p : Parser ε α) (cs : List Char)
    (answer : Except (Failure ε) α) : Prop :=
  ∀ rest, Next rest → p.run (cs ++ rest) = answer.map fun a => (a, rest)

/-- Any text may follow. -/
def Always : List Char → Prop := fun _ => True

/-- What follows does not begin with a digit. -/
def Apart (rest : List Char) : Prop :=
  ∀ c ∈ rest.head?, c.isDigit = false

/-- A text whose first character is no digit ends a number. -/
lemma apart_cons {c : Char} (cs : List Char) (other : c.isDigit = false) : Apart (c :: cs) := by
  intro d mem
  cases mem
  exact other

variable {Next Between : List Char → Prop} {cs ds : List Char} {c : Char}

/-- What a parser answers whatever follows, it answers in front of any class of texts. -/
lemma Answers.of_always {p : Parser ε α} {answer : Except (Failure ε) α}
    (answers : Answers Always p cs answer) : Answers Next p cs answer :=
  fun rest _ => answers rest trivial

section
variable {p : Parser ε α} {f : α → Parser ε β} {a : α} {answer : Except (Failure ε) β}

/-- A second parser goes on behind what a first one has read, if the text there may follow the
first. -/
lemma Answers.bind_of (first : Answers Between p cs (.ok a))
    (between : ∀ rest, Next rest → Between (ds ++ rest)) (second : Answers Next (f a) ds answer) :
    Answers Next (p >>= f) (cs ++ ds) answer := by
  intro rest next
  rw [List.append_assoc, StateT.run_bind, first _ (between rest next)]
  exact second rest next

/-- A second parser goes on behind a first one that any text may follow. -/
lemma Answers.bind (first : Answers Always p cs (.ok a)) (second : Answers Next (f a) ds answer) :
    Answers Next (p >>= f) (cs ++ ds) answer :=
  first.bind_of (fun _ _ => trivial) second

/-- The second step takes nothing of the text. -/
lemma Answers.bind_nil (first : Answers Next p cs (.ok a)) (second : Answers Next (f a) [] answer) :
    Answers Next (p >>= f) cs answer := by
  intro rest next
  rw [StateT.run_bind, first rest next]
  exact second rest next

end

section
variable {p : Parser ε α} {failure : Failure ε}

/-- What fails keeps the next step from running. -/
lemma Answers.bind_error {f : α → Parser ε β} (answers : Answers Next p cs (.error failure)) :
    Answers Next (p >>= f) cs (.error failure) := by
  intro rest next
  rw [StateT.run_bind, answers rest next]
  rfl

/-- What fails does so whatever is written behind it. -/
lemma Answers.error_append (answers : Answers Between p cs (.error failure))
    (between : ∀ rest, Next rest → Between (ds ++ rest)) :
    Answers Next p (cs ++ ds) (.error failure) := by
  intro rest next
  rw [List.append_assoc, answers _ (between rest next)]
  rfl

/-- A failure ends the parser, and the text behind it is not looked at. -/
lemma Answers.bind_error_append {f : α → Parser ε β}
    (answers : Answers Always p cs (.error failure)) :
    Answers Next (p >>= f) (cs ++ ds) (.error failure) :=
  answers.bind_error.error_append fun _ _ => trivial

end

/-- A result is answered without reading. -/
lemma answers_pure (a : α) : Answers Next (pure a : Parser ε α) [] (.ok a) :=
  fun _ _ => rfl

/-- A function of what was read is answered on the same text. -/
lemma Answers.map {p : Parser ε α} {answer : Except (Failure ε) α} (f : α → β)
    (answers : Answers Next p cs answer) : Answers Next (do return f (← p)) cs (answer.map f) := by
  intro rest next
  rw [StateT.run_bind, answers rest next]
  cases answer with
  | error cause => rfl
  | ok a => rfl

/-- A parser that answers on a whole text, where nothing follows, gives its answer for the text. -/
lemma whole_of_answers {p : Parser ε α} {text : String} {answer : Except (Failure ε) α}
    (answers : Answers (· = []) p text.toList answer) : p.whole text = answer := by
  have ended : Answers (· = []) (do let a ← p; ending; return a) text.toList answer := by
    cases answer with
    | error failure => exact answers.bind_error
    | ok a =>
      refine answers.bind_nil ?_
      intro rest nothing
      cases nothing
      rfl
  have run := ended [] rfl
  rw [List.append_nil] at run
  refine (congrArg (Except.map Prod.fst) run).trans ?_
  cases answer <;> rfl

/-! ## Single characters -/

section
variable {answer : Except (Failure ε) β}

/-- A parser that starts by looking at its text answers as the parser so chosen does. -/
lemma answers_get_bind {f : List Char → Parser ε β}
    (answers : ∀ rest, Answers Next (f (cs ++ rest)) cs answer) :
    Answers Next (get >>= f) cs answer :=
  fun rest next => answers rest rest next

/-- The next character of a known text is its first one. -/
lemma answers_char_bind {f : Char → Parser ε β} :
    Answers Next (char >>= f) (c :: cs) answer ↔ Answers Next (f c) cs answer :=
  Iff.rfl

/-- A look at a known text shows its first character and leaves it there. -/
lemma answers_peek_bind {f : Option Char → Parser ε β} :
    Answers Next (peek >>= f) (c :: cs) answer ↔ Answers Next (f (some c)) (c :: cs) answer :=
  Iff.rfl

/-- The first character of a known text is passed over exactly if it is of the class. -/
lemma answers_skipIf_bind {q : Char → Bool} {f : Bool → Parser ε β} :
    Answers Next (skipIf q >>= f) (c :: cs) answer ↔
      if q c then Answers Next (f true) cs answer else Answers Next (f false) (c :: cs) answer := by
  have run (rest : List Char) : (skipIf q : Parser ε Bool).run (c :: cs ++ rest)
      = .ok (if q c then (true, cs ++ rest) else (false, c :: cs ++ rest)) := by
    cases h : q c <;> simp [skipIf, h] <;> rfl
  cases h : q c <;> simp only [Answers, StateT.run_bind, run, h] <;> exact Iff.rfl

/-- In front of a character that is no blank, there are no blanks to pass over. -/
lemma answers_blanks_bind (solid : isBlank c = false) {f : Unit → Parser ε β} :
    Answers Next (blanks >>= f) (c :: cs) answer ↔ Answers Next (f ()) (c :: cs) answer := by
  have run (rest : List Char) :
      (blanks : Parser ε Unit).run (c :: cs ++ rest) = .ok ((), c :: cs ++ rest) := by
    simp [blanks, solid]
    rfl
  refine forall_congr' fun rest => ?_
  rw [StateT.run_bind, run]
  rfl

/-- The next character that is no blank is the first one, where this is none. -/
lemma answers_token_bind (solid : isBlank c = false) {f : Char → Parser ε β} :
    Answers Next (token >>= f) (c :: cs) answer ↔ Answers Next (f c) cs answer := by
  rw [token, bind_assoc, answers_blanks_bind solid, answers_char_bind]

/-- A character that is required is passed over where it stands first. -/
lemma answers_require_bind (solid : isBlank c = false) {f : Unit → Parser ε β} :
    Answers Next (require c >>= f) (c :: cs) answer ↔ Answers Next (f ()) cs answer := by
  rw [require, bind_assoc, answers_token_bind solid]
  simp only [ne_eq, not_true_eq_false, if_false, pure_bind]

end

/-- Required characters are passed over where they stand. -/
lemma answers_literally (cs : List Char) :
    Answers Next (literally cs : Parser ε Unit) cs (.ok ()) := by
  induction cs with
  | nil => exact answers_pure ()
  | cons c cs ih =>
    rw [literally, answers_char_bind]
    simpa only [ne_eq, not_true_eq_false, if_false] using ih

/-! ## Strings -/

/-- Four digits that begin with two zeros, as they stand for characters that do not print. -/
lemma answers_codeUnit {a b : Nat} (ha : a < 16) (hb : b < 16) :
    Answers Next (codeUnit : Parser ε Nat) ['0', '0', Nat.digitChar a, Nat.digitChar b]
      (.ok (16 * a + b)) := by
  have zero : Hex.digit? (Utf8.leadByte '0') = some 0 := (Hex.digit?_digitChar 0 (by decide)).2
  have nought : (0 : UInt8).toNat = 0 := rfl
  have high : (UInt8.ofNat a).toNat = a := UInt8.toNat_ofNat_of_lt (Nat.lt_trans ha (by decide))
  have low : (UInt8.ofNat b).toNat = b := UInt8.toNat_ofNat_of_lt (Nat.lt_trans hb (by decide))
  have positions : List.range 4 = [0, 1, 2, 3] := rfl
  rw [codeUnit, positions]
  simp only [List.foldlM_cons, List.foldlM_nil, answers_char_bind, bind_assoc, pure_bind, zero,
    (Hex.digit?_digitChar a ha).2, (Hex.digit?_digitChar b hb).2, nought, high, low, Nat.mul_zero,
    Nat.zero_add]
  exact answers_pure _

/-- The four digits of a control character are read as this character. -/
lemma answers_codePoint (control : c.toNat < 32) :
    Answers Next (codePoint : Parser ε Char)
      ['0', '0', Nat.digitChar (c.toNat / 16), Nat.digitChar (c.toNat % 16)] (.ok c) := by
  rw [codePoint]
  refine (answers_codeUnit (by omega) (by omega)).bind_nil ?_
  rw [Nat.div_add_mod, if_neg (by omega), if_neg (by omega), Char.ofNat_toNat]
  exact answers_pure c

/-- What reads one character of a string, its first one in the text being known. -/
def unescaped (d : Char) : Parser ε Char :=
  if d = '\\' then escaped else if d.toNat < 32 then fail else pure d

/-- The form of a character in a string is read as the character, and is not taken for the closing
quote. -/
lemma answers_escape (ε : Type) (c : Char) : ∃ d ds, escape c = d :: ds ∧ d ≠ '"' ∧
    Answers Always (unescaped d : Parser ε Char) ds (.ok c) := by
  rw [escape.eq_def]
  split
  case h_8 quote backslash _ _ _ _ _ =>
    split
    case isTrue control =>
      refine ⟨_, _, rfl, by decide, ?_⟩
      rw [unescaped, if_pos rfl, escaped, answers_char_bind]
      exact answers_codePoint control
    case isFalse plain =>
      refine ⟨c, [], rfl, quote, ?_⟩
      rw [unescaped, if_neg backslash, if_neg plain]
      exact answers_pure c
  all_goals exact ⟨_, _, rfl, by decide, answers_pure _⟩

/-- The rest of a string ends at a quote, or else goes on behind one more character. -/
lemma quotedWithin_succ (count : Nat) : (quotedWithin (count + 1) : Parser ε (List Char)) = (do
    let d ← char
    if d = '"' then return []
    else unescaped d >>= fun c => do return c :: (← quotedWithin count)) := by
  rw [quotedWithin]
  refine bind_congr fun d => ?_
  split
  · rfl
  · rw [unescaped]
    split
    · rfl
    · split <;> rfl

/-- The forms of characters, with a quote behind them, are read as these characters. -/
lemma answers_quotedWithin (cs : List Char) {count : Nat} (enough : cs.length < count) :
    Answers Next (quotedWithin count : Parser ε (List Char)) (cs.flatMap escape ++ ['"'])
      (.ok cs) := by
  induction cs generalizing count with
  | nil =>
    obtain ⟨count, rfl⟩ := Nat.exists_eq_succ_of_ne_zero (Nat.ne_zero_of_lt enough)
    rw [quotedWithin_succ, List.flatMap_nil, List.nil_append, answers_char_bind, if_pos rfl]
    exact answers_pure []
  | cons c cs ih =>
    obtain ⟨count, rfl⟩ := Nat.exists_eq_succ_of_ne_zero (Nat.ne_zero_of_lt enough)
    obtain ⟨d, ds, form, inside, answers⟩ := answers_escape ε c
    rw [quotedWithin_succ, List.flatMap_cons, form, List.append_assoc, List.cons_append,
      answers_char_bind, if_neg inside]
    exact answers.bind ((ih (Nat.lt_of_succ_lt_succ enough)).map (c :: ·))

/-- A string has at most as many characters as its quoted form. -/
lemma length_le_length_flatMap_escape (cs : List Char) :
    cs.length ≤ (cs.flatMap escape).length := by
  induction cs with
  | nil => exact Nat.le_refl 0
  | cons c cs ih =>
    obtain ⟨d, ds, form, -⟩ := answers_escape Unit c
    rw [List.flatMap_cons, form, List.length_append, List.length_cons, List.length_cons]
    omega

/-- A string is read from its quoted form behind the opening quote. -/
lemma answers_quoted (s : String) :
    Answers Next (Parser.quoted : Parser ε String) (s.toList.flatMap escape ++ ['"']) (.ok s) := by
  rw [Parser.quoted]
  refine answers_get_bind fun rest => ?_
  have enough : s.toList.length < (s.toList.flatMap escape ++ ['"'] ++ rest).length := by
    have escaped := length_le_length_flatMap_escape s.toList
    rw [List.length_append, List.length_append, List.length_singleton]
    omega
  have answers : Answers Next (do return String.ofList (← quotedWithin _) : Parser ε String) _ _ :=
    (answers_quotedWithin s.toList enough).map String.ofList
  rwa [Except.map, String.ofList_toList] at answers

/-- A string is read from its quoted form. -/
theorem answers_string (s : String) :
    Answers Next (string : Parser ε String) (Json.quoted s) (.ok s) := by
  rw [string, Json.quoted, List.cons_append, answers_require_bind (by decide)]
  exact answers_quoted s

end AddressCodec.Json.Parser
