import AddressCodec.Json.Record
import AddressCodec.Proofs.Json.Answers

/-!
# Lists and objects

The text of a list or an object is that of its pieces, with commas between them and a closing
character behind them (`enclosed`); so a comma or the closing character stands behind each piece
(`behind`). Where a step is known on each piece, all of them are known
(`answers_gather`), and where it fails on one behind pieces that are read, all of them fail
(`answers_gather_error`); main statements: `answers_list`, `answers_namedPair`.
-/

namespace AddressCodec.Json

/-- Texts separated by commas up to a closing character. -/
def enclosed (close : Char) (pieces : List (List Char)) : List Char :=
  [','].intercalate pieces ++ [close]

lemma enclosed_nil (close : Char) : enclosed close [] = [close] := rfl

lemma enclosed_singleton (close : Char) (piece : List Char) :
    enclosed close [piece] = piece ++ [close] := by
  rw [enclosed, List.intercalate_singleton]

/-- A comma stands between a piece and the next one. -/
lemma enclosed_cons_cons (close : Char) (piece next : List Char) (pieces : List (List Char)) :
    enclosed close (piece :: next :: pieces) = piece ++ ',' :: enclosed close (next :: pieces) := by
  rw [enclosed, List.intercalate_cons_cons, List.append_assoc, List.append_assoc]
  rfl

/-- A comma stands behind the first piece, if one more is known to follow. -/
lemma enclosed_cons_append_cons (close : Char) (piece : List Char) (pieces : List (List Char))
    (last : List Char) (more : List (List Char)) :
    enclosed close (piece :: (pieces ++ last :: more))
      = piece ++ ',' :: enclosed close (pieces ++ last :: more) := by
  cases pieces with
  | nil => exact enclosed_cons_cons close piece last more
  | cons next pieces => exact enclosed_cons_cons close piece next _

/-- What stands behind a piece of a sequence: what closes it, or a comma and the other pieces. -/
def behind (close : Char) : List (List Char) → List Char
  | [] => [close]
  | piece :: pieces => ',' :: enclosed close (piece :: pieces)

/-- A piece is followed by what stands behind it. -/
lemma enclosed_cons (close : Char) (piece : List Char) (pieces : List (List Char)) :
    enclosed close (piece :: pieces) = piece ++ behind close pieces := by
  cases pieces with
  | nil => exact enclosed_singleton close piece
  | cons next pieces => exact enclosed_cons_cons close piece next pieces

/-- A sequence has more characters than commas. -/
lemma length_lt_length_enclosed (close : Char) (piece : List Char) (pieces : List (List Char)) :
    pieces.length < (enclosed close (piece :: pieces)).length := by
  induction pieces generalizing piece with
  | nil => simp [enclosed]
  | cons next pieces ih =>
    have shorter := ih next
    rw [enclosed_cons_cons, List.length_append, List.length_cons, List.length_cons]
    omega

/-- The items of a list are pieces up to a bracket. -/
lemma itemChars_eq (items : List Json) : itemChars items = enclosed ']' (items.map chars) := by
  induction items with
  | nil => rfl
  | cons item items ih =>
    cases items with
    | nil => rw [itemChars, List.map_singleton, enclosed_singleton]
    | cons next items =>
      rw [itemChars, ih]
      · simp only [List.map_cons, enclosed_cons_cons]
      · nofun

/-- The text of a member of an object. -/
def memberText (name : String) (value : List Char) : List Char :=
  quoted name ++ ':' :: value

/-- The members of an object are pieces up to a brace. -/
lemma memberChars_eq (members : List (String × Json)) :
    memberChars members = enclosed '}' (members.map fun m => memberText m.1 m.2.chars) := by
  induction members with
  | nil => rfl
  | cons member members ih =>
    obtain ⟨name, value⟩ := member
    cases members with
    | nil => rw [memberChars, List.map_singleton, enclosed_singleton, memberText]
    | cons next members =>
      rw [memberChars, ih]
      · simp only [List.map_cons, enclosed_cons_cons, memberText, List.append_assoc,
          List.cons_append]
      · nofun

/-- A text that begins as a string or an object does, and so not with what closes a sequence. -/
def Opened (text : List Char) : Prop :=
  ∃ cs, text = '{' :: cs ∨ text = '"' :: cs

/-- Whatever follows does not change how a text begins. -/
lemma Opened.append {text : List Char} (opened : Opened text) (more : List Char) :
    Opened (text ++ more) := by
  obtain ⟨cs, rfl | rfl⟩ := opened
  · exact ⟨cs ++ more, .inl rfl⟩
  · exact ⟨cs ++ more, .inr rfl⟩

/-- A sequence begins as its first piece does. -/
lemma opened_enclosed {close : Char} {piece : List Char} (opened : Opened piece)
    (pieces : List (List Char)) : Opened (enclosed close (piece :: pieces)) := by
  cases pieces with
  | nil => exact enclosed_singleton close piece ▸ opened.append _
  | cons next pieces => exact enclosed_cons_cons close piece next pieces ▸ opened.append _

/-- A member begins with the quote of its name. -/
lemma opened_memberText (name : String) (value : List Char) : Opened (memberText name value) :=
  ⟨_, .inr rfl⟩

namespace Parser

variable {ε α β σ : Type} {Next : List Char → Prop} {cs ds : List Char}

/-- A step leads from one state to another over pieces of text, each of which something follows that
is no digit. -/
inductive Steps (step : σ → Parser ε σ) : σ → List (List Char) → σ → Prop
  | nil (s : σ) : Steps step s [] s
  | cons {s t u : σ} {piece : List Char} {pieces : List (List Char)} :
    Answers Apart (step s) piece (.ok t) → Steps step t pieces u → Steps step s (piece :: pieces) u

/-- Steps that are known on each piece of a sequence carry over all of it, up to its end. -/
lemma answers_gatherWithin {close : Char} (closing : close = ']' ∨ close = '}')
    {step : σ → Parser ε σ} {s u : σ} {piece : List Char} {pieces : List (List Char)}
    (steps : Steps step s (piece :: pieces) u) {count : Nat} (enough : pieces.length < count) :
    Answers Next (gatherWithin close step count s) (enclosed close (piece :: pieces)) (.ok u) := by
  -- The induction is on the pieces behind the first, since a closing character or a comma stands
  -- behind each.
  obtain ⟨solid, other, apart⟩ : isBlank close = false ∧ close ≠ ',' ∧ close.isDigit = false := by
    obtain rfl | rfl := closing <;> decide
  induction pieces generalizing s piece count with
  | nil =>
    obtain ⟨count, rfl⟩ := Nat.exists_eq_succ_of_ne_zero (Nat.ne_zero_of_lt enough)
    cases steps with
    | cons answers done =>
      cases done
      rw [gatherWithin, enclosed_singleton]
      refine answers.bind_of (fun rest _ => apart_cons rest apart) ?_
      rw [answers_token_bind solid, if_neg other, if_pos rfl]
      exact answers_pure _
  | cons next pieces ih =>
    obtain ⟨count, rfl⟩ := Nat.exists_eq_succ_of_ne_zero (Nat.ne_zero_of_lt enough)
    cases steps with
    | cons answers more =>
      rw [gatherWithin, enclosed_cons_cons]
      refine answers.bind_of (fun rest _ => apart_cons _ (by decide)) ?_
      rw [answers_token_bind (by decide), if_pos rfl]
      exact ih more (Nat.lt_of_succ_lt_succ enough)

/-- A sequence that begins as a string or an object does is not empty, so its pieces are read. -/
lemma answers_gather_of_opened {close : Char} (closing : close = ']' ∨ close = '}')
    {step : σ → Parser ε σ} {s : σ} {answer : Except (Failure ε) σ} (opened : Opened cs)
    (answers : ∀ rest : List Char,
      Answers Next (gatherWithin close step (cs ++ rest).length s) cs answer) :
    Answers Next (gather close step s) cs answer := by
  obtain ⟨brace, quote⟩ : ('{' == close) = false ∧ ('"' == close) = false := by
    obtain rfl | rfl := closing <;> decide
  have within :
      Answers Next (get >>= fun text => gatherWithin close step text.length s) cs answer :=
    answers_get_bind answers
  rw [gather]
  obtain ⟨cs, rfl | rfl⟩ := opened
  · rw [answers_blanks_bind (by decide), answers_skipIf_bind, brace]
    exact within
  · rw [answers_blanks_bind (by decide), answers_skipIf_bind, quote]
    exact within

/-- Steps that are known on each piece of a sequence carry over all of it, also where it is empty.
-/
lemma answers_gather {close : Char} (closing : close = ']' ∨ close = '}')
    {step : σ → Parser ε σ} {s u : σ} {pieces : List (List Char)}
    (steps : Steps step s pieces u) (opened : ∀ piece ∈ pieces, Opened piece) :
    Answers Next (gather close step s) (enclosed close pieces) (.ok u) := by
  cases pieces with
  | nil =>
    cases steps
    have solid : isBlank close = false := by
      obtain rfl | rfl := closing <;> decide
    rw [gather, enclosed_nil, answers_blanks_bind solid, answers_skipIf_bind,
      if_pos (beq_self_eq_true close)]
    exact answers_pure _
  | cons piece pieces =>
    refine answers_gather_of_opened closing
      (opened_enclosed (opened piece List.mem_cons_self) pieces) fun rest => ?_
    refine answers_gatherWithin closing steps ?_
    rw [List.length_append]
    exact Nat.lt_add_right _ (length_lt_length_enclosed close piece pieces)

/-- No digit stands behind a piece. -/
lemma apart_behind {close : Char} (closing : close = ']' ∨ close = '}')
    (pieces : List (List Char)) (rest : List Char) : Apart (behind close pieces ++ rest) := by
  cases pieces with
  | nil =>
    refine apart_cons rest ?_
    obtain rfl | rfl := closing <;> decide
  | cons piece pieces => exact apart_cons _ (by decide)

/-- A step that fails on a piece, behind pieces that are read, fails the sequence. -/
lemma answers_gatherWithin_error {close : Char} (closing : close = ']' ∨ close = '}')
    {step : σ → Parser ε σ} {s t : σ} {pieces more : List (List Char)} {bad : List Char}
    {failure : Failure ε} (steps : Steps step s pieces t)
    (fails : Answers Apart (step t) bad (.error failure)) {count : Nat}
    (enough : pieces.length < count) :
    Answers Next (gatherWithin close step count s) (enclosed close (pieces ++ bad :: more))
      (.error failure) := by
  induction steps generalizing count with
  | nil s =>
    obtain ⟨count, rfl⟩ := Nat.exists_eq_succ_of_ne_zero (Nat.ne_zero_of_lt enough)
    rw [List.nil_append, gatherWithin, enclosed_cons]
    exact fails.bind_error.error_append fun rest _ => apart_behind closing more rest
  | @cons _ _ _ piece pieces answers _ ih =>
    obtain ⟨count, rfl⟩ := Nat.exists_eq_succ_of_ne_zero (Nat.ne_zero_of_lt enough)
    rw [List.cons_append, gatherWithin, enclosed_cons_append_cons]
    refine answers.bind_of (fun rest _ => apart_cons _ (by decide)) ?_
    rw [answers_token_bind (by decide), if_pos rfl]
    exact ih fails (Nat.lt_of_succ_lt_succ enough)

/-- The first piece on which the step fails decides, whatever follows it. -/
lemma answers_gather_error {close : Char} (closing : close = ']' ∨ close = '}')
    {step : σ → Parser ε σ} {s t : σ} {pieces more : List (List Char)} {bad : List Char}
    {failure : Failure ε} (steps : Steps step s pieces t)
    (fails : Answers Apart (step t) bad (.error failure))
    (opened : ∀ piece ∈ pieces ++ bad :: more, Opened piece) :
    Answers Next (gather close step s) (enclosed close (pieces ++ bad :: more))
      (.error failure) := by
  have first : Opened (enclosed close (pieces ++ bad :: more)) := by
    cases pieces with
    | nil => exact opened_enclosed (opened bad List.mem_cons_self) more
    | cons piece pieces => exact opened_enclosed (opened piece List.mem_cons_self) _
  refine answers_gather_of_opened closing first fun rest => ?_
  refine answers_gatherWithin_error closing steps fails ?_
  have long : pieces.length < (enclosed close (pieces ++ bad :: more)).length := by
    cases pieces with
    | nil => exact Nat.zero_lt_of_lt (length_lt_length_enclosed close bad more)
    | cons piece pieces =>
      have all := length_lt_length_enclosed close piece (pieces ++ bad :: more)
      rw [List.length_append, List.length_cons] at all
      rw [List.length_cons, List.cons_append]
      omega
  rw [List.length_append]
  exact Nat.lt_add_right _ long

section
variable {item : Parser ε α} (write : α → List Char) {values : List α}

/-- The step of a list gathers the values of its pieces, the last one first. -/
lemma steps_list (answers : ∀ a ∈ values, Answers Apart item (write a) (.ok a)) (read : List α) :
    Steps (fun read => do return (← item) :: read) read (values.map write)
      (values.reverse ++ read) := by
  induction values generalizing read with
  | nil => exact .nil read
  | cons a values ih =>
    rw [List.map_cons, List.reverse_cons, List.append_assoc]
    refine .cons ((answers a List.mem_cons_self).map (· :: read)) (ih ?_ (a :: read))
    exact fun b mem => answers b (List.mem_cons_of_mem a mem)

/-- Values are read from the list of their texts if each of them is read from its text. -/
theorem answers_list (opened : ∀ a ∈ values, Opened (write a))
    (answers : ∀ a ∈ values, Answers Apart item (write a) (.ok a)) :
    Answers Next (list item) ('[' :: enclosed ']' (values.map write)) (.ok values) := by
  have steps := steps_list write answers []
  have opened : ∀ piece ∈ values.map write, Opened piece := List.forall_mem_map.2 opened
  rw [list, answers_require_bind (by decide)]
  have gathered : Answers Next (do return (← gather ']' _ []).reverse : Parser ε (List α)) _ _ :=
    (answers_gather (.inl rfl) steps opened).map List.reverse
  rwa [Except.map, List.append_nil, List.reverse_reverse] at gathered

/-- A list fails as its first item does that fails. -/
theorem answers_list_error {bad : α} {more : List α} {failure : Failure ε}
    (opened : ∀ a ∈ values ++ bad :: more, Opened (write a))
    (answers : ∀ a ∈ values, Answers Apart item (write a) (.ok a))
    (fails : Answers Apart item (write bad) (.error failure)) :
    Answers Next (list item) ('[' :: enclosed ']' ((values ++ bad :: more).map write))
      (.error failure) := by
  have opened : ∀ piece ∈ (values ++ bad :: more).map write, Opened piece :=
    List.forall_mem_map.2 opened
  rw [list, answers_require_bind (by decide)]
  rw [List.map_append, List.map_cons] at opened ⊢
  exact (answers_gather_error (.inl rfl) (steps_list write answers [])
    fails.bind_error opened).bind_error

end

section
variable {first : Parser ε α} {second : Parser ε β} {firstName secondName : String} {a : α}

/-- The first part of a pair is read into its place. -/
lemma answers_member_first (answers : Answers Apart first cs (.ok a)) :
    Answers Apart (member firstName secondName first second (none, none))
      (memberText firstName cs) (.ok (some a, none)) := by
  rw [member, memberText]
  refine (answers_string firstName).bind ?_
  rw [answers_require_bind (by decide), if_pos rfl]
  exact answers.map fun a => (some a, none)

/-- The second part of a pair is read into its place behind the first one. -/
lemma answers_member_second (different : secondName ≠ firstName)
    {answer : Except (Failure ε) β} (answers : Answers Apart second ds answer) :
    Answers Apart (member firstName secondName first second (some a, none))
      (memberText secondName ds) (answer.map fun b => (some a, some b)) := by
  rw [member, memberText]
  refine (answers_string secondName).bind ?_
  rw [answers_require_bind (by decide), if_neg different, if_pos rfl]
  exact answers.map fun b => (some a, some b)

/-- Both members of a pair begin with a quote. -/
lemma opened_memberTexts (name other : String) (value content : List Char) :
    ∀ piece ∈ [memberText name value, memberText other content], Opened piece := by
  rw [List.forall_mem_cons, List.forall_mem_singleton]
  exact ⟨opened_memberText _ _, opened_memberText _ _⟩

/-- A pair is read from the object of its two parts, if these are read and have two names; if the
second fails, the pair does. -/
theorem answers_namedPair (different : secondName ≠ firstName)
    (answers : Answers Apart first cs (.ok a)) {answer : Except (Failure ε) β}
    (answers' : Answers Apart second ds answer) :
    Answers Next (namedPair firstName secondName first second)
      (enclosed '}' [memberText firstName cs, memberText secondName ds])
      (answer.map fun b => (a, b)) := by
  have one : Answers Apart (member firstName secondName first second (none, none)) _ _ :=
    answers_member_first answers
  have both : Answers Apart (member firstName secondName first second (some a, none)) _ _ :=
    answers_member_second different answers'
  have opened := opened_memberTexts firstName secondName cs ds
  rw [namedPair]
  cases answer with
  | error failure =>
    have failed : Answers Next (gather '}' (member firstName secondName first second) (none, none))
        (enclosed '}' ([memberText firstName cs] ++ memberText secondName ds :: []))
        (.error failure) :=
      answers_gather_error (.inr rfl) (.cons one (.nil _)) both opened
    exact failed.bind_error
  | ok b =>
    exact (answers_gather (.inr rfl) (.cons one (.cons both (.nil _))) opened).bind_nil
      (answers_pure (a, b))

end

end Parser

end AddressCodec.Json
