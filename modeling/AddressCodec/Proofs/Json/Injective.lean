import AddressCodec.Proofs.Element.Sameness
import AddressCodec.Proofs.Json.Elements

/-!
# What a text says

Nothing in the text of a JSON value breaks a line: whatever a string holds, its text has no control
characters (`Json.le_of_mem_chars`). A value is known from its text, also where another text that
does not begin with a digit follows (`Json.chars_append_inj`); so are typed values and trees, for
their forms in JSON differ (`Value.toJson_injective`, `Element.jsonText_injective`).
-/

namespace AddressCodec

open Json.Parser

namespace Json

variable {close : Char} {rest rest' : List Char}

/-- Induction on values, at once for all items of a list and all members of an object. -/
@[elab_as_elim]
theorem inductionOn {P : Json → Prop} (j : Json) (bool : ∀ b, P (bool b))
    (number : ∀ n, P (number n)) (string : ∀ s, P (string s))
    (list : ∀ items, (∀ item ∈ items, P item) → P (list items))
    (object : ∀ members : List (String × Json),
      (∀ member ∈ members, P member.2) → P (object members)) : P j :=
  @Json.rec P (fun items => ∀ item ∈ items, P item) (fun members => ∀ member ∈ members, P member.2)
    (fun member => P member.2) bool number string list object nofun
    (fun _ _ first rest => List.forall_mem_cons.2 ⟨first, rest⟩) nofun
    (fun _ _ first rest => List.forall_mem_cons.2 ⟨first, rest⟩) (fun _ _ value => value) j

/-! ## No control characters -/

/-- A hexadecimal digit is no control character. -/
lemma le_digitChar {d : Nat} (small : d < 16) : 32 ≤ (Nat.digitChar d).toNat := by
  have range := Hex.toNat_digitChar d small
  omega

/-- The form of a character in a string has no control characters. -/
lemma le_of_mem_escape {c d : Char} (mem : d ∈ escape c) : 32 ≤ d.toNat := by
  rw [escape.eq_def] at mem
  split at mem
  case h_8 =>
    split at mem
    case isTrue control =>
      simp only [List.mem_cons, List.not_mem_nil, or_false] at mem
      obtain rfl | rfl | rfl | rfl | rfl | rfl := mem
      · decide
      · decide
      · decide
      · decide
      · exact le_digitChar (by omega)
      · exact le_digitChar (by omega)
    case isFalse plain =>
      rw [List.mem_singleton.1 mem]
      omega
  all_goals
    simp only [List.mem_cons, List.not_mem_nil, or_false] at mem
    obtain rfl | rfl := mem <;> decide

/-- A quoted string has no control characters. -/
lemma le_of_mem_quoted {s : String} {c : Char} (mem : c ∈ quoted s) : 32 ≤ c.toNat := by
  rw [quoted, List.cons_append, List.mem_cons, List.mem_append, List.mem_singleton] at mem
  obtain rfl | inside | rfl := mem
  · decide
  · obtain ⟨d, -, escaped⟩ := List.mem_flatMap.1 inside
    exact le_of_mem_escape escaped
  · decide

/-- Enclosing texts without control characters adds none. -/
lemma le_of_mem_enclosed (closing : 32 ≤ close.toNat) {pieces : List (List Char)}
    (each : ∀ piece ∈ pieces, ∀ c ∈ piece, 32 ≤ c.toNat) :
    ∀ c ∈ enclosed close pieces, 32 ≤ c.toNat := by
  induction pieces with
  | nil =>
    rw [enclosed_nil]
    exact List.forall_mem_singleton.2 closing
  | cons piece pieces ih =>
    obtain ⟨first, more⟩ := List.forall_mem_cons.1 each
    cases pieces with
    | nil =>
      rw [enclosed_singleton, List.forall_mem_append]
      exact ⟨first, List.forall_mem_singleton.2 closing⟩
    | cons next pieces =>
      rw [enclosed_cons_cons, List.forall_mem_append, List.forall_mem_cons]
      exact ⟨first, by decide, ih more⟩

/-- No character of a text is a control character. -/
theorem le_of_mem_chars (j : Json) : ∀ c ∈ j.chars, 32 ≤ c.toNat := by
  induction j using inductionOn with
  | bool b =>
    have all : ((bool b).chars.all fun c => decide (32 ≤ c.toNat)) = true := by
      cases b <;> rfl
    simpa only [List.all_eq_true, decide_eq_true_eq] using all
  | number n =>
    intro c mem
    have digit := isDigit_of_mem_toDigits mem
    simp only [Char.isDigit, Bool.and_eq_true, decide_eq_true_eq] at digit
    have low : (48 : UInt32) ≤ c.val := digit.1
    exact (show 32 ≤ 48 by decide).trans low
  | string s => exact fun c => le_of_mem_quoted
  | list items ih =>
    rw [chars, itemChars_eq, List.forall_mem_cons]
    refine ⟨by decide, le_of_mem_enclosed (by decide) ?_⟩
    exact List.forall_mem_map.2 ih
  | object members ih =>
    rw [chars, memberChars_eq, List.forall_mem_cons]
    refine ⟨by decide, le_of_mem_enclosed (by decide) (List.forall_mem_map.2 ?_)⟩
    intro member mem
    rw [memberText, List.forall_mem_append, List.forall_mem_cons]
    exact ⟨fun c => le_of_mem_quoted, by decide, ih member mem⟩

/-! ## Known from the text -/

/-- Where a parser answers on two texts, one text cannot begin with both of them unless the results
are equal. -/
lemma eq_of_answers {ε α : Type} {p : Parser ε α} {Next : List Char → Prop} {cs ds : List Char}
    {a b : α} (one : Answers Next p cs (.ok a)) (other : Answers Next p ds (.ok b))
    (next : Next rest) (next' : Next rest') (same : cs ++ rest = ds ++ rest') :
    a = b ∧ rest = rest' := by
  have run : Except.ok (a, rest) = .ok (b, rest') :=
    (one rest next).symm.trans (same ▸ other rest' next')
  cases run
  exact ⟨rfl, rfl⟩

/-- A text that begins with a quoted string does so with one string only. -/
lemma quoted_append_inj {s t : String} (same : quoted s ++ rest = quoted t ++ rest') :
    s = t ∧ rest = rest' :=
  have read (s : String) : Answers Always (Parser.string : Parser Unit String) (quoted s) (.ok s) :=
    answers_string s
  eq_of_answers (read s) (read t) trivial trivial same

/-- A text that begins with a number, and no digit behind it, does so with one number only. -/
lemma toDigits_append_inj {m n : Nat} (apart : Apart rest) (apart' : Apart rest')
    (same : Nat.toDigits 10 m ++ rest = Nat.toDigits 10 n ++ rest') : m = n ∧ rest = rest' :=
  have read (n : Nat) : Answers Apart (natural : Parser Unit Nat) (Nat.toDigits 10 n) (.ok n) :=
    answers_natural n
  eq_of_answers (read m) (read n) apart apart' same

/-- The kinds of values. -/
inductive Kind where
  | bool
  | number
  | string
  | list
  | object

/-- The kind of a value. -/
def kind : Json → Kind
  | bool _ => .bool
  | number _ => .number
  | string _ => .string
  | list _ => .list
  | object _ => .object

/-- The kind of the values whose texts begin with a character, if there are any. -/
def Kind.ofLead? (c : Char) : Option Kind :=
  if c = 't' ∨ c = 'f' then some bool
  else if c.isDigit then some number
  else if c = '"' then some string
  else if c = '[' then some list
  else if c = '{' then some object
  else none

/-- The first character of a text tells the kind of the value. -/
lemma exists_lead (j : Json) : ∃ c cs, j.chars = c :: cs ∧ Kind.ofLead? c = some j.kind := by
  cases j with
  | bool b => cases b <;> exact ⟨_, _, rfl, rfl⟩
  | number n =>
    obtain ⟨d, ds, digits, -⟩ := toDigits_eq_cons n
    have digit : d.isDigit = true := isDigit_of_mem_toDigits (digits ▸ List.mem_cons_self)
    have letter : ¬ (d = 't' ∨ d = 'f') := by
      rintro (rfl | rfl) <;> cases digit
    exact ⟨d, ds, digits, by rw [Kind.ofLead?, if_neg letter, if_pos digit]; rfl⟩
  | string s => exact ⟨_, _, rfl, rfl⟩
  | list items => exact ⟨_, _, rfl, rfl⟩
  | object members => exact ⟨_, _, rfl, rfl⟩

/-- The kind of a value can be seen from any text that begins with it. -/
lemma kind_eq_of_append_eq {j k : Json} (same : j.chars ++ rest = k.chars ++ rest') :
    j.kind = k.kind := by
  obtain ⟨c, cs, text, kind⟩ := exists_lead j
  obtain ⟨d, ds, text', kind'⟩ := exists_lead k
  rw [text, text'] at same
  cases (List.cons.inj same).1
  exact Option.some.inj (kind.symm.trans kind')

section
variable {α : Type} {print : α → List Char} {xs ys : List α}

/-- Behind a piece, all further pieces are known if each is where no digit follows. -/
lemma behind_append_inj (closing : close = ']' ∨ close = '}')
    (unique : ∀ x ∈ xs, ∀ (y : α) {rest rest' : List Char}, Apart rest → Apart rest' →
      print x ++ rest = print y ++ rest' → x = y ∧ rest = rest')
    (same : behind close (xs.map print) ++ rest = behind close (ys.map print) ++ rest') :
    xs = ys ∧ rest = rest' := by
  -- A closing character tells where the pieces end, since it is no comma.
  have comma : close ≠ ',' := by
    obtain rfl | rfl := closing <;> decide
  induction xs generalizing ys with
  | nil =>
    cases ys with
    | nil => exact ⟨rfl, (List.cons.inj same).2⟩
    | cons y ys => exact absurd (List.cons.inj same).1 comma
  | cons x xs ih =>
    cases ys with
    | nil => exact absurd (List.cons.inj same).1.symm comma
    | cons y ys =>
      obtain ⟨first, more⟩ := List.forall_mem_cons.1 unique
      have pieces : enclosed close ((x :: xs).map print) ++ rest
          = enclosed close ((y :: ys).map print) ++ rest' := (List.cons.inj same).2
      rw [List.map_cons, List.map_cons, enclosed_cons, enclosed_cons, List.append_assoc,
        List.append_assoc] at pieces
      obtain ⟨rfl, others⟩ :=
        first y (apart_behind closing _ rest) (apart_behind closing _ rest') pieces
      obtain ⟨rfl, ends⟩ := ih more others
      exact ⟨rfl, ends⟩

/-- All pieces are known if, besides, none begins with what closes the sequence. -/
lemma enclosed_append_inj (closing : close = ']' ∨ close = '}')
    (opened : ∀ (x : α) (cs ds : List Char), print x ++ cs ≠ close :: ds)
    (unique : ∀ x ∈ xs, ∀ (y : α) {rest rest' : List Char}, Apart rest → Apart rest' →
      print x ++ rest = print y ++ rest' → x = y ∧ rest = rest')
    (same : enclosed close (xs.map print) ++ rest = enclosed close (ys.map print) ++ rest') :
    xs = ys ∧ rest = rest' := by
  cases xs with
  | nil =>
    cases ys with
    | nil => exact ⟨rfl, (List.cons.inj same).2⟩
    | cons y ys =>
      rw [List.map_cons, enclosed_cons, List.append_assoc] at same
      exact absurd same.symm (opened y _ _)
  | cons x xs =>
    cases ys with
    | nil =>
      rw [List.map_cons, enclosed_cons, List.append_assoc] at same
      exact absurd same (opened x _ _)
    | cons y ys =>
      -- With a comma in front, the sequences stand behind a piece.
      exact behind_append_inj closing unique (congrArg (',' :: ·) same)

end

/-- No value's text begins with a character that begins no kind. -/
lemma chars_append_ne {c : Char} (none : Kind.ofLead? c = none) (j : Json) (cs ds : List Char) :
    j.chars ++ cs ≠ c :: ds := by
  obtain ⟨d, _, text, kind⟩ := exists_lead j
  rw [text]
  intro same
  cases (List.cons.inj same).1
  cases none.symm.trans kind

/-- A text that begins with a truth value does so with one only. -/
lemma bool_append_inj {b b' : Bool} (same : (bool b).chars ++ rest = (bool b').chars ++ rest') :
    b = b' ∧ rest = rest' := by
  have lead := congrArg List.head? same
  cases b <;> cases b'
  case false.false => exact ⟨rfl, List.append_cancel_left same⟩
  case true.true => exact ⟨rfl, List.append_cancel_left same⟩
  case false.true => cases lead
  case true.false => cases lead

/-- A text begins with one member only, if it begins with one value behind the name. -/
lemma memberText_append_inj {name name' : String} {j k : Json}
    (unique : j.chars ++ rest = k.chars ++ rest' → j = k ∧ rest = rest')
    (same : memberText name j.chars ++ rest = memberText name' k.chars ++ rest') :
    (name, j) = (name', k) ∧ rest = rest' := by
  rw [memberText, memberText, List.append_assoc, List.append_assoc] at same
  obtain ⟨rfl, values⟩ := quoted_append_inj same
  obtain ⟨rfl, ends⟩ := unique (List.cons.inj values).2
  exact ⟨rfl, ends⟩

/-- A value is known from its text, also where a text that begins with no digit follows. -/
theorem chars_append_inj {j k : Json} (apart : Apart rest) (apart' : Apart rest')
    (same : j.chars ++ rest = k.chars ++ rest') : j = k ∧ rest = rest' := by
  -- The kinds agree, so each case meets its own only; the texts of what is inside are followed by a
  -- comma or a closing character, which are no digits.
  induction j using inductionOn generalizing k rest rest' with
  | bool b =>
    cases k with
    | bool b' =>
      obtain ⟨rfl, ends⟩ := bool_append_inj same
      exact ⟨rfl, ends⟩
    | _ => cases kind_eq_of_append_eq same
  | number n =>
    cases k with
    | number n' =>
      obtain ⟨rfl, ends⟩ := toDigits_append_inj apart apart' same
      exact ⟨rfl, ends⟩
    | _ => cases kind_eq_of_append_eq same
  | string s =>
    cases k with
    | string s' =>
      obtain ⟨rfl, ends⟩ := quoted_append_inj same
      exact ⟨rfl, ends⟩
    | _ => cases kind_eq_of_append_eq same
  | list items ih =>
    cases k with
    | list items' =>
      have inside := (List.cons.inj same).2
      simp only [itemChars_eq] at inside
      obtain ⟨rfl, ends⟩ := enclosed_append_inj (.inl rfl) (chars_append_ne (by decide))
        (fun item mem _ _ _ => ih item mem) inside
      exact ⟨rfl, ends⟩
    | _ => cases kind_eq_of_append_eq same
  | object members ih =>
    cases k with
    | object members' =>
      have inside := (List.cons.inj same).2
      simp only [memberChars_eq] at inside
      obtain ⟨rfl, ends⟩ := enclosed_append_inj (.inr rfl)
        (fun _ _ _ same => absurd (List.cons.inj same).1 (by decide))
        (fun member mem _ _ _ apart apart' => memberText_append_inj (ih member mem apart apart'))
        inside
      exact ⟨rfl, ends⟩
    | _ => cases kind_eq_of_append_eq same

/-- Values with one text are equal. -/
theorem text_injective {j k : Json} (same : j.text = k.text) : j = k := by
  have alone : j.chars ++ [] = k.chars ++ [] := congrArg (· ++ []) (String.ofList_inj.1 same)
  have ended : Apart [] := nofun
  exact (chars_append_inj ended ended alone).1

end Json

/-! ## Typed values and trees -/

namespace Value

/-- Scalars that are the same JSON are equal. -/
lemma Scalar.toJson_injective {a b : Scalar} (same : a.toJson = b.toJson) : a = b := by
  cases a <;> cases b <;> cases same <;> rfl

/-- The type tells how what is held is to be read. -/
theorem toJson_injective {v w : Value} (same : v.toJson = w.toJson) : v = w := by
  simp only [toJson, contentJson_eq, Json.object.injEq, List.cons.injEq, Prod.mk.injEq,
    Json.string.injEq, true_and, and_true] at same
  obtain ⟨names, content⟩ := same
  have kinds : v.kind = w.kind := Option.some.inj <| by
    rw [← Kind.ofName?_name, names, Kind.ofName?_name]
  have held := Scalar.toJson_injective content
  rw [← Option.some_inj, ← ofScalar?_held v, kinds, held, ofScalar?_held w]

end Value

namespace Element

/-- Elements that are the same JSON are of one kind. -/
lemma kind_eq_of_toJson_eq {e f : Element} (same : e.toJson = f.toJson) : e.kind = f.kind := by
  have form (e : Element) : ∃ content, e.toJson = .object [(e.kind.name, content)] := by
    cases e <;> exact ⟨_, rfl⟩
  obtain ⟨_, one⟩ := form e
  obtain ⟨_, other⟩ := form f
  rw [one, other] at same
  simp only [Json.object.injEq, List.cons.injEq, Prod.mk.injEq, and_true] at same
  refine Option.some.inj ?_
  rw [← Kind.ofName?_name, same.1, Kind.ofName?_name]

/-- Lists that are mapped to the same list are equal, if each item is determined by its image. -/
lemma eq_of_map_eq {α β : Type} {f : α → β} {xs ys : List α}
    (unique : ∀ x ∈ xs, ∀ {y}, f x = f y → x = y) (same : xs.map f = ys.map f) : xs = ys := by
  induction xs generalizing ys with
  | nil => exact (List.map_eq_nil_iff.1 same.symm).symm
  | cons x xs ih =>
    obtain ⟨y, ys, rfl, first, rest⟩ := List.map_eq_cons_iff.1 same.symm
    obtain ⟨one, more⟩ := List.forall_mem_cons.1 unique
    rw [one first.symm, ih more rest.symm]

/-- Entries that are the same JSON are equal, if this is so of their elements. -/
lemma entryJson_inj {entry other : Value × Element}
    (unique : entry.2.toJson = other.2.toJson → entry.2 = other.2)
    (same : entryJson entry = entryJson other) : entry = other := by
  simp only [entryJson, Json.object.injEq, List.cons.injEq, Prod.mk.injEq, true_and,
    and_true] at same
  exact Prod.ext (Value.toJson_injective same.1) (unique same.2)

/-- Elements that are the same JSON are equal, order of entries included. -/
theorem toJson_injective {e f : Element} (same : e.toJson = f.toJson) : e = f := by
  induction e using inductionOn generalizing f with
  | value v =>
    cases f with
    | value w =>
      simp only [toJson, Json.object.injEq, List.cons.injEq, Prod.mk.injEq, true_and,
        and_true] at same
      rw [Value.toJson_injective same]
    | _ => cases kind_eq_of_toJson_eq same
  | array items ih =>
    cases f with
    | array others =>
      simp only [toJson, itemsJson_eq_map, Json.object.injEq, Json.list.injEq, List.cons.injEq,
        Prod.mk.injEq, true_and, and_true] at same
      rw [eq_of_map_eq ih same]
    | _ => cases kind_eq_of_toJson_eq same
  | fields entries ih =>
    cases f with
    | fields others =>
      simp only [toJson, entriesJson_eq_map, Json.object.injEq, Json.list.injEq, List.cons.injEq,
        Prod.mk.injEq, true_and, and_true] at same
      rw [eq_of_map_eq (fun entry mem _ => entryJson_inj (ih entry mem)) same]
    | _ => cases kind_eq_of_toJson_eq same

/-- Elements with one JSON text are equal, order of entries included. -/
theorem jsonText_injective {e f : Element} (same : e.jsonText = f.jsonText) : e = f :=
  toJson_injective (Json.text_injective same)

end Element

end AddressCodec
