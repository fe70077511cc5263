import AddressCodec.Proofs.Address.Line

/-!
# Typing errors

A text that is accepted as an address is rejected after any one character of it is replaced and
after any two neighbours change places (`typing_errors_are_rejected`). Wherever the error is, it
either breaks the shape of the line, or replaces a value or exchanges two neighbouring ones under
the checksum.
-/

namespace AddressCodec

open Bech32 (separator letter lower mixesCase)

namespace Address

/-- Behind the separator a replaced character is a replaced symbol. -/
lemma split_letters {symbols : List UInt8} {before after : List Char} {c : Char}
    (spelled : before ++ c :: after = symbols.map letter) :
    ∃ front v back, symbols = front ++ v :: back ∧ front.map letter = before ∧ letter v = c ∧
      back.map letter = after := by
  obtain ⟨front, rest, parts, rfl, tail⟩ := List.map_eq_append_iff.1 spelled.symm
  obtain ⟨v, back, rfl, head, tail⟩ := List.map_eq_cons_iff.1 tail
  exact ⟨front, v, back, parts, rfl, head, tail⟩

/-- A symbol replaced under a valid checksum is replaced by itself. -/
lemma eq_of_verify_replaced {hrp : String} {front back : List UInt8} {v w : UInt8}
    (first : Checksum.verify hrp (front ++ v :: back) = true)
    (second : Checksum.verify hrp (front ++ w :: back) = true) : v = w := by
  rw [Checksum.verify, beq_iff_eq, ← List.append_assoc] at first second
  exact Checksum.residue_substitution (first.trans second.symm)

/-- Neighbouring symbols exchanged under a valid checksum are equal. -/
lemma eq_of_verify_exchanged {hrp : String} {front back : List UInt8} {v w : UInt8}
    (hv : v.toNat < 32) (hw : w.toNat < 32)
    (first : Checksum.verify hrp (front ++ v :: w :: back) = true)
    (second : Checksum.verify hrp (front ++ w :: v :: back) = true) : v = w := by
  rw [Checksum.verify, beq_iff_eq, ← List.append_assoc] at first second
  exact Checksum.residue_transposition hv hw (first.trans second.symm)

/-- The first two characters and the separator are the same in all lines that check. -/
lemma Checks.eq_of_shared {before before' after after' : List Char} {c d : Char} {n m : Network}
    {symbols others : List UInt8} (first : Checks (before ++ c :: after) n symbols)
    (second : Checks (before' ++ d :: after') m others) (place : before'.length = before.length)
    (shared : before.length = 0 ∨ before.length = 1 ∨ before.length = 3) : c = d := by
  have here :
      ('x' :: 'e' :: n.third :: separator :: symbols.map letter)[before.length]? = some c := by
    rw [← first.whole]
    simp
  have there :
      ('x' :: 'e' :: m.third :: separator :: others.map letter)[before.length]? = some d := by
    rw [← second.whole, ← place]
    simp
  rcases shared with h | h | h
  all_goals
    rw [h] at here there
    exact Option.some.inj (here.symm.trans there)

/-- Lines that check and differ in one place at most are equal there. -/
lemma Checks.substitution {before after : List Char} {c d : Char} {n m : Network}
    {symbols others : List UInt8} (first : Checks (before ++ c :: after) n symbols)
    (second : Checks (before ++ d :: after) m others) : c = d := by
  have shared := first.eq_of_shared second rfl
  obtain ⟨whole, small, valid⟩ := first
  obtain ⟨whole', small', valid'⟩ := second
  match before with
  | [] => exact shared (.inl rfl)
  | [_] => exact shared (.inr (.inl rfl))
  | [_, _] =>
    -- Here the network changes and the symbols stay.
    simp only [List.cons_append, List.nil_append, List.cons.injEq] at whole whole'
    obtain ⟨_, _, third, rest⟩ := whole
    obtain ⟨_, _, third', rest'⟩ := whole'
    have same := Bech32.map_letter_injective small small' (List.cons.inj (rest.symm.trans rest')).2
    rw [third, third', Network.eq_of_verify valid (same ▸ valid')]
  | [_, _, _] => exact shared (.inr (.inr rfl))
  | _ :: _ :: _ :: _ :: before =>
    simp only [List.cons_append, List.cons.injEq] at whole whole'
    obtain ⟨_, _, third, _, payload⟩ := whole
    obtain ⟨_, _, third', _, payload'⟩ := whole'
    have network := Network.third_injective (third.symm.trans third')
    obtain ⟨front, v, back, rfl, beforeEq, vEq, afterEq⟩ := split_letters payload
    obtain ⟨front', w, back', rfl, beforeEq', wEq, afterEq'⟩ := split_letters payload'
    have smallW : w.toNat < 32 := small' w (by simp)
    have replaced : ∀ s ∈ front ++ w :: back, s.toNat < 32 := by
      obtain ⟨smallFront, smallBack⟩ := List.forall_mem_append.1 small
      exact List.forall_mem_append.2 ⟨smallFront,
        List.forall_mem_cons.2 ⟨smallW, (List.forall_mem_cons.1 smallBack).2⟩⟩
    -- Around the place both lines spell the same symbols.
    have same : front' ++ w :: back' = front ++ w :: back := by
      apply Bech32.map_letter_injective small' replaced
      simp only [List.map_append, List.map_cons, beforeEq, beforeEq', afterEq, afterEq']
    rw [same, ← network] at valid'
    rw [← vEq, ← wEq, eq_of_verify_replaced valid valid']

/-- Lines that check and have two neighbours exchanged have them equal. -/
lemma Checks.transposition {before after : List Char} {c d : Char} {n m : Network}
    {symbols others : List UInt8} (first : Checks (before ++ c :: d :: after) n symbols)
    (second : Checks (before ++ d :: c :: after) m others) : c = d := by
  have shared := first.eq_of_shared second rfl
  match before with
  | [] => exact shared (.inl rfl)
  | [_] => exact shared (.inr (.inl rfl))
  | [p, q] =>
    -- Behind the third place there is the separator.
    have first : Checks ([p, q, c] ++ d :: after) n symbols := first
    have second : Checks ([p, q, d] ++ c :: after) m others := second
    exact (first.eq_of_shared second rfl (.inr (.inr rfl))).symm
  | [_, _, _] => exact shared (.inr (.inr rfl))
  | _ :: _ :: _ :: _ :: before =>
    obtain ⟨whole, small, valid⟩ := first
    obtain ⟨whole', small', valid'⟩ := second
    simp only [List.cons_append, List.cons.injEq] at whole whole'
    obtain ⟨_, _, third, _, payload⟩ := whole
    obtain ⟨_, _, third', _, payload'⟩ := whole'
    have network := Network.third_injective (third.symm.trans third')
    obtain ⟨front, v, rest, rfl, beforeEq, vEq, restEq⟩ := split_letters payload
    obtain ⟨w, back, rfl, wEq, backEq⟩ := List.map_eq_cons_iff.1 restEq
    obtain ⟨smallFront, smallRest⟩ := List.forall_mem_append.1 small
    obtain ⟨smallV, smallRest⟩ := List.forall_mem_cons.1 smallRest
    obtain ⟨smallW, smallBack⟩ := List.forall_mem_cons.1 smallRest
    have exchanged : ∀ s ∈ front ++ w :: v :: back, s.toNat < 32 :=
      List.forall_mem_append.2 ⟨smallFront,
        List.forall_mem_cons.2 ⟨smallW, List.forall_mem_cons.2 ⟨smallV, smallBack⟩⟩⟩
    have same : others = front ++ w :: v :: back := by
      apply Bech32.map_letter_injective small' exchanged
      simp only [List.map_append, List.map_cons, beforeEq, vEq, wEq, backEq, ← payload']
    rw [same, ← network] at valid'
    rw [← vEq, ← wEq, eq_of_verify_exchanged smallV smallW valid valid']

/-- Of the first two characters, which are letters, one stays when another is replaced. -/
lemma exists_letter {before after : List Char} {c : Char} {n : Network} {symbols : List UInt8}
    (checks : Checks (lower (before ++ c :: after)) n symbols) :
    ∃ z, (z ∈ before ∨ z ∈ after) ∧ z.toLower.isLower = true := by
  have whole := checks.whole
  cases before with
  | nil =>
    obtain ⟨_, rest⟩ := List.cons.inj whole
    obtain ⟨z, _, afterEq, head, _⟩ := List.map_eq_cons_iff.1 rest
    refine ⟨z, .inr ?_, ?_⟩
    · rw [afterEq]
      exact List.mem_cons_self
    · rw [head]
      decide
  | cons z before =>
    obtain ⟨head, _⟩ := List.cons.inj whole
    refine ⟨z, .inl List.mem_cons_self, ?_⟩
    have head : z.toLower = 'x' := head
    rw [head]
    decide

/-- A replaced character with the same lowercase would have the other case than a letter that
stays. -/
lemma Checks.eq_of_toLower_eq {before after : List Char} {c d : Char} {n : Network}
    {symbols : List UInt8} (checks : Checks (lower (before ++ c :: after)) n symbols)
    (one : mixesCase (before ++ c :: after) = false)
    (two : mixesCase (before ++ d :: after) = false) (same : c.toLower = d.toLower) : c = d := by
  obtain ⟨z, here, isLetter⟩ := exists_letter checks
  have inside : ∀ e : Char, z ∈ before ++ e :: after := by
    intro e
    rw [List.mem_append, List.mem_cons]
    exact here.imp_right .inr
  exact Bech32.eq_of_shared_letter one two (by simp) (by simp) (inside c) (inside d) isLetter same

/-- Accepted texts that differ in one place at most are equal there. -/
lemma eq_of_parse_replaced {text other : String} {before after : List Char} {c d : Char}
    {a b : Address} (accepted : parse text = .ok a) (accepted' : parse other = .ok b)
    (whole : text.toList = before ++ c :: after) (whole' : other.toList = before ++ d :: after) :
    c = d := by
  obtain ⟨oneCase, symbols, _, checks⟩ := exists_checks_of_parse accepted
  obtain ⟨oneCase', others, _, checks'⟩ := exists_checks_of_parse accepted'
  rw [whole] at oneCase checks
  rw [whole'] at oneCase' checks'
  apply checks.eq_of_toLower_eq oneCase oneCase'
  rw [lower_append_cons] at checks checks'
  exact checks.substitution checks'

/-- Accepted texts in which two neighbours are exchanged have them equal. -/
lemma eq_of_parse_exchanged {text other : String} {before after : List Char} {c d : Char}
    {a b : Address} (accepted : parse text = .ok a) (accepted' : parse other = .ok b)
    (whole : text.toList = before ++ c :: d :: after)
    (whole' : other.toList = before ++ d :: c :: after) : c = d := by
  obtain ⟨oneCase, symbols, _, checks⟩ := exists_checks_of_parse accepted
  obtain ⟨_, others, _, checks'⟩ := exists_checks_of_parse accepted'
  rw [whole, lower_append_cons] at checks
  rw [whole', lower_append_cons] at checks'
  have same := checks.transposition checks'
  rw [whole] at oneCase
  exact Bech32.eq_of_mixesCase_eq_false oneCase (by simp) (by simp) same

/-- A symbol that is replaced by another one in a text that keeps one case breaks the checksum. -/
lemma parse_symbol_replaced {text : String} {front before after : List Char} {c d : Char}
    {a : Address} (accepted : parse text = .ok a)
    (whole : text.toList = front ++ separator :: (before ++ c :: after)) (ne : d ≠ c)
    (isSymbol : d.toLower ∈ Bech32.alphabet)
    (oneCase : mixesCase (front ++ separator :: (before ++ d :: after)) = false) :
    parse (String.ofList (front ++ separator :: (before ++ d :: after)))
      = .error (.text .invalidChecksum) := by
  obtain ⟨oneCase', symbols, enough, checks⟩ := exists_checks_of_parse accepted
  rw [whole] at checks oneCase'
  obtain ⟨hrp, payload⟩ := checks.parts
  rw [lower_append_cons] at payload
  obtain ⟨left, v, right, rfl, leftEq, vEq, rightEq⟩ := split_letters payload
  obtain ⟨w, smallW, wEq⟩ := Bech32.exists_letter_eq isSymbol
  -- The same symbol would be the same letter in the other case, which the rest of the text forbids.
  have different : v ≠ w := by
    intro same
    rw [same, wEq] at vEq
    have regroup : ∀ e, front ++ separator :: (before ++ e :: after)
        = (front ++ separator :: before) ++ e :: after := by simp
    rw [regroup] at checks oneCase oneCase'
    exact ne (checks.eq_of_toLower_eq oneCase' oneCase vEq.symm).symm
  obtain ⟨smallLeft, smallRight⟩ := List.forall_mem_append.1 checks.small
  have spells : Bech32.Spells (left ++ w :: right) (lower (before ++ d :: after)) := by
    refine ⟨List.forall_mem_append.2 ⟨smallLeft,
      List.forall_mem_cons.2 ⟨smallW, (List.forall_mem_cons.1 smallRight).2⟩⟩, ?_⟩
    rw [lower_append_cons, List.map_append, List.map_cons, leftEq, rightEq, wEq]
  have invalid : ¬ Checksum.verify a.network.hrp (left ++ w :: right) = true := by
    intro valid
    exact different (eq_of_verify_replaced checks.valid valid)
  have decoded : Bech32.decode (String.ofList (front ++ separator :: (before ++ d :: after)))
      = .error .invalidChecksum := by
    rw [@Bech32.decode_eq_of_spells _ a.network.hrp (lower (before ++ d :: after))
      (left ++ w :: right), if_neg invalid]
    · rw [String.toList_ofList]
      exact oneCase
    · rw [String.toList_ofList, lower_append_cons, hrp]
      rfl
    · exact a.network.hrp_ne_nil
    · exact a.network.printable_hrp
    · exact spells
    · simpa using enough
  rw [parse, decoded]
  rfl

/-- Under the human readable part of another network the same payload is rejected. -/
lemma network_eq_of_parse {text other : String} {front front' payload : List Char}
    {a b : Address} (accepted : parse text = .ok a) (accepted' : parse other = .ok b)
    (whole : text.toList = front ++ separator :: payload)
    (whole' : other.toList = front' ++ separator :: payload) : a.network = b.network := by
  obtain ⟨_, symbols, _, checks⟩ := exists_checks_of_parse accepted
  obtain ⟨_, others, _, checks'⟩ := exists_checks_of_parse accepted'
  rw [whole] at checks
  rw [whole'] at checks'
  have same := Bech32.map_letter_injective checks.small checks'.small
    (checks.parts.2.symm.trans checks'.parts.2)
  exact Network.eq_of_verify checks.valid (same ▸ checks'.valid)

/-- In an accepted text, no character can be replaced by another one and no two neighbours that
differ can be exchanged without the text being rejected; neither can the human readable part be
replaced by that of another network. A symbol behind the separator that is replaced by another one,
without a second letter case, is rejected for the checksum. -/
theorem typing_errors_are_rejected {text : String} {a : Address} (accepted : parse text = .ok a) :
    (∀ (before after : List Char) (c d : Char), text.toList = before ++ c :: after → d ≠ c →
      ∃ cause, parse (String.ofList (before ++ d :: after)) = .error cause) ∧
    (∀ (before after : List Char) (c d : Char), text.toList = before ++ c :: d :: after → d ≠ c →
      ∃ cause, parse (String.ofList (before ++ d :: c :: after)) = .error cause) ∧
    (∀ (front before after : List Char) (c d : Char),
      text.toList = front ++ separator :: (before ++ c :: after) → d ≠ c →
      d.toLower ∈ Bech32.alphabet →
      mixesCase (front ++ separator :: (before ++ d :: after)) = false →
      parse (String.ofList (front ++ separator :: (before ++ d :: after)))
        = .error (.text .invalidChecksum)) ∧
    (∀ (front payload hrp : List Char) (n : Network), text.toList = front ++ separator :: payload →
      n ≠ a.network → lower hrp = n.hrp.toList →
      ∃ cause, parse (String.ofList (hrp ++ separator :: payload)) = .error cause) := by
  refine ⟨?_, ?_, ?_, ?_⟩
  · intro before after c d whole ne
    apply Outcome.exists_error_of_ne_ok
    intro b accepted'
    exact ne (eq_of_parse_replaced accepted accepted' whole String.toList_ofList).symm
  · intro before after c d whole ne
    apply Outcome.exists_error_of_ne_ok
    intro b accepted'
    exact ne (eq_of_parse_exchanged accepted accepted' whole String.toList_ofList).symm
  · intro front before after c d whole ne isSymbol oneCase
    exact parse_symbol_replaced accepted whole ne isSymbol oneCase
  · intro front payload hrp n whole ne inLower
    apply Outcome.exists_error_of_ne_ok
    intro b accepted'
    have same := network_eq_of_parse accepted accepted' whole String.toList_ofList
    obtain ⟨_, _, _, checks⟩ := exists_checks_of_parse accepted'
    rw [String.toList_ofList] at checks
    have hrpEq := inLower.symm.trans checks.parts.1
    rw [n.toList_hrp, b.network.toList_hrp] at hrpEq
    -- The prefix spells both networks, so they are one, against the assumption.
    have third := (List.cons.inj (List.cons.inj (List.cons.inj hrpEq).2).2).1
    exact ne ((Network.third_injective third).trans same.symm)

/-- A plain address on the main network, whose last character is replaced. -/
theorem typing_errors_are_rejected_plain :
    parse "xel:ys4peuzztwl67rzhsdu0yxfzwcfmgt85uu53hycpeeary7n8qvysqmxznt0"
      = .ok (plain ⟨[36, 42, 28, 240, 66, 91, 191, 175, 12, 87, 131, 120, 242, 25, 34, 118, 19, 180,
          44, 244, 231, 41, 27, 147, 1, 206, 122, 50, 122, 103, 3, 9], rfl⟩ .mainnet) ∧
    ∃ cause, parse (String.ofList
      ("xel:ys4peuzztwl67rzhsdu0yxfzwcfmgt85uu53hycpeeary7n8qvysqmxznt".toList ++ ['9']))
        = .error cause := by
  have accepted : parse "xel:ys4peuzztwl67rzhsdu0yxfzwcfmgt85uu53hycpeeary7n8qvysqmxznt0"
      = .ok (plain ⟨[36, 42, 28, 240, 66, 91, 191, 175, 12, 87, 131, 120, 242, 25, 34, 118, 19, 180,
          44, 244, 231, 41, 27, 147, 1, 206, 122, 50, 122, 103, 3, 9], rfl⟩ .mainnet) := by
    refine parse_eq_ok_iff_format.2 ⟨nofun, ?_, ?_⟩
    · decide +kernel
    · decide +kernel
  exact ⟨accepted, (typing_errors_are_rejected accepted).1 _ [] '0' '9' (by decide +kernel)
    (by decide)⟩

end Address

end AddressCodec
