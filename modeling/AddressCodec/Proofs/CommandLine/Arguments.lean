import AddressCodec.CommandLine.Arguments
import AddressCodec.Proofs.Outcome
import Mathlib.Data.List.Nodup
import Mathlib.Data.List.TakeWhile
import Mathlib.Tactic.Common

/-!
# Spelling a command line

The parts of a command line are spelled as arguments in more than one way (`Spelled`). They are
found again from each of them if no text among them looks like an option (`tokens_of_spelled`).
-/

namespace AddressCodec.CommandLine

variable {argument name value : String}

/-! ## What an argument looks like -/

/-- An argument that starts with no dash is plain. -/
lemma Word.of_eq_plain (other : argument.toList.head? ≠ some '-') : Word.of argument = .plain := by
  rw [Word.of]
  split
  · rename_i form
    rw [form] at other
    exact absurd rfl other
  · rename_i form
    rw [form] at other
    exact absurd rfl other
  · rename_i form
    rw [form] at other
    exact absurd rfl other
  · rfl

/-- Behind two dashes stands an option's name, up to an equals sign and a value if there is one. -/
lemma Word.of_eq_long {rest : List Char} (form : argument.toList = '-' :: '-' :: rest)
    (ne : rest ≠ []) : Word.of argument = match rest.dropWhile (· != '=') with
      | _ :: value => long (String.ofList (rest.takeWhile (· != '='))) (some (String.ofList value))
      | [] => long (String.ofList (rest.takeWhile (· != '='))) none := by
  obtain ⟨c, rest, rfl⟩ := List.exists_cons_of_ne_nil ne
  rw [Word.of, form]
  rfl

section
variable (noSign : '=' ∉ name.toList)
include noSign

/-- A name without an equals sign is read to its end. -/
lemma ne_sign_of_mem : ∀ c ∈ name.toList, (c != '=') = true := by
  intro c mem
  refine bne_iff_ne.2 ?_
  rintro rfl
  exact noSign mem

/-- An option and its value in one argument are told apart at the equals sign. -/
lemma Word.of_attached (value : String) :
    Word.of ("--" ++ name ++ "=" ++ value) = .long name (some value) := by
  have form : ("--" ++ name ++ "=" ++ value).toList
      = '-' :: '-' :: (name.toList ++ '=' :: value.toList) := by
    simp [String.toList_append]
  have inside := ne_sign_of_mem noSign
  rw [Word.of_eq_long form (List.append_ne_nil_of_right_ne_nil _ (List.cons_ne_nil _ _)),
    List.dropWhile_append_of_pos inside, List.takeWhile_append_of_pos inside]
  simp

/-- An option by itself is a name without a value. -/
lemma Word.of_separate (ne : name ≠ "") : Word.of ("--" ++ name) = .long name none := by
  have form : ("--" ++ name).toList = '-' :: '-' :: name.toList := by
    simp [String.toList_append]
  have inside := ne_sign_of_mem noSign
  have dropped : name.toList.dropWhile (· != '=') = [] := List.dropWhile_eq_nil_iff.2 inside
  have kept : name.toList.takeWhile (· != '=') = name.toList := List.takeWhile_eq_self_iff.2 inside
  rw [Word.of_eq_long form (mt String.toList_eq_nil_iff.1 ne), dropped, kept, String.ofList_toList]

end

/-! ## Parts and their spellings -/

/-- Arguments that spell parts of a command line. -/
inductive Spelled : List Token → List String → Prop
  | nil : Spelled [] []
  | operand {ts : List Token} {arguments : List String} (text : String) :
    Spelled ts arguments → Spelled (.operand text :: ts) (text :: arguments)
  | attached {ts : List Token} {arguments : List String} (name value : String) :
    Spelled ts arguments →
      Spelled (.option name value :: ts) (("--" ++ name ++ "=" ++ value) :: arguments)
  | separate {ts : List Token} {arguments : List String} (name value : String) :
    Spelled ts arguments →
      Spelled (.option name value :: ts) (("--" ++ name) :: value :: arguments)
  | ended (texts : List String) : Spelled (texts.map .trailing) ("--" :: texts)

/-- A part none of whose texts looks like an option, and whose name ends where it should. -/
def Token.Clear : Token → Prop
  | .option name value => name ≠ "" ∧ '=' ∉ name.toList ∧ Word.of value = .plain
  | .operand text => Word.of text = .plain
  | .trailing _ => True

/-- Every way to spell a list of tokens is read back as these tokens. -/
theorem tokens_of_spelled {ts : List Token} {arguments : List String}
    (spelled : Spelled ts arguments) (clear : ∀ t ∈ ts, t.Clear) : tokens arguments = .ok ts := by
  induction spelled with
  | nil => rfl
  | operand text _ ih =>
    obtain ⟨plain, clear⟩ := List.forall_mem_cons.1 clear
    rw [tokens, plain, ih clear]
    rfl
  | attached name value _ ih =>
    obtain ⟨⟨-, noSign, -⟩, clear⟩ := List.forall_mem_cons.1 clear
    rw [tokens, Word.of_attached noSign, ih clear]
    rfl
  | separate name value _ ih =>
    obtain ⟨⟨ne, noSign, plain⟩, clear⟩ := List.forall_mem_cons.1 clear
    rw [tokens, Word.of_separate noSign ne]
    simp only [plain, if_true, ih clear]
    rfl
  | ended texts => rfl

/-- The parts that stand for options. -/
def optionTokens (given : List (String × String)) : List Token :=
  given.map fun o => .option o.1 o.2

/-- The options of tokens made of options are these options. -/
@[simp] lemma options_optionTokens (given : List (String × String)) :
    options (optionTokens given) = given := by
  induction given with
  | nil => rfl
  | cons o given ih => exact congrArg (o :: ·) ih

/-- A command line comes apart at its first operand, before which only options stand. -/
lemma ofArguments_of_tokens {arguments : List String} {leading : List (String × String)}
    {command : String} {rest : List Token}
    (taken : tokens arguments = .ok (optionTokens leading ++ .operand command :: rest)) :
    Parts.ofArguments arguments = .ok ⟨leading, command, rest⟩ := by
  rw [Parts.ofArguments, taken]
  refine Outcome.bind_eq_ok_iff.2 ⟨_, rfl, ?_⟩
  dsimp only
  rw [List.dropWhile_append_of_pos, List.takeWhile_append_of_pos]
  · simp only [List.dropWhile_cons_of_neg, List.takeWhile_cons_of_neg, Bool.false_eq_true,
      not_false_eq_true, List.append_nil, options_optionTokens]
    rfl
  · exact List.forall_mem_map.2 fun _ _ => rfl
  · exact List.forall_mem_map.2 fun _ _ => rfl

/-! ## Options -/

/-- Options pass exactly if each of them is known and none is given twice. -/
lemma checkOptions_eq_ok_iff {known : List String} {given : List (String × String)} :
    checkOptions known given = .ok () ↔
      (∀ o ∈ given, o.1 ∈ known) ∧ (given.map Prod.fst).Nodup := by
  rw [checkOptions]
  split
  · rename_i name value found
    have unknown := List.find?_some found
    have mem := List.mem_of_find?_eq_some found
    refine iff_of_false ?_ ?_
    · intro passed
      cases passed
    · rintro ⟨all, -⟩
      simp [all _ mem] at unknown
  · rename_i found
    have all : ∀ o ∈ given, o.1 ∈ known := by
      intro o mem
      have passed := List.find?_eq_none.1 found o mem
      simpa using passed
    by_cases nodup : (given.map Prod.fst).Nodup
    · simp only [nodup, not_true_eq_false, if_false]
      exact iff_of_true rfl ⟨all, trivial⟩
    · simp only [nodup, not_false_eq_true, if_true]
      refine iff_of_false ?_ fun both => both.2
      intro passed
      cases passed

end AddressCodec.CommandLine
