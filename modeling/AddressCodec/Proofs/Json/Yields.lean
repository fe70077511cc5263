import AddressCodec.Json.Record
import AddressCodec.Proofs.Outcome

/-!
# What parsers can yield

What is known of every result of a parser, whatever text it was read from (`Yields`), comes from the
results of its steps: the items of a list are results of the item's parser (`Yields.list`), and the
parts of a pair of theirs (`Yields.pair`).
-/

namespace AddressCodec.Json.Parser

variable {ε α β σ : Type}

/-- From some text, a parser yields a result. -/
def Yields (p : Parser ε α) (a : α) : Prop :=
  ∃ cs rest, p.run cs = .ok (a, rest)

/-- A result comes from a result of the first step. -/
lemma Yields.of_bind {p : Parser ε α} {f : α → Parser ε β} {b : β} (yields : Yields (p >>= f) b) :
    ∃ a, Yields p a ∧ Yields (f a) b := by
  obtain ⟨cs, rest, run⟩ := yields
  rw [StateT.run_bind, Outcome.bind_eq_ok_iff] at run
  obtain ⟨⟨a, mid⟩, first, second⟩ := run
  exact ⟨a, ⟨cs, mid, first⟩, mid, rest, second⟩

lemma Yields.eq_of_pure {a b : α} (yields : Yields (pure a : Parser ε α) b) : b = a := by
  obtain ⟨cs, rest, run⟩ := yields
  cases run
  rfl

/-- A failure yields nothing. -/
lemma not_yields_fail {a : α} : ¬ Yields (fail : Parser ε α) a := by
  intro ⟨cs, rest, run⟩
  cases run

/-- A refusal yields nothing. -/
lemma not_yields_reject {cause : ε} {a : α} : ¬ Yields (reject cause : Parser ε α) a := by
  intro ⟨cs, rest, run⟩
  cases run

/-- What a whole text is read as is a result of the parser. -/
lemma yields_of_whole {p : Parser ε α} {text : String} {a : α} (read : p.whole text = .ok a) :
    Yields p a := by
  rw [whole, StateT.run'] at read
  obtain ⟨⟨b, rest⟩, run, rfl⟩ := Outcome.map_eq_ok_iff.1 read
  obtain ⟨c, yields, more⟩ := Yields.of_bind ⟨_, _, run⟩
  obtain ⟨_, _, last⟩ := more.of_bind
  exact last.eq_of_pure ▸ yields

section
variable {close : Char} {step : σ → Parser ε σ} {s u : σ} (Holds : σ → Prop)

/-- What every step of a sequence preserves holds at its end. -/
lemma Yields.gatherWithin {count : Nat}
    (yields : Yields (gatherWithin close step count s) u) (start : Holds s)
    (kept : ∀ s t, Holds s → Yields (step s) t → Holds t) : Holds u := by
  induction count generalizing s with
  | zero => exact absurd yields not_yields_fail
  | succ count ih =>
    rw [Parser.gatherWithin] at yields
    obtain ⟨t, stepped, yields⟩ := yields.of_bind
    have holds := kept s t start stepped
    obtain ⟨c, -, yields⟩ := yields.of_bind
    split at yields
    · exact ih yields holds
    · split at yields
      · exact yields.eq_of_pure ▸ holds
      · exact absurd yields not_yields_fail

/-- What holds at the start and is kept by each step holds of what is gathered. -/
lemma Yields.gather (yields : Yields (gather close step s) u) (start : Holds s)
    (kept : ∀ s t, Holds s → Yields (step s) t → Holds t) : Holds u := by
  rw [Parser.gather] at yields
  obtain ⟨_, -, yields⟩ := yields.of_bind
  obtain ⟨closed, -, yields⟩ := yields.of_bind
  split at yields
  · exact yields.eq_of_pure ▸ start
  · obtain ⟨text, -, yields⟩ := yields.of_bind
    exact yields.gatherWithin Holds start kept

end

/-- The items of a list are results of the item's parser. -/
theorem Yields.list {item : Parser ε α} {values : List α} (yields : Yields (list item) values) :
    ∀ a ∈ values, Yields item a := by
  rw [Parser.list] at yields
  obtain ⟨_, -, yields⟩ := yields.of_bind
  obtain ⟨read, gathered, last⟩ := yields.of_bind
  have all : ∀ a ∈ read, Yields item a := by
    refine gathered.gather (fun read => ∀ a ∈ read, Yields item a) nofun ?_
    intro known longer known_yield stepped
    obtain ⟨a, one, last⟩ := stepped.of_bind
    rw [last.eq_of_pure]
    exact List.forall_mem_cons.2 ⟨one, known_yield⟩
  rw [last.eq_of_pure]
  intro a mem
  exact all a (List.mem_reverse.1 mem)

/-- The parts of a pair that are there are results of what reads them. -/
def PartsYield (first : Parser ε α) (second : Parser ε β) (parts : Option α × Option β) : Prop :=
  (∀ a ∈ parts.1, Yields first a) ∧ ∀ b ∈ parts.2, Yields second b

/-- A member that is read into its place is a result of what reads it. -/
lemma Yields.member {first : Parser ε α} {second : Parser ε β} {firstName secondName : String}
    {parts more : Option α × Option β} (known : PartsYield first second parts)
    (yields : Yields (member firstName secondName first second parts) more) :
    PartsYield first second more := by
  obtain ⟨a?, b?⟩ := parts
  obtain ⟨here, there⟩ := known
  rw [Parser.member] at yields
  obtain ⟨name, -, yields⟩ := yields.of_bind
  obtain ⟨_, -, yields⟩ := yields.of_bind
  -- The name decides: the first part, the second part, or a member that is passed over.
  split at yields
  · split at yields
    · obtain ⟨_, failed, -⟩ := yields.of_bind
      exact absurd failed not_yields_fail
    · obtain ⟨a, one, last⟩ := yields.of_bind
      rw [last.eq_of_pure]
      refine ⟨?_, there⟩
      intro _ same
      cases same
      exact one
  · split at yields
    · split at yields
      · obtain ⟨_, failed, -⟩ := yields.of_bind
        exact absurd failed not_yields_fail
      · obtain ⟨b, one, last⟩ := yields.of_bind
        rw [last.eq_of_pure]
        refine ⟨here, ?_⟩
        intro _ same
        cases same
        exact one
    · obtain ⟨_, -, last⟩ := yields.of_bind
      rw [last.eq_of_pure]
      exact ⟨here, there⟩

/-- The parts of a pair are results of what reads them, in either form of the pair. -/
theorem Yields.pair {first : Parser ε α} {second : Parser ε β} {firstName secondName : String}
    {ab : α × β} (yields : Yields (pair firstName secondName first second) ab) :
    Yields first ab.1 ∧ Yields second ab.2 := by
  rw [Parser.pair] at yields
  obtain ⟨c, -, yields⟩ := yields.of_bind
  split at yields
  · rw [listedPair] at yields
    obtain ⟨a, one, yields⟩ := yields.of_bind
    obtain ⟨_, -, yields⟩ := yields.of_bind
    obtain ⟨b, other, yields⟩ := yields.of_bind
    obtain ⟨_, -, last⟩ := yields.of_bind
    rw [last.eq_of_pure]
    exact ⟨one, other⟩
  · rw [namedPair] at yields
    obtain ⟨parts, gathered, yields⟩ := yields.of_bind
    have known : PartsYield first second parts := by
      refine gathered.gather (PartsYield first second) ⟨nofun, nofun⟩ ?_
      intro parts more known stepped
      exact stepped.member known
    split at yields
    · rw [yields.eq_of_pure]
      exact ⟨known.1 _ rfl, known.2 _ rfl⟩
    · exact absurd yields not_yields_fail
  · exact absurd yields not_yields_fail

end AddressCodec.Json.Parser
