import AddressCodec.Proofs.Json.Elements

/-!
# Repeated keys in JSON

The text of a tree that repeats a key is refused for a key that it repeats
(`Element.parser_refuses`). The first tree of a list that repeats a key decides, for those in front
of it are read; the keys of a map count once all its trees are read.
-/

namespace AddressCodec.Element

open Json.Parser

variable {Next : List Char → Prop} {depth : Nat} {failure : Json.Failure WireError}

/-- A key that is found repeated was known before, or stands twice in the list. -/
lemma of_firstRepeated? {known keys : List Value} {key : Value}
    (found : firstRepeated? known keys = some key) :
    key ∈ keys ∧ key ∈ known ∨ List.Duplicate key keys := by
  induction keys generalizing known with
  | nil => cases found
  | cons first keys ih =>
    rw [firstRepeated?] at found
    by_cases repeated : known.contains first
    · rw [if_pos repeated] at found
      cases found
      exact .inl ⟨List.mem_cons_self, List.contains_iff_mem.1 repeated⟩
    · rw [if_neg repeated] at found
      rcases ih found with ⟨later, earlier⟩ | twice
      · rcases List.mem_cons.1 earlier with rfl | earlier
        · exact .inr later.duplicate_cons_self
        · exact .inl ⟨List.mem_cons_of_mem first later, earlier⟩
      · exact .inr (twice.duplicate_cons first)

/-- A map with repeated keys is refused for one of them. -/
lemma answers_mapOf_error {entries : List (Value × Element)}
    (fault : ¬ (entries.map Prod.fst).Nodup) :
    ∃ key, List.Duplicate key (entries.map Prod.fst) ∧
      Answers Next (mapOf entries) [] (.error (.rejected (.duplicateKey key))) := by
  cases found : firstRepeated? [] (entries.map Prod.fst) with
  | none => exact absurd (firstRepeated?_eq_none_iff.1 found).1 fault
  | some key =>
    refine ⟨key, (of_firstRepeated? found).resolve_left ?_, ?_⟩
    · intro known
      cases known.2
    · rw [mapOf, found]
      exact fun rest _ => rfl

/-- A list on which not everything has a property begins with what has it up to one that has not. -/
lemma exists_first_not {α : Type} {p : α → Prop} {values : List α} (fault : ¬ ∀ a ∈ values, p a) :
    ∃ good bad more, values = good ++ bad :: more ∧ (∀ a ∈ good, p a) ∧ ¬ p bad := by
  induction values with
  | nil => exact absurd (fun a => nofun) fault
  | cons a values ih =>
    by_cases first : p a
    · rw [List.forall_mem_cons, not_and] at fault
      obtain ⟨good, bad, more, rfl, before, fails⟩ := ih (fault first)
      exact ⟨a :: good, bad, more, rfl, List.forall_mem_cons.2 ⟨first, before⟩, fails⟩
    · exact ⟨[], a, values, rfl, fun a => nofun, first⟩

/-- A list of items fails as the first item does that is not read. -/
lemma answers_items_error {good more : List Element} {bad : Element}
    (read : ∀ e ∈ good, Answers Always (parser depth) e.toJson.chars (.ok e))
    (fails : Answers Always (parser depth) bad.toJson.chars (.error failure)) :
    Answers Next (list (parser depth)) (Json.list (itemsJson (good ++ bad :: more))).chars
      (.error failure) := by
  rw [itemsJson_chars]
  exact answers_list_error _ (fun e _ => opened_toJson e) (fun e mem => (read e mem).of_always)
    fails.of_always

/-- A list of entries fails as the element of the first entry does that is not read. -/
lemma answers_entries_error {good more : List (Value × Element)} {bad : Value × Element}
    (shallow : ∀ keyed ∈ good ++ bad :: more, keyed.2.toJson.nesting + 1 ≤ depth)
    (read : ∀ keyed ∈ good, Answers Always (parser (depth - 1)) keyed.2.toJson.chars (.ok keyed.2))
    (fails : Answers Always (parser (depth - 1)) bad.2.toJson.chars (.error failure)) :
    Answers Next (list (entry depth)) (Json.list (entriesJson (good ++ bad :: more))).chars
      (.error failure) := by
  rw [entriesJson_chars]
  refine answers_list_error _ (fun keyed _ => ⟨_, .inl rfl⟩) ?_ ?_
  · intro keyed mem
    exact answers_entry (shallow keyed (List.mem_append_left _ mem)) (read keyed mem)
  · exact answers_entry (shallow bad (List.mem_append_right _ List.mem_cons_self)) fails

/-- An element with repeated keys is refused for one of them, in any depth that it does not exceed.
-/
theorem parser_refuses {e : Element} (fault : ¬ e.DistinctKeys)
    (shallow : e.toJson.nesting ≤ depth) :
    ∃ key, e.Repeats key ∧
      Answers Always (parser depth) e.toJson.chars (.error (.rejected (.duplicateKey key))) := by
  induction depth using Nat.strongRecOn generalizing e with
  | ind depth ih =>
    obtain ⟨depth, rfl⟩ : ∃ d, depth = d + 2 :=
      ⟨depth - 2, by have := two_le_nesting e; omega⟩
    cases e with
    | value v => exact absurd trivial fault
    | array items =>
      rw [DistinctKeys, itemsDistinct_iff] at fault
      rw [nesting_array_le_iff] at shallow
      -- The first item with repeated keys is the one at which reading stops.
      obtain ⟨good, bad, more, rfl, distinct, fault⟩ := exists_first_not fault
      have here : bad ∈ good ++ bad :: more := List.mem_append_right _ List.mem_cons_self
      have read e (mem : e ∈ good) :=
        parser_answers (distinct e mem) (shallow e (List.mem_append_left _ mem))
      obtain ⟨key, repeats, fails⟩ := ih depth (by omega) fault (shallow bad here)
      refine ⟨key, .item here repeats, answers_node rfl ?_⟩
      exact (answers_items_error read fails).bind_error_append
    | fields entries =>
      rw [nesting_fields_le_iff] at shallow
      have inner keyed (mem : keyed ∈ entries) := Nat.le_sub_of_add_le (shallow keyed mem)
      -- Only where the keys below are distinct is the map read to its end and its own keys looked
      -- at.
      by_cases each : ∀ keyed ∈ entries, keyed.2.DistinctKeys
      · have twice : ¬ (entries.map Prod.fst).Nodup :=
          fun nodup => fault ⟨nodup, entriesDistinct_iff.2 each⟩
        have read keyed (mem : keyed ∈ entries) :=
          parser_answers (each keyed mem) (inner keyed mem)
        obtain ⟨key, twice, fails⟩ := answers_mapOf_error twice
        refine ⟨key, .here twice, answers_node rfl ((answers_entries shallow read).bind ?_)⟩
        rw [answers_require_bind (by decide)]
        exact fails
      · obtain ⟨good, bad, more, rfl, distinct, fault⟩ := exists_first_not each
        have here : bad ∈ good ++ bad :: more := List.mem_append_right _ List.mem_cons_self
        have read keyed (mem : keyed ∈ good) :=
          parser_answers (distinct keyed mem) (inner keyed (List.mem_append_left _ mem))
        obtain ⟨key, repeats, fails⟩ := ih (depth - 1) (by omega) fault (inner bad here)
        refine ⟨key, .inside here repeats, answers_node rfl ?_⟩
        exact (answers_entries_error shallow read fails).bind_error_append

/-- The text of an element with repeated keys is refused for one of them. -/
lemma ofJsonText_jsonText_of_repeats {e : Element} (fault : ¬ e.DistinctKeys)
    (shallow : e.toJson.nesting ≤ Json.maxNesting) :
    ∃ key, e.Repeats key ∧ ofJsonText e.jsonText = .error (.rejected (.duplicateKey key)) := by
  obtain ⟨key, repeats, fails⟩ := parser_refuses fault shallow
  have text : e.jsonText.toList = e.toJson.chars := String.toList_ofList
  refine ⟨key, repeats, whole_of_answers ?_⟩
  rw [text]
  exact fails.of_always

end AddressCodec.Element
