import AddressCodec.Element.Basic
import Mathlib.Data.List.Duplicate
import Mathlib.Data.List.Induction
import Mathlib.Data.List.Nodup
import Mathlib.Tactic.Common

/-!
# Keys of maps

In a list of pairs whose keys are distinct, the value under a key is the one it is paired with
(`Lookup.eq_some_iff_mem`), wherever the pair stands (`Lookup.eq_of_perm`).
A tree has distinct keys exactly if no key stands twice in one of its maps
(`Element.distinctKeys_iff`). A map that is built by inserting entries in order has their keys, each
where it stood first and with the element it was last given (`Element.exists_ofEntries_eq`).
-/

/-! ## Looking up keys -/

namespace AddressCodec.Lookup

variable {α β : Type} [BEq α] [LawfulBEq α] {pairs more : List (α × β)} {key : α} {value : β}

/-- Without repeated keys, what is found under a key is what stands with it. -/
lemma eq_some_iff_mem (nodup : (pairs.map Prod.fst).Nodup) :
    pairs.lookup key = some value ↔ (key, value) ∈ pairs := by
  induction pairs with
  | nil => simp
  | cons pair pairs ih =>
    obtain ⟨other, old⟩ := pair
    obtain ⟨new, nodup⟩ := List.nodup_cons.1 nodup
    rw [List.lookup_cons, List.mem_cons]
    by_cases same : key = other
    · subst same
      have absent : (key, value) ∉ pairs := fun mem => new (List.mem_map.2 ⟨_, mem, rfl⟩)
      simp [absent, eq_comm]
    · rw [beq_eq_false_iff_ne.2 same, ih nodup]
      simp [same]

/-- Without repeated keys, the order of the pairs does not change what is found. -/
lemma eq_of_perm (perm : pairs.Perm more) (nodup : (more.map Prod.fst).Nodup) (key : α) :
    pairs.lookup key = more.lookup key := by
  ext value
  rw [eq_some_iff_mem nodup, eq_some_iff_mem, perm.mem_iff]
  exact (perm.map Prod.fst).nodup_iff.2 nodup

end AddressCodec.Lookup

namespace AddressCodec.Element

variable {items : List Element} {entries : List (Value × Element)} {key : Value}

/-- Items have no repeated keys exactly if each of them has none. -/
lemma itemsDistinct_iff : ItemsDistinct items ↔ ∀ e ∈ items, e.DistinctKeys := by
  induction items with
  | nil => simp [ItemsDistinct]
  | cons e items ih => rw [ItemsDistinct, ih, List.forall_mem_cons]

/-- Entries have no repeated keys below them exactly if each element has none. -/
lemma entriesDistinct_iff : EntriesDistinct entries ↔ ∀ entry ∈ entries, entry.2.DistinctKeys := by
  induction entries with
  | nil => simp [EntriesDistinct]
  | cons entry entries ih => rw [EntriesDistinct, ih, List.forall_mem_cons]

/-! ## Repeated keys -/

/-- A key stands twice in some map of a tree. -/
inductive Repeats (key : Value) : Element → Prop
  | here {entries : List (Value × Element)} :
      List.Duplicate key (entries.map Prod.fst) → Repeats key (fields entries)
  | item {items : List Element} {e : Element} :
      e ∈ items → Repeats key e → Repeats key (array items)
  | inside {entries : List (Value × Element)} {entry : Value × Element} :
      entry ∈ entries → Repeats key entry.2 → Repeats key (fields entries)

/-- A tree that repeats a key does not have distinct keys. -/
lemma Repeats.not_distinctKeys {e : Element} (repeats : Repeats key e) : ¬ e.DistinctKeys := by
  induction repeats with
  | here twice =>
    intro distinct
    exact twice.not_nodup distinct.1
  | item mem _ ih =>
    intro distinct
    exact ih (itemsDistinct_iff.1 distinct _ mem)
  | inside mem _ ih =>
    intro distinct
    exact ih (entriesDistinct_iff.1 distinct.2 _ mem)

mutual

/-- A tree without distinct keys repeats one. -/
lemma exists_repeats : ∀ e : Element, ¬ e.DistinctKeys → ∃ key, Repeats key e
  | value v, fault => absurd trivial fault
  | array items, fault => by
    obtain ⟨e, mem, key, repeats⟩ := exists_item_repeats items fault
    exact ⟨key, .item mem repeats⟩
  | fields entries, fault => by
    by_cases nodup : (entries.map Prod.fst).Nodup
    · have inside : ¬ EntriesDistinct entries := fun distinct => fault ⟨nodup, distinct⟩
      obtain ⟨entry, mem, key, repeats⟩ := exists_entry_repeats entries inside
      exact ⟨key, .inside mem repeats⟩
    · obtain ⟨key, twice⟩ := List.exists_duplicate_iff_not_nodup.2 nodup
      exact ⟨key, .here twice⟩

/-- Of items without distinct keys, one repeats a key. -/
lemma exists_item_repeats :
    ∀ items : List Element, ¬ ItemsDistinct items → ∃ e ∈ items, ∃ key, Repeats key e
  | [], fault => absurd trivial fault
  | e :: items, fault => by
    by_cases distinct : e.DistinctKeys
    · have later : ¬ ItemsDistinct items := fun rest => fault ⟨distinct, rest⟩
      obtain ⟨e', mem, found⟩ := exists_item_repeats items later
      exact ⟨e', List.mem_cons_of_mem e mem, found⟩
    · exact ⟨e, List.mem_cons_self, exists_repeats e distinct⟩

/-- Of entries without distinct keys below them, the element of one repeats a key. -/
lemma exists_entry_repeats : ∀ entries : List (Value × Element), ¬ EntriesDistinct entries →
    ∃ entry ∈ entries, ∃ key, Repeats key entry.2
  | [], fault => absurd trivial fault
  | (key, e) :: entries, fault => by
    by_cases distinct : e.DistinctKeys
    · have later : ¬ EntriesDistinct entries := fun rest => fault ⟨distinct, rest⟩
      obtain ⟨entry, mem, found⟩ := exists_entry_repeats entries later
      exact ⟨entry, List.mem_cons_of_mem _ mem, found⟩
    · exact ⟨(key, e), List.mem_cons_self, exists_repeats e distinct⟩

end

/-- A tree has distinct keys exactly if no map of it has a key twice. -/
lemma distinctKeys_iff {e : Element} : e.DistinctKeys ↔ ∀ key, ¬ Repeats key e := by
  refine ⟨fun distinct key repeats => repeats.not_distinctKeys distinct, ?_⟩
  intro none
  by_contra fault
  obtain ⟨key, repeats⟩ := exists_repeats e fault
  exact none key repeats

/-! ## Maps built by insertion -/

/-- A new key is put at the end. -/
lemma insert_of_notMem (new : key ∉ entries.map Prod.fst) (e : Element) :
    insert key e entries = entries ++ [(key, e)] := by
  induction entries with
  | nil => rfl
  | cons entry entries ih =>
    rw [List.map_cons, List.mem_cons, not_or] at new
    rw [insert, if_neg (Ne.symm new.1), ih new.2, List.cons_append]

/-- A known key is put in its place. -/
lemma keys_insert_of_mem (known : key ∈ entries.map Prod.fst) (e : Element) :
    (insert key e entries).map Prod.fst = entries.map Prod.fst := by
  induction entries with
  | nil => cases known
  | cons entry entries ih =>
    rw [insert]
    by_cases here : entry.1 = key
    · rw [if_pos here]
      rfl
    · rw [List.map_cons, List.mem_cons] at known
      rw [if_neg here, List.map_cons, List.map_cons, ih (known.resolve_left (Ne.symm here))]

/-- The first entry is found under its key, and all others behind it. -/
lemma lookup_cons (key other : Value) (e : Element) (entries : List (Value × Element)) :
    ((key, e) :: entries).lookup other = if other = key then some e else entries.lookup other := by
  rw [List.lookup_cons]
  by_cases same : other = key
  · rw [if_pos same, same, beq_self_eq_true]
  · rw [if_neg same, beq_eq_false_iff_ne.2 same]

/-- What was put under a key is found there, and all else where it was. -/
lemma lookup_insert (key other : Value) (e : Element) (entries : List (Value × Element)) :
    (insert key e entries).lookup other = if other = key then some e else entries.lookup other := by
  induction entries with
  | nil => exact lookup_cons key other e []
  | cons entry entries ih =>
    obtain ⟨k, old⟩ := entry
    rw [insert]
    by_cases here : k = key
    · rw [if_pos here, here, lookup_cons, lookup_cons]
      split
      · rfl
      · rfl
    · rw [if_neg here, lookup_cons, lookup_cons, ih]
      by_cases same : other = k
      · rw [if_pos same, if_pos same, if_neg (fun both => here (same.symm.trans both))]
      · rw [if_neg same, if_neg same]

/-- Entries whose keys are new and distinct are put behind those that are there. -/
lemma foldl_insert_of_nodup {built : List (Value × Element)}
    (nodup : ((built ++ entries).map Prod.fst).Nodup) :
    entries.foldl (fun built (key, e) => insert key e built) built = built ++ entries := by
  induction entries generalizing built with
  | nil => exact (List.append_nil built).symm
  | cons entry entries ih =>
    have new : entry.1 ∉ built.map Prod.fst := by
      rw [List.map_append, List.map_cons, List.nodup_append] at nodup
      intro mem
      exact nodup.2.2 _ mem _ List.mem_cons_self rfl
    rw [List.append_cons] at nodup ⊢
    rw [List.foldl_cons, ← ih nodup, ← insert_of_notMem new]

/-- The keys in the order in which they first occur, each with the element it was last given. -/
lemma exists_ofEntries_eq (entries : List (Value × Element)) :
    ∃ built, ofEntries entries = fields built ∧
      built.map Prod.fst = (entries.map Prod.fst).eraseDups ∧
      ∀ key, built.lookup key = entries.reverse.lookup key := by
  refine ⟨_, rfl, ?_⟩
  -- The last entry is the last to be inserted.
  induction entries using List.reverseRecOn with
  | nil => exact ⟨rfl, fun key => rfl⟩
  | append_singleton entries entry ih =>
    obtain ⟨keys, elements⟩ := ih
    obtain ⟨key, e⟩ := entry
    rw [List.foldl_append, List.foldl_cons, List.foldl_nil]
    dsimp only
    refine ⟨?_, fun other => ?_⟩
    · rw [List.map_append, List.map_singleton, List.eraseDups_append, ← keys]
      have known_iff : key ∈ entries.map Prod.fst ↔
          key ∈ (entries.foldl (fun built (key, e) => insert key e built) []).map Prod.fst := by
        rw [keys, List.mem_eraseDups]
      by_cases known : key ∈ entries.map Prod.fst
      · have none : [key].removeAll (entries.map Prod.fst) = [] := by
          simp [List.removeAll, known]
        rw [none, keys_insert_of_mem (known_iff.1 known)]
        exact (List.append_nil _).symm
      · have new : [key].removeAll (entries.map Prod.fst) = [key] := by
          simp [List.removeAll, known]
        rw [new, insert_of_notMem (mt known_iff.2 known), List.map_append]
        rfl
    · rw [lookup_insert, elements, List.reverse_append, List.reverse_singleton,
        List.singleton_append, lookup_cons]

end AddressCodec.Element
