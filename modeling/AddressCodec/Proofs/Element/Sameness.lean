import AddressCodec.Proofs.Element.Keys
import Mathlib.Data.List.Forall2

/-!
# Sameness

What two trees that are the same have in common, read off from the first one: its kind, and below it
the items one by one, or for every entry of a map an element under the same key
(`Element.same_array_iff`, `Element.same_fields_iff`). A tree with distinct keys is the same as
itself, and sameness is transitive for all trees (`Element.same_refl`, `Element.same_trans`).
-/

namespace AddressCodec.Element

variable {a b c : Element} {items others : List Element} {entries mapped : List (Value × Element)}

/-- Induction on trees, at once for all items of an array and all elements of a map. -/
@[elab_as_elim]
theorem inductionOn {P : Element → Prop} (e : Element) (value : ∀ v, P (value v))
    (array : ∀ items, (∀ e ∈ items, P e) → P (array items))
    (fields : ∀ entries : List (Value × Element),
      (∀ entry ∈ entries, P entry.2) → P (fields entries)) : P e :=
  @Element.rec P (fun items => ∀ e ∈ items, P e) (fun entries => ∀ entry ∈ entries, P entry.2)
    (fun entry => P entry.2) value array fields nofun
    (fun _ _ first rest => List.forall_mem_cons.2 ⟨first, rest⟩) nofun
    (fun _ _ first rest => List.forall_mem_cons.2 ⟨first, rest⟩) (fun _ _ element => element) e

/-- Lists of items are the same if they are place by place. -/
lemma sameItems_iff : sameItems items others ↔ List.Forall₂ (fun e f => e.same f) items others := by
  induction items generalizing others with
  | nil => cases others <;> simp [sameItems]
  | cons e items ih =>
    cases others with
    | nil => simp [sameItems]
    | cons f others => rw [sameItems, Bool.and_eq_true, ih, List.forall₂_cons]

/-- Every entry has an equal in another map, found under its key. -/
lemma entriesIn_iff : entriesIn mapped entries ↔
    ∀ entry ∈ entries, ∃ f, mapped.lookup entry.1 = some f ∧ entry.2.same f := by
  induction entries with
  | nil => simp [entriesIn]
  | cons entry entries ih =>
    obtain ⟨key, e⟩ := entry
    rw [entriesIn, Bool.and_eq_true, ih, List.forall_mem_cons]
    cases mapped.lookup key with
    | none => simp
    | some f => simp

/-- A scalar is the same as itself only. -/
lemma same_value_iff {v : Value} : (value v).same b ↔ b = value v := by
  cases b with
  | value w => rw [same, beq_iff_eq, value.injEq, eq_comm]
  | array items => simp [same]
  | fields entries => simp [same]

/-- An array is the same as the arrays whose items are, place by place. -/
lemma same_array_iff : (array items).same b ↔
    ∃ others, b = array others ∧ List.Forall₂ (fun e f => e.same f) items others := by
  cases b with
  | value w => simp [same]
  | array others => simp [same, sameItems_iff]
  | fields entries => simp [same]

/-- A map is the same as the maps of its size that have an equal for each of its entries. -/
lemma same_fields_iff : (fields entries).same b ↔
    ∃ mapped, b = fields mapped ∧ entries.length = mapped.length ∧
      ∀ entry ∈ entries, ∃ f, mapped.lookup entry.1 = some f ∧ entry.2.same f := by
  cases b with
  | value w => simp [same]
  | array items => simp [same]
  | fields mapped => simp [same, entriesIn_iff]

/-- Being the same is reflexive on elements without repeated keys. -/
theorem same_refl (distinct : a.DistinctKeys) : a.same a := by
  induction a using inductionOn with
  | value v => exact same_value_iff.2 rfl
  | array items ih =>
    have each := itemsDistinct_iff.1 distinct
    refine same_array_iff.2 ⟨items, rfl, List.forall₂_same.2 ?_⟩
    intro e mem
    exact ih e mem (each e mem)
  | fields entries ih =>
    have each := entriesDistinct_iff.1 distinct.2
    refine same_fields_iff.2 ⟨entries, rfl, rfl, ?_⟩
    intro entry mem
    exact ⟨entry.2, (Lookup.eq_some_iff_mem distinct.1).2 mem, ih entry mem (each entry mem)⟩

/-- Being the same is transitive. -/
theorem same_trans (first : a.same b) (second : b.same c) : a.same c := by
  induction a using inductionOn generalizing b c with
  | value v =>
    cases same_value_iff.1 first
    exact second
  | array items ih =>
    obtain ⟨others, rfl, ones⟩ := same_array_iff.1 first
    obtain ⟨thirds, rfl, twos⟩ := same_array_iff.1 second
    refine same_array_iff.2 ⟨thirds, rfl, ?_⟩
    -- The walk over the items needs the induction hypothesis for those that are left only.
    clear first second
    induction ones generalizing thirds with
    | nil =>
      cases twos
      exact .nil
    | cons one _ more =>
      cases twos with
      | cons two twos =>
        obtain ⟨here, later⟩ := List.forall_mem_cons.1 ih
        exact .cons (here one two) (more later _ twos)
  | fields entries ih =>
    obtain ⟨mapped, rfl, length, first⟩ := same_fields_iff.1 first
    obtain ⟨thirds, rfl, length', second⟩ := same_fields_iff.1 second
    refine same_fields_iff.2 ⟨thirds, rfl, length.trans length', ?_⟩
    intro entry mem
    obtain ⟨f, found, one⟩ := first entry mem
    obtain ⟨before, after, rfl, -⟩ := List.lookup_eq_some_iff.1 found
    obtain ⟨g, found', two⟩ := second (entry.1, f) (List.mem_append_right _ List.mem_cons_self)
    exact ⟨g, found', ih entry mem one two⟩

end AddressCodec.Element
