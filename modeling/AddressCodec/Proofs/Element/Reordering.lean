import AddressCodec.Proofs.Element.Sameness
import AddressCodec.Proofs.Wire.Codec
import Mathlib

/-!
# Reordered maps

A step gives the entries of one map of a tree, at any depth, another order, and touches no array
(`Element.Reorder`). Trees are the same exactly if such steps lead from one to the other
(`Element.same_iff_reordered`): looked up keys, of which there are equally many on both sides and
none twice, come in some order. A step moves pieces of the encoding and changes none
(`Element.Reorder.pieces_perm`).
-/

namespace AddressCodec.Element

variable {a b : Element} {items others : List Element} {entries mapped : List (Value × Element)}

/-- One map of a tree has its entries in another order, and all else stays. -/
inductive Reorder : Element → Element → Prop
  | here {entries mapped : List (Value × Element)} :
      entries.Perm mapped → Reorder (fields entries) (fields mapped)
  | item {before later : List Element} {a b : Element} :
      Reorder a b → Reorder (array (before ++ a :: later)) (array (before ++ b :: later))
  | inside {before later : List (Value × Element)} {key : Value} {a b : Element} :
      Reorder a b →
        Reorder (fields (before ++ (key, a) :: later)) (fields (before ++ (key, b) :: later))

/-- The maps of a tree, at any depth, have their entries in other orders. -/
def Reordered : Element → Element → Prop :=
  Relation.ReflTransGen Reorder

/-! ## One step -/

/-- A map that was brought into another order can be brought back. -/
lemma Reorder.symm (step : Reorder a b) : Reorder b a := by
  induction step with
  | here perm => exact .here perm.symm
  | item _ ih => exact .item ih
  | inside _ ih => exact .inside ih

/-- Bringing a map into another order repeats no key. -/
lemma Reorder.distinctKeys (step : Reorder a b) (distinct : a.DistinctKeys) : b.DistinctKeys := by
  induction step with
  | here perm =>
    obtain ⟨nodup, each⟩ := distinct
    rw [entriesDistinct_iff] at each
    refine ⟨(perm.map Prod.fst).nodup_iff.1 nodup, entriesDistinct_iff.2 ?_⟩
    intro entry mem
    exact each entry (perm.mem_iff.2 mem)
  | item _ ih =>
    rw [DistinctKeys, itemsDistinct_iff, List.forall_mem_append, List.forall_mem_cons] at *
    exact ⟨distinct.1, ih distinct.2.1, distinct.2.2⟩
  | inside _ ih =>
    rw [DistinctKeys, entriesDistinct_iff, List.forall_mem_append, List.forall_mem_cons,
      List.map_append, List.map_cons] at *
    exact ⟨distinct.1, distinct.2.1, ih distinct.2.2.1, distinct.2.2.2⟩

/-- A step leads to a tree that is the same. -/
lemma Reorder.same (step : Reorder a b) (distinct : a.DistinctKeys) : a.same b := by
  induction step with
  | @here entries mapped perm =>
    have each := entriesDistinct_iff.1 distinct.2
    have nodup := (perm.map Prod.fst).nodup_iff.1 distinct.1
    refine same_fields_iff.2 ⟨mapped, rfl, perm.length_eq, ?_⟩
    intro entry mem
    exact ⟨entry.2, (Lookup.eq_some_iff_mem nodup).2 (perm.mem_iff.1 mem),
      same_refl (each entry mem)⟩
  | item _ ih =>
    rw [DistinctKeys, itemsDistinct_iff, List.forall_mem_append, List.forall_mem_cons] at distinct
    obtain ⟨front, here, back⟩ := distinct
    refine same_array_iff.2 ⟨_, rfl, List.rel_append ?_ (.cons (ih here) ?_)⟩
    · exact List.forall₂_same.2 fun e mem => same_refl (front e mem)
    · exact List.forall₂_same.2 fun e mem => same_refl (back e mem)
  | @inside before later key e f _ ih =>
    obtain ⟨nodup, each⟩ := distinct
    rw [entriesDistinct_iff, List.forall_mem_append, List.forall_mem_cons] at each
    obtain ⟨front, here, back⟩ := each
    -- The keys are those before the step, so nothing is found twice.
    have found {k : Value} {g : Element} (mem : (k, g) ∈ before ++ (key, f) :: later) :
        (before ++ (key, f) :: later).lookup k = some g := by
      refine (Lookup.eq_some_iff_mem ?_).2 mem
      rwa [List.map_append, List.map_cons] at nodup ⊢
    refine same_fields_iff.2 ⟨_, rfl, by simp only [List.length_append, List.length_cons], ?_⟩
    rw [List.forall_mem_append, List.forall_mem_cons]
    refine ⟨?_, ⟨f, found (List.mem_append_right _ List.mem_cons_self), ih here⟩, ?_⟩
    · intro entry mem
      exact ⟨entry.2, found (List.mem_append_left _ mem), same_refl (front entry mem)⟩
    · intro entry mem
      exact ⟨entry.2, found (List.mem_append_right _ (List.mem_cons_of_mem _ mem)),
        same_refl (back entry mem)⟩

/-! ## Any number of steps -/

/-- Reordering can be undone. -/
lemma Reordered.symm (steps : Reordered a b) : Reordered b a := by
  induction steps with
  | refl => exact .refl
  | tail _ step ih => exact .head step.symm ih

/-- Reordering an element without repeated keys repeats none, and keeps it the same. -/
lemma Reordered.same (steps : Reordered a b) (distinct : a.DistinctKeys) :
    b.DistinctKeys ∧ a.same b := by
  induction steps with
  | refl => exact ⟨distinct, same_refl distinct⟩
  | tail _ step ih => exact ⟨step.distinctKeys ih.1, same_trans ih.2 (step.same ih.1)⟩

/-- The items of an array may be reordered one after the other. -/
lemma reordered_array (each : List.Forall₂ Reordered items others) (before : List Element) :
    Reordered (array (before ++ items)) (array (before ++ others)) := by
  induction each generalizing before with
  | nil => exact .refl
  | @cons e f items others first _ ih =>
    have one : Reordered (array (before ++ e :: items)) (array (before ++ f :: items)) :=
      first.lift (fun e => array (before ++ e :: items)) fun _ _ step => .item step
    have rest := ih (before ++ [f])
    rw [List.append_assoc, List.append_assoc] at rest
    exact one.trans rest

/-- So may the elements of a map. -/
lemma reordered_fields
    (each : List.Forall₂ (fun p q => p.1 = q.1 ∧ Reordered p.2 q.2) entries mapped)
    (before : List (Value × Element)) :
    Reordered (fields (before ++ entries)) (fields (before ++ mapped)) := by
  induction each generalizing before with
  | nil => exact .refl
  | @cons p q entries mapped first _ ih =>
    obtain ⟨key, e⟩ := p
    obtain ⟨key', f⟩ := q
    obtain ⟨rfl, first⟩ := first
    have one : Reordered (fields (before ++ (key, e) :: entries))
        (fields (before ++ (key, f) :: entries)) :=
      first.lift (fun e => fields (before ++ (key, e) :: entries)) fun _ _ step => .inside step
    have rest := ih (before ++ [(key, f)])
    rw [List.append_assoc, List.append_assoc] at rest
    exact one.trans rest

/-! ## Sameness by steps -/

/-- If everything in a list has a partner, there is a list of partners. -/
lemma exists_forall₂ {α β : Type} {R : α → β → Prop} {xs : List α}
    (each : ∀ x ∈ xs, ∃ y, R x y) : ∃ ys, List.Forall₂ R xs ys := by
  induction xs with
  | nil => exact ⟨[], .nil⟩
  | cons x xs ih =>
    obtain ⟨⟨y, first⟩, rest⟩ := List.forall_mem_cons.1 each
    obtain ⟨ys, all⟩ := ih rest
    exact ⟨y :: ys, .cons first all⟩

/-- A map, all of whose keys another one of the same size has too, has the keys in some other
order, and under each a partner of its element. -/
lemma exists_perm_of_lookup {R : Element → Element → Prop} (nodup : (entries.map Prod.fst).Nodup)
    (length : entries.length = mapped.length)
    (each : ∀ entry ∈ entries, ∃ f, mapped.lookup entry.1 = some f ∧ R entry.2 f) :
    ∃ found, List.Forall₂ (fun p q => p.1 = q.1 ∧ R p.2 q.2) entries found ∧ found.Perm mapped := by
  have partners : ∀ p ∈ entries, ∃ q, q ∈ mapped ∧ p.1 = q.1 ∧ R p.2 q.2 := by
    intro p mem
    obtain ⟨f, hit, related⟩ := each p mem
    obtain ⟨before, after, rfl, -⟩ := List.lookup_eq_some_iff.1 hit
    exact ⟨(p.1, f), List.mem_append_right _ List.mem_cons_self, rfl, related⟩
  obtain ⟨found, all⟩ := exists_forall₂ partners
  have inside : found ⊆ mapped := by
    intro q mem
    obtain ⟨i, bound, rfl⟩ := List.getElem_of_mem mem
    exact (List.Forall₂.get all (all.length_eq ▸ bound) bound).1
  have keys : found.map Prod.fst = entries.map Prod.fst := by
    clear * - all
    induction all with
    | nil => rfl
    | cons first _ ih => rw [List.map_cons, List.map_cons, ih, first.2.1]
  -- Partners have the keys of the entries, which are distinct, so no partner is taken twice.
  have distinct : found.Nodup := List.Nodup.of_map Prod.fst (keys ▸ nodup)
  refine ⟨found, all.imp fun _ _ both => both.2, ?_⟩
  refine (List.subperm_of_subset distinct inside).perm_of_length_le ?_
  rw [← length, all.length_eq]

/-- Elements without repeated keys that are the same are reorderings of each other. -/
lemma reordered_of_same (distinct : a.DistinctKeys) (distinct' : b.DistinctKeys)
    (same : a.same b) : Reordered a b := by
  induction a using inductionOn generalizing b with
  | value v =>
    rw [same_value_iff.1 same]
    exact .refl
  | array items ih =>
    obtain ⟨others, rfl, each⟩ := same_array_iff.1 same
    rw [DistinctKeys, itemsDistinct_iff] at distinct distinct'
    refine reordered_array (List.forall₂_iff_get.2 ⟨each.length_eq, ?_⟩) []
    intro i here there
    have mem := List.get_mem items ⟨i, here⟩
    exact ih _ mem (distinct _ mem) (distinct' _ (List.get_mem others ⟨i, there⟩))
      (each.get here there)
  | fields entries ih =>
    obtain ⟨mapped, rfl, length, each⟩ := same_fields_iff.1 same
    obtain ⟨nodup, each_distinct⟩ := distinct
    rw [entriesDistinct_iff] at each_distinct
    have each_distinct' := entriesDistinct_iff.1 distinct'.2
    have partners : ∀ p ∈ entries, ∃ f, mapped.lookup p.1 = some f ∧ Reordered p.2 f := by
      intro p mem
      obtain ⟨f, hit, same⟩ := each p mem
      have there := (Lookup.eq_some_iff_mem distinct'.1).1 hit
      exact ⟨f, hit, ih p mem (each_distinct p mem) (each_distinct' _ there) same⟩
    -- First each element is reordered in its place, then the entries are.
    obtain ⟨found, all, perm⟩ := exists_perm_of_lookup nodup length partners
    exact (reordered_fields all []).tail (.here perm)

/-- Trees are the same exactly if one has the entries of the other's maps in other orders. -/
lemma same_iff_reordered (distinct : a.DistinctKeys) (distinct' : b.DistinctKeys) :
    a.same b ↔ Reordered a b := by
  refine ⟨reordered_of_same distinct distinct', ?_⟩
  intro steps
  exact (steps.same distinct).2

/-- Being the same is symmetric on elements without repeated keys. -/
lemma same_symm (distinct : a.DistinctKeys) (distinct' : b.DistinctKeys) (same : a.same b) :
    b.same a :=
  ((reordered_of_same distinct distinct' same).symm.same distinct').2

/-! ## What order does not change -/

/-- The pieces of items are those of each item. -/
lemma itemPieces_eq_flatMap (items : List Element) : itemPieces items = items.flatMap pieces := by
  induction items with
  | nil => rfl
  | cons e items ih => rw [itemPieces, ih, List.flatMap_cons]

/-- The pieces of entries are those of each key and of its element. -/
lemma entryPieces_eq_flatMap (entries : List (Value × Element)) :
    entryPieces entries = entries.flatMap fun entry => entry.1.pieces ++ entry.2.pieces := by
  induction entries with
  | nil => rfl
  | cons entry entries ih => rw [entryPieces, ih, List.flatMap_cons, List.append_assoc]

/-- A step moves the pieces of the encoding and changes none of them. -/
lemma Reorder.pieces_perm (step : Reorder a b) : a.pieces.Perm b.pieces := by
  induction step with
  | here perm =>
    rw [pieces, pieces, perm.length_eq, entryPieces_eq_flatMap, entryPieces_eq_flatMap]
    exact ((perm.flatMap_right _).cons _).cons _
  | item _ ih =>
    rw [pieces, pieces, itemPieces_eq_flatMap, itemPieces_eq_flatMap, List.flatMap_append,
      List.flatMap_append, List.flatMap_cons, List.flatMap_cons, List.length_append,
      List.length_append]
    exact (((ih.append_right _).append_left _).cons _).cons _
  | inside _ ih =>
    rw [pieces, pieces, entryPieces_eq_flatMap, entryPieces_eq_flatMap, List.flatMap_append,
      List.flatMap_append, List.flatMap_cons, List.flatMap_cons, List.length_append,
      List.length_append]
    exact ((((ih.append_left _).append_right _).append_left _).cons _).cons _

/-- Reordering an element reorders its pieces. -/
lemma Reordered.pieces_perm (steps : Reordered a b) : a.pieces.Perm b.pieces := by
  induction steps with
  | refl => exact .refl _
  | tail _ step ih => exact ih.trans step.pieces_perm

/-- Reordering an element keeps its size. -/
lemma Reordered.encodedSize_eq (steps : Reordered a b) : a.encodedSize = b.encodedSize := by
  rw [← length_wires, ← length_wires]
  exact (steps.pieces_perm.flatMap_right Piece.wire).length_eq

/-- Reordering an element does not change whether it can be written. -/
lemma Reordered.exists_toBytes_iff (steps : Reordered a b) :
    (∃ bytes, a.toBytes = .ok bytes) ↔ ∃ bytes, b.toBytes = .ok bytes := by
  have sound : Piece.Sound a.pieces ↔ Piece.Sound b.pieces :=
    forall_congr' fun piece => imp_congr_left steps.pieces_perm.mem_iff
  simp only [toBytes_eq_ok_iff, exists_and_left, exists_eq, and_true, sound]

/-- Under each key trees that are the same have elements that are, or both have none. -/
lemma get?_of_same (distinct : a.DistinctKeys) (distinct' : b.DistinctKeys) (same : a.same b)
    (key : Value) : Option.Rel (fun e f => e.same f) (a.get? key) (b.get? key) := by
  cases a with
  | value v =>
    rw [same_value_iff.1 same]
    exact .none
  | array items =>
    obtain ⟨others, rfl, -⟩ := same_array_iff.1 same
    exact .none
  | fields entries =>
    obtain ⟨mapped, rfl, -, there⟩ := same_fields_iff.1 same
    obtain ⟨_, same', -, back⟩ := same_fields_iff.1 (same_symm distinct distinct' same)
    cases same'
    show Option.Rel _ (entries.lookup key) (mapped.lookup key)
    cases here : entries.lookup key with
    | some e =>
      obtain ⟨f, found, same⟩ := there _ ((Lookup.eq_some_iff_mem distinct.1).1 here)
      rw [found]
      exact .some same
    | none =>
      cases found : mapped.lookup key with
      | none => exact .none
      | some f =>
        obtain ⟨e, here', -⟩ := back _ ((Lookup.eq_some_iff_mem distinct'.1).1 found)
        cases here.symm.trans here'

/-- Of trees without repeated keys, two are the same exactly if steps that reorder one map each lead
from one to the other, and this is an equivalence. Trees that are the same take equally many bytes,
have the same under every key, and have bytes both or neither, from which a tree is read that is the
same as both. -/
theorem sameness_is_reordering :
    (∀ a b : Element, a.DistinctKeys → b.DistinctKeys → (a.same b ↔ Reordered a b)) ∧
    (∀ a : Element, a.DistinctKeys → a.same a) ∧
    (∀ a b : Element, a.DistinctKeys → b.DistinctKeys → a.same b → b.same a) ∧
    (∀ a b c : Element, a.same b → b.same c → a.same c) ∧
    ∀ a b : Element, a.DistinctKeys → b.DistinctKeys → a.same b →
      a.encodedSize = b.encodedSize ∧
      (∀ key, Option.Rel (fun e f => e.same f) (a.get? key) (b.get? key)) ∧
      ((∃ bytes, a.toBytes = .ok bytes) ↔ ∃ bytes, b.toBytes = .ok bytes) ∧
      ∀ bytes, a.toBytes = .ok bytes ∨ b.toBytes = .ok bytes →
        ∃ e, ofBytes bytes = .ok e ∧ e.same a ∧ e.same b := by
  refine ⟨fun a b => same_iff_reordered, fun a => same_refl, fun a b => same_symm,
    fun a b c => same_trans, ?_⟩
  intro a b distinct distinct' same
  have steps := reordered_of_same distinct distinct' same
  refine ⟨steps.encodedSize_eq, get?_of_same distinct distinct' same, steps.exists_toBytes_iff, ?_⟩
  rintro bytes (written | written)
  · exact ⟨a, ofBytes_eq_ok_iff.2 ⟨distinct, written⟩, same_refl distinct, same⟩
  · exact ⟨b, ofBytes_eq_ok_iff.2 ⟨distinct', written⟩, same_symm distinct distinct' same,
      same_refl distinct'⟩

/-- Two maps, one in an array under a key of the other, each with its entries the other way round;
and an array with its items the other way round, which is not the same. -/
theorem sameness_is_reordering_at_two_depths :
    let inner := [(.uint .w8 1, value (.bool true)), (.uint .w16 1, value (.bool false))]
    let a := fields [(.bool true, array [fields inner]), (.string "to", array [])]
    let b := fields [(.string "to", array []), (.bool true, array [fields inner.reverse])]
    a.DistinctKeys ∧ b.DistinctKeys ∧ Reordered a b ∧ b.same a ∧ a.encodedSize = b.encodedSize ∧
      Option.Rel (fun e f => e.same f) (a.get? (.bool true)) (b.get? (.bool true)) ∧
      (∃ bytes e, b.toBytes = .ok bytes ∧ ofBytes bytes = .ok e ∧ e.same a ∧ e.same b) ∧
      ¬ Reordered (array [array [], fields []]) (array [fields [], array []]) := by
  intro inner a b
  have distinct : a.DistinctKeys := by
    simp [a, inner, DistinctKeys, ItemsDistinct, EntriesDistinct]
  have distinct' : b.DistinctKeys := by
    simp [b, inner, DistinctKeys, ItemsDistinct, EntriesDistinct]
  have same : a.same b := by decide
  obtain ⟨iff, -, symm, -, agree⟩ := sameness_is_reordering
  obtain ⟨size, lookups, -, reads⟩ := agree a b distinct distinct' same
  have written : ∃ bytes, b.toBytes = .ok bytes := ⟨_, by cbv⟩
  obtain ⟨bytes, written⟩ := written
  obtain ⟨e, read, both⟩ := reads bytes (.inr written)
  refine ⟨distinct, distinct', (iff a b distinct distinct').1 same,
    symm a b distinct distinct' same, size, lookups _, ⟨bytes, e, written, read, both⟩, ?_⟩
  intro steps
  have flat : (array [array [], fields []]).DistinctKeys := by
    simp [DistinctKeys, ItemsDistinct, EntriesDistinct]
  have flat' : (array [fields [], array []]).DistinctKeys := by
    simp [DistinctKeys, ItemsDistinct, EntriesDistinct]
  cases (iff _ _ flat flat').2 steps

end AddressCodec.Element
