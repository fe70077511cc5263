import AddressCodec.Proofs.Element.Keys
import AddressCodec.Proofs.Wire.Codec

/-!
# Repeated keys in bytes

The bytes of a tree that repeats a key are refused for a key that it repeats
(`Element.ofBytes_wires_of_repeats`). A step refuses some bytes if it fails so wherever they come
next (`Reader.Refuses`); it may do so behind bytes that an exact step has read
(`Reader.Exact.bind_refuses`).
-/

namespace AddressCodec

namespace Reader
open Piece

variable {α β : Type} {room inner : Nat}

/-- Where some bytes come next, with no limit and so much left at most, a step fails for a repeated
key that has a property. -/
def Refuses (room : Nat) (step : Reader α) (bytes : List UInt8) (Blamed : Value → Prop) : Prop :=
  ∀ (c : Cursor) (rest : List UInt8), c.rest = bytes ++ rest → c.limit = none →
    c.remaining ≤ room → ∃ key next, step.run c = .error (.duplicateKey key) next ∧ Blamed key

section
variable {step : Reader α} {next : α → Reader β} {bytes more : List UInt8}
  {Blamed Blamed' : Value → Prop}

/-- The key that is blamed has every property that follows from the known one. -/
lemma Refuses.imp (refuses : Refuses room step bytes Blamed)
    (weaken : ∀ key, Blamed key → Blamed' key) : Refuses room step bytes Blamed' := by
  intro c rest here limit left
  obtain ⟨key, stop, run, blamed⟩ := refuses c rest here limit left
  exact ⟨key, stop, run, weaken key blamed⟩

/-- What is refused is so whatever follows it. -/
lemma Refuses.bind (refuses : Refuses room step bytes Blamed) (next : α → Reader β)
    (more : List UInt8) : Refuses room (step >>= next) (bytes ++ more) Blamed := by
  intro c rest here limit left
  rw [List.append_assoc] at here
  obtain ⟨key, stop, run, blamed⟩ := refuses c (more ++ rest) here limit left
  refine ⟨key, stop, ?_, blamed⟩
  rw [EStateM.run_bind, run]

/-- A function of what is read is refused where the reading is. -/
lemma Refuses.map (refuses : Refuses room step bytes Blamed) (f : α → β) :
    Refuses room (f <$> step) bytes Blamed := by
  rw [map_eq_pure_bind, ← List.append_nil bytes]
  exact refuses.bind _ []

/-- Behind what an exact step has read, the next one refuses what follows. -/
lemma Exact.bind_refuses {Form : α → List UInt8 → Prop} {a : α} (first : Exact room step Form)
    (form : Form a bytes) (taken : room ≤ bytes.length + inner)
    (second : Refuses inner (next a) more Blamed) :
    Refuses room (step >>= next) (bytes ++ more) Blamed := by
  intro c rest here limit left
  rw [List.append_assoc] at here
  obtain ⟨mid, run, behind, limit', left'⟩ :=
    first.exists_run_bind form taken here limit left next
  rw [run]
  exact second mid rest behind limit' left'

end

/-- A reader of elements refuses those that repeat a key for one of the keys that they repeat. -/
def RefusesRepeats (room : Nat) (step : Reader Element) : Prop :=
  ∀ e : Element, Sound e.pieces → ¬ e.DistinctKeys → Refuses room step (wires e.pieces) e.Repeats

variable {step : Reader Element}

/-- A run of items is refused for a key that one of them repeats. -/
lemma refuses_items (exact_step : Exact room step Element.Spells)
    (refuses : RefusesRepeats room step) (items : List Element)
    (sound : Sound (Element.itemPieces items)) (fault : ¬ Element.ItemsDistinct items) :
    Refuses room (times step items.length) (wires (Element.itemPieces items))
      fun key => ∃ e ∈ items, e.Repeats key := by
  induction items with
  | nil => exact absurd trivial fault
  | cons e items ih =>
    obtain ⟨first, rest⟩ := sound_append.1 sound
    rw [Element.itemPieces, wires_append]
    by_cases distinct : e.DistinctKeys
    · have later := ih rest fun each => fault ⟨distinct, each⟩
      refine exact_step.bind_refuses ⟨first, distinct, rfl⟩ (Nat.le_add_left room _) ?_
      refine (later.map fun rest => e :: rest).imp ?_
      rintro key ⟨other, mem, repeats⟩
      exact ⟨other, List.mem_cons_of_mem e mem, repeats⟩
    · refine ((refuses e first distinct).bind _ _).imp ?_
      intro key repeats
      exact ⟨e, List.mem_cons_self, repeats⟩

/-- A refusal of a key blames that key, whatever bytes come next. -/
lemma refuses_throw {key : Value} {Blamed : Value → Prop} (blamed : Blamed key)
    (bytes : List UInt8) : Refuses room (throw (.duplicateKey key) : Reader α) bytes Blamed :=
  fun c _ _ _ _ => ⟨key, c, rfl, blamed⟩

/-- Behind entries that were read, a key is refused if it is one of theirs, and it is if their keys
are still distinct. -/
lemma refuses_entries (exact_step : Exact room step Element.Spells)
    (refuses : RefusesRepeats room step) (mapped before : List (Value × Element))
    (sound : Sound (Element.entryPieces mapped))
    (fault : ¬ (((before ++ mapped).map Prod.fst).Nodup ∧ Element.EntriesDistinct mapped))
    (nodup : (before.map Prod.fst).Nodup) :
    Refuses room (entries step mapped.length before) (wires (Element.entryPieces mapped))
      fun key => List.Duplicate key ((before ++ mapped).map Prod.fst) ∨
        ∃ entry ∈ mapped, entry.2.Repeats key := by
  induction mapped generalizing before with
  | nil =>
    rw [List.append_nil] at fault
    exact absurd ⟨nodup, trivial⟩ fault
  | cons entry mapped ih =>
    obtain ⟨key, e⟩ := entry
    obtain ⟨soundKey, soundRest⟩ := sound_append.1 sound
    obtain ⟨soundFirst, soundRest⟩ := sound_append.1 soundRest
    rw [Element.entryPieces, wires_append, wires_append, List.length_cons, entries_succ]
    refine exact_value.bind_refuses ⟨soundKey, rfl⟩ (Nat.le_add_left room _) ?_
    -- The element is read before its key is compared, so its own repeated keys come first.
    by_cases distinct : e.DistinctKeys
    · refine exact_step.bind_refuses ⟨soundFirst, distinct, rfl⟩ (Nat.le_add_left room _) ?_
      by_cases repeated : key ∈ before.map Prod.fst
      · rw [if_pos (List.contains_iff_mem.2 repeated)]
        refine refuses_throw (.inl ?_) _
        rw [List.map_append, List.duplicate_iff_sublist]
        exact (List.singleton_sublist.2 repeated).append
          (List.singleton_sublist.2 List.mem_cons_self)
      · have fresh := nodup_keys_append nodup repeated e
        have all : before ++ (key, e) :: mapped = before ++ [(key, e)] ++ mapped :=
          List.append_cons before (key, e) mapped
        rw [if_neg (fun h => repeated (List.contains_iff_mem.1 h))]
        rw [all] at fault ⊢
        refine (ih _ soundRest (fun both => fault ⟨both.1, distinct, both.2⟩) fresh).imp ?_
        intro other blamed
        refine blamed.imp_right ?_
        rintro ⟨entry, mem, repeats⟩
        exact ⟨entry, List.mem_cons_of_mem _ mem, repeats⟩
    · refine ((refuses e soundFirst distinct).bind _ _).imp ?_
      intro other repeats
      exact .inr ⟨(key, e), List.mem_cons_self, repeats⟩

/-- Elements of every depth are refused for a key that they repeat. -/
lemma refuses_elementWithin (depth : Nat) : RefusesRepeats depth (elementWithin depth) := by
  induction depth with
  | zero =>
    -- Nothing is left, and every element takes a byte.
    intro e sound fault c rest here limit left
    have size := e.two_le_encodedSize
    have length := congrArg List.length here
    rw [List.length_append, e.length_wires] at length
    rw [Cursor.remaining] at left
    omega
  | succ depth ih =>
    intro e sound fault
    have one (b : UInt8) : depth + 1 ≤ [b].length + depth := Nat.le_of_eq (Nat.add_comm depth 1)
    cases e with
    | value v => exact absurd trivial fault
    | array items =>
      obtain ⟨soundCount, soundItems⟩ := sound_cons.1 (sound_cons.1 sound).2
      refine exact_byte.bind_refuses rfl (one _) ?_
      refine exact_byte.bind_refuses rfl (Nat.le_add_left depth _) ?_
      rw [toNat_ofNat_of_count soundCount]
      refine ((refuses_items (exact_elementWithin depth) ih items soundItems fault).map _).imp ?_
      rintro key ⟨e, mem, repeats⟩
      exact .item mem repeats
    | fields mapped =>
      obtain ⟨soundCount, soundEntries⟩ := sound_cons.1 (sound_cons.1 sound).2
      refine exact_byte.bind_refuses rfl (one _) ?_
      refine exact_byte.bind_refuses rfl (Nat.le_add_left depth _) ?_
      rw [toNat_ofNat_of_count soundCount]
      have below := refuses_entries (exact_elementWithin depth) ih mapped [] soundEntries fault
        List.nodup_nil
      refine (below.map _).imp ?_
      intro key blamed
      rcases blamed with twice | ⟨entry, mem, repeats⟩
      · exact .here twice
      · exact .inside mem repeats

end Reader

/-- Bytes of a tree that repeats a key are refused for a key that it repeats. -/
lemma Element.ofBytes_wires_of_repeats {e : Element} (sound : Piece.Sound e.pieces)
    (fault : ¬ e.DistinctKeys) :
    ∃ key, e.Repeats key ∧ ofBytes (Piece.wires e.pieces) = .error (.duplicateKey key) := by
  obtain ⟨key, next, run, repeats⟩ := Reader.refuses_elementWithin _ e sound fault
    (.start (Piece.wires e.pieces) none) [] (List.append_nil _).symm rfl (Nat.le_refl _)
  refine ⟨key, repeats, ?_⟩
  have whole : Reader.element.run (.start (Piece.wires e.pieces) none)
      = .error (.duplicateKey key) next := run
  rw [ofBytes, whole]

end AddressCodec
