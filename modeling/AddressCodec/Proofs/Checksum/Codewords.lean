import AddressCodec.Proofs.Checksum.Register

/-!
# Valid payloads

Behind any payload exactly one group of six symbols makes it valid, the one that `create` returns
(`verify_append_iff`, `completes_iff_eq_create`). A value changed in one place always changes the
register, however long the list is (`residue_substitution`), and so do symbols changed in no more
places in a row than the register holds (`residue_burst`): they fill it with their own bits, and
what follows loses none of them. So two valid payloads never differ in so short a stretch
(`verify_burst`).
-/

namespace AddressCodec.Checksum

/-- The part of a run that comes from the start, and the part that comes from the values. -/
lemma foldl_step_eq_xor (values : List UInt8) (r : UInt32) :
    values.foldl step r
      = (List.replicate values.length 0).foldl step r ^^^ values.foldl step 0 := by
  have := foldl_step_split values r 0
  rwa [UInt32.xor_zero] at this

/-- The symbols of a checksum are below 32. -/
lemma create_lt (hrp : String) (data : List UInt8) :
    ∀ symbol ∈ create hrp data, symbol.toNat < 32 :=
  symbols_lt _

/-- A checksum has six symbols. -/
@[simp] lemma length_create (hrp : String) (data : List UInt8) :
    (create hrp data).length = length :=
  length_symbols _

/-- Six symbols complete a payload exactly if they are its checksum. -/
lemma verify_append_iff {hrp : String} {data check : List UInt8} (six : check.length = length)
    (small : ∀ symbol ∈ check, symbol.toNat < 32) :
    verify hrp (data ++ check) = true ↔ check = create hrp data := by
  -- By linearity the six symbols are added to what the register holds after six zeros.
  have run : residue (expand hrp ++ (data ++ check))
      = residue (expand hrp ++ data ++ List.replicate length 0) ^^^ check.foldl step 0 := by
    rw [← List.append_assoc, residue_append, residue_append _ (List.replicate length 0),
      foldl_step_eq_xor check, six]
  have goal : verify hrp (data ++ check) = true ↔
      check.foldl step 0 = residue (expand hrp ++ data ++ List.replicate length 0) ^^^ target := by
    rw [verify, beq_iff_eq, run]
    refine ⟨?_, ?_⟩
    · intro e
      rw [← e, ← UInt32.xor_assoc, UInt32.xor_self, UInt32.zero_xor]
    · intro e
      rw [e, ← UInt32.xor_assoc, UInt32.xor_self, UInt32.zero_xor]
  rw [goal]
  refine ⟨?_, ?_⟩
  · intro e
    rw [create, ← e, symbols_foldl_step_zero six small]
  · intro e
    apply symbols_injective
    · exact foldl_step_lt check (by decide)
    · rw [UInt32.toNat_xor]
      exact Nat.xor_lt_two_pow (residue_lt _) (by decide)
    · rw [symbols_foldl_step_zero six small]
      exact e

/-- What `create` appends makes a payload valid. -/
lemma verify_create (hrp : String) (data : List UInt8) :
    verify hrp (data ++ create hrp data) = true :=
  (verify_append_iff (length_create hrp data) (create_lt hrp data)).2 rfl

/-- Whatever the bytes of a payload are, `create` returns six symbols that complete it, and no other
six symbols do. -/
theorem completes_iff_eq_create (hrp : String) (data check : List UInt8) :
    check.length = 6 ∧ (∀ symbol ∈ check, symbol < 32) ∧ verify hrp (data ++ check) = true ↔
      check = create hrp data := by
  refine ⟨?_, ?_⟩
  · intro ⟨six, small, valid⟩
    have narrow : ∀ symbol ∈ check, symbol.toNat < 32 := fun symbol mem =>
      UInt8.lt_iff_toNat_lt.1 (small symbol mem)
    exact (verify_append_iff six narrow).1 valid
  · rintro rfl
    refine ⟨length_create hrp data, ?_, verify_create hrp data⟩
    intro symbol mem
    exact UInt8.lt_iff_toNat_lt.2 (create_lt hrp data symbol mem)

/-- A value changed in one place changes the register. -/
lemma residue_substitution {before after : List UInt8} {v w : UInt8}
    (e : residue (before ++ v :: after) = residue (before ++ w :: after)) : v = w := by
  rw [residue_append, residue_append, List.foldl_cons, List.foldl_cons] at e
  have same := foldl_step_injective after (step_lt _ v) (step_lt _ w) e
  have wide : v.toUInt32 = w.toUInt32 := by
    rwa [step, step, UInt32.xor_left_inj, UInt32.xor_right_inj] at same
  exact UInt8.toUInt32_inj.1 wide

/-- An empty register stays empty over zeros. -/
lemma foldl_step_zeros (k : Nat) : (List.replicate k 0).foldl step 0 = 0 := by
  induction k with
  | zero => rfl
  | succ k ih => exact ih

/-- Six symbols or fewer, fed to the empty register, are its last symbols: zeros in front of them
leave it empty. -/
lemma symbols_foldl_step_of_le {values : List UInt8} (few : values.length ≤ length)
    (small : ∀ v ∈ values, v.toNat < 32) :
    symbols (values.foldl step 0) = List.replicate (length - values.length) 0 ++ values := by
  have six : (List.replicate (length - values.length) 0 ++ values).length = length := by
    rw [List.length_append, List.length_replicate, Nat.sub_add_cancel few]
  have zeros : ∀ v ∈ List.replicate (length - values.length) (0 : UInt8), v.toNat < 32 := by
    intro v mem
    rw [List.eq_of_mem_replicate mem]
    decide
  have fed := symbols_foldl_step_zero six (List.forall_mem_append.2 ⟨zeros, small⟩)
  rwa [List.foldl_append, foldl_step_zeros] at fed

/-- So six symbols or fewer are known from the register. -/
lemma foldl_step_zero_injective {block other : List UInt8} (few : block.length ≤ length)
    (same : other.length = block.length) (small : ∀ v ∈ block, v.toNat < 32)
    (small' : ∀ v ∈ other, v.toNat < 32) (e : block.foldl step 0 = other.foldl step 0) :
    block = other := by
  have fed := symbols_foldl_step_of_le few small
  rw [e, symbols_foldl_step_of_le (same ▸ few) small', same] at fed
  exact (List.append_cancel_left fed).symm

/-- Symbols changed in at most six places in a row change the register. -/
lemma residue_burst {before block other after : List UInt8} (few : block.length ≤ length)
    (same : other.length = block.length) (small : ∀ v ∈ block, v.toNat < 32)
    (small' : ∀ v ∈ other, v.toNat < 32)
    (e : residue (before ++ (block ++ after)) = residue (before ++ (other ++ after))) :
    block = other := by
  rw [residue_append, residue_append, List.foldl_append, List.foldl_append] at e
  have behind : block.foldl step (residue before) = other.foldl step (residue before) :=
    foldl_step_injective after (foldl_step_lt block (residue_lt before))
      (foldl_step_lt other (residue_lt before)) e
  rw [foldl_step_eq_xor block, foldl_step_eq_xor other, same, UInt32.xor_right_inj] at behind
  exact foldl_step_zero_injective few same small small' behind

/-- Two neighbouring symbols that change places change the register. -/
lemma residue_transposition {before after : List UInt8} {v w : UInt8} (hv : v.toNat < 32)
    (hw : w.toNat < 32)
    (e : residue (before ++ v :: w :: after) = residue (before ++ w :: v :: after)) : v = w := by
  have small : ∀ u ∈ [v, w], u.toNat < 32 :=
    List.forall_mem_cons.2 ⟨hv, List.forall_mem_singleton.2 hw⟩
  have small' : ∀ u ∈ [w, v], u.toNat < 32 :=
    List.forall_mem_cons.2 ⟨hw, List.forall_mem_singleton.2 hv⟩
  have few : [v, w].length ≤ length := show 2 ≤ 6 by decide
  have blocks : [v, w] = [w, v] := residue_burst few rfl small small' e
  exact (List.cons.inj blocks).1

/-- Two lists that differ in a few places in a row only, taken apart there. -/
lemma exists_stretch {data other : List UInt8} {i k : Nat} (same : other.length = data.length)
    (outside : ∀ j, j < i ∨ i + k ≤ j → other[j]? = data[j]?) :
    ∃ before block block' after, data = before ++ (block ++ after) ∧
      other = before ++ (block' ++ after) ∧ block.length ≤ k ∧ block'.length = block.length := by
  -- Outside the stretch the lists agree place by place, before it and behind it.
  have front : other.take i = data.take i := by
    apply List.ext_getElem?
    intro j
    rw [List.getElem?_take, List.getElem?_take]
    split
    next early => exact outside j (.inl early)
    next => rfl
  have back : (other.drop i).drop k = (data.drop i).drop k := by
    rw [List.drop_drop, List.drop_drop]
    apply List.ext_getElem?
    intro j
    rw [List.getElem?_drop, List.getElem?_drop]
    exact outside (i + k + j) (.inr (Nat.le_add_right _ j))
  refine ⟨data.take i, (data.drop i).take k, (other.drop i).take k, (data.drop i).drop k,
    ?_, ?_, List.length_take_le _ _, ?_⟩
  · rw [List.take_append_drop, List.take_append_drop]
  · rw [← front, ← back, List.take_append_drop, List.take_append_drop]
  · rw [List.length_take, List.length_take, List.length_drop, List.length_drop, same]

/-- Wherever a valid payload of symbols is changed, in six places in a row at most and to other
symbols, the change is found, however long the payload is. -/
theorem verify_burst {hrp : String} {data other : List UInt8} {i : Nat}
    (valid : verify hrp data = true) (small : ∀ symbol ∈ data, symbol < 32)
    (small' : ∀ symbol ∈ other, symbol < 32) (same : other.length = data.length)
    (changed : other ≠ data) (outside : ∀ j, j < i ∨ i + 6 ≤ j → other[j]? = data[j]?) :
    verify hrp other = false := by
  obtain ⟨before, block, block', after, rfl, rfl, few, equal⟩ := exists_stretch same outside
  rw [← Bool.not_eq_true]
  intro valid'
  rw [verify, beq_iff_eq, ← List.append_assoc] at valid valid'
  have narrow {values : List UInt8} (small : ∀ symbol ∈ before ++ (values ++ after), symbol < 32) :
      ∀ v ∈ values, v.toNat < 32 := by
    intro v mem
    have inside : v ∈ values ++ after := List.mem_append_left after mem
    exact UInt8.lt_iff_toNat_lt.1 (small v (List.mem_append_right before inside))
  have kept : block = block' :=
    residue_burst few equal (narrow small) (narrow small') (valid.trans valid'.symm)
  rw [kept] at changed
  exact changed rfl

/-- Four symbols and their checksum, of which the six from the third on are cleared. -/
theorem verify_burst_cleared :
    let data : List UInt8 := [1, 2, 3, 4, 22, 17, 12, 22, 23, 7]
    let other : List UInt8 := [1, 2, 0, 0, 0, 0, 0, 0, 23, 7]
    verify "xel" data = true ∧ other ≠ data ∧
    (∀ j, j < 2 ∨ 2 + 6 ≤ j → other[j]? = data[j]?) ∧ verify "xel" other = false := by
  intro data other
  have valid : verify "xel" data = true := by decide +kernel
  have changed : other ≠ data := by decide
  have outside : ∀ j, j < 2 ∨ 2 + 6 ≤ j → other[j]? = data[j]? := by
    rintro j (early | late)
    · exact (by decide : ∀ j < 2, other[j]? = data[j]?) j early
    · obtain ⟨j, rfl⟩ := Nat.exists_eq_add_of_le' late
      rfl
  exact ⟨valid, changed, outside,
    verify_burst valid (by decide +kernel) (by decide +kernel) rfl changed outside⟩

end AddressCodec.Checksum
