import AddressCodec.Checksum
import AddressCodec.Proofs.Checked

/-!
# The checksum in checked operations

The register and the symbols of a checksum once more, in operations that yield nothing where a shift
or a difference would leave its range, or a shift would lose bits. They yield what the plain
definitions do on all input (`verify?_eq`, `create?_eq`): only the low 25 bits are moved up, and the
places of six symbols of five bits lie within the 30 bits of the register.
-/

namespace AddressCodec.Checksum

open Checked

/-- Adds a generator if its bit left the register. -/
def select? (top sum : UInt32) (generator : UInt32 × Nat) : Option UInt32 := do
  let bit ← shiftRight top generator.2
  return if bit &&& 1 = 1 then sum ^^^ generator.1 else sum

/-- The register after one more value. -/
def step? (register : UInt32) (value : UInt8) : Option UInt32 := do
  let top ← shiftRight register 25
  let moved ← shiftLeft (register &&& 0x1ffffff) 5
  let fed ← generators.zipIdx.foldlM (select? top) 0
  return (moved ^^^ value.toUInt32) ^^^ fed

/-- The register after a list of values. -/
def residue? (values : List UInt8) : Option UInt32 :=
  values.foldlM step? 1

/-- Whether symbols that end in a checksum are valid under a human readable part. -/
def verify? (hrp : String) (symbols : List UInt8) : Option Bool := do
  let register ← residue? (expand hrp ++ symbols)
  return register == target

/-- The symbol of a register at a place, counted from the most significant one. -/
def symbol? (register : UInt32) (i : Nat) : Option UInt8 := do
  let last ← sub length 1
  let left ← sub last i
  let moved ← shiftRight register (5 * left)
  toByte (moved &&& 31)

/-- The symbols of a register, most significant first. -/
def symbols? (register : UInt32) : Option (List UInt8) :=
  (List.range length).mapM (symbol? register)

/-- The symbols that make a payload valid when they are appended to it. -/
def create? (hrp : String) (data : List UInt8) : Option (List UInt8) := do
  let register ← residue? (expand hrp ++ data ++ List.replicate length 0)
  symbols? (register ^^^ target)

/-- One step of the register stays in range on every value. -/
lemma step?_eq (register : UInt32) (value : UInt8) :
    step? register value = some (step register value) := by
  have top : shiftRight register 25 = some (register >>> 25) := shiftRight_eq_some (by decide)
  -- The 25 bits that are kept have room for the five they are moved up by.
  have low : (register &&& 0x1ffffff).toNat * 2 ^ 5 < 2 ^ 32 := by
    have := @Nat.and_le_right register.toNat 0x1ffffff
    rw [UInt32.toNat_and]
    show (register.toNat &&& 0x1ffffff) * 2 ^ 5 < 2 ^ 32
    omega
  have moved := shiftLeft_eq_some (show 5 < 32 by decide) low
  have fed : generators.zipIdx.foldlM (select? (register >>> 25)) 0
      = some (feedback (register >>> 25)) := by
    refine foldlM_eq_some ?_ 0
    intro sum generator mem
    have near : ∀ generator ∈ generators.zipIdx, generator.2 < 32 := by decide
    rw [select?, shiftRight_eq_some (near generator mem)]
    rfl
  simp only [step?, top, Option.bind_eq_bind, Option.bind_some, moved, fed]
  rfl

/-- The register stays in range over all values. -/
lemma residue?_eq (values : List UInt8) : residue? values = some (residue values) :=
  foldlM_eq_some (fun register value _ => step?_eq register value) 1

/-- The test of a checksum stays in range on all symbols. -/
lemma verify?_eq (hrp : String) (symbols : List UInt8) :
    verify? hrp symbols = some (verify hrp symbols) := by
  rw [verify?, residue?_eq]
  rfl

/-- The symbols of every register stay in range. -/
lemma symbols?_eq (register : UInt32) : symbols? register = some (symbols register) := by
  refine mapM_eq_some fun i mem => ?_
  have inside : i ≤ length - 1 := Nat.le_of_lt_succ (List.mem_range.1 mem)
  have last : sub length 1 = some (length - 1) := sub_eq_some (by decide)
  have place : 5 * (length - 1 - i) < 32 := by
    have : length = 6 := rfl
    omega
  have small (a : UInt32) : (a &&& 31).toNat < 256 := by
    rw [UInt32.toNat_and]
    exact Nat.lt_of_le_of_lt Nat.and_le_right (by decide)
  simp only [symbol?, last, sub_eq_some inside, shiftRight_eq_some place, Option.bind_eq_bind,
    Option.bind_some, toByte_eq_some (small _)]

/-- The making of a checksum stays in range on all data. -/
lemma create?_eq (hrp : String) (data : List UInt8) :
    create? hrp data = some (create hrp data) := by
  rw [create?, residue?_eq]
  exact symbols?_eq _

end AddressCodec.Checksum
