import AddressCodec.Bytes

/-!
# The checksum

Six 5-bit symbols that tie a payload to its human readable part. A 30-bit register takes one value
at a time: it moves up by five bits, the value is added in, and the five bits that leave at the top
feed a combination of five generator words back in. A payload is valid if the register ends at 1.
-/

namespace AddressCodec.Checksum

/-- The words fed back for the bits that leave the register, lowest bit first. -/
def generators : List UInt32 :=
  [0x3b6a57b2, 0x26508e6d, 0x1ea119fa, 0x3d4233dd, 0x2a1462b3]

/-- What the register holds after a valid payload. -/
def target : UInt32 := 1

/-- How many symbols a checksum has. -/
def length : Nat := 6

/-- The sum of the generators selected by the five bits that left the register. -/
def feedback (top : UInt32) : UInt32 :=
  generators.zipIdx.foldl
    (fun sum (generator, i) => if (top >>> i.toUInt32) &&& 1 = 1 then sum ^^^ generator else sum) 0

/-- The register after one more value; a value may be any byte and is added in as it is. -/
def step (register : UInt32) (value : UInt8) : UInt32 :=
  (((register &&& 0x1ffffff) <<< 5) ^^^ value.toUInt32) ^^^ feedback (register >>> 25)

/-- The register after a list of values. -/
def residue (values : List UInt8) : UInt32 :=
  values.foldl step 1

/-- A human readable part as values: the high three bits of each byte, a zero, and the low five
bits of each byte. -/
def expand (hrp : String) : List UInt8 :=
  let bytes := Utf8.encode hrp
  bytes.map (fun b : UInt8 => b >>> 5) ++ [0] ++ bytes.map (fun b : UInt8 => b &&& 31)

/-- Whether symbols that end in a checksum are valid under a human readable part. -/
def verify (hrp : String) (symbols : List UInt8) : Bool :=
  residue (expand hrp ++ symbols) == target

/-- The symbols of a register, most significant first. -/
def symbols (register : UInt32) : List UInt8 :=
  (List.range length).map fun i =>
    ((register >>> (5 * (length - 1 - i)).toUInt32) &&& 31).toUInt8

/-- Every register is shown as six symbols. -/
@[simp] theorem length_symbols (register : UInt32) : (symbols register).length = length := by
  simp [symbols]

/-- The symbols that make a payload valid when they are appended to it. -/
def create (hrp : String) (data : List UInt8) : List UInt8 :=
  symbols (residue (expand hrp ++ data ++ List.replicate length 0) ^^^ target)

end AddressCodec.Checksum
