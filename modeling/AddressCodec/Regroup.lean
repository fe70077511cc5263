/-!
# Regrouping of bits

Words of one width are read as a stream of bits, most significant first, and cut into words of
another width. Bytes become 5-bit symbols with the last group padded by zeros; symbols become bytes
only if nothing but a short run of zero bits is left over.
-/

namespace AddressCodec.Regroup

/-- Why words cannot be regrouped. -/
inductive Error where
  | invalidWidth (source target : Nat)
  | wordTooWide (word : UInt8) (width : Nat)
  | leftoverWord
  | nonZeroPadding
  deriving DecidableEq, Repr

/-- The wording of an error. -/
def Error.message : Error → String
  | .invalidWidth source target =>
    s!"unsupported conversion from {source} bits to {target} bits"
  | .wordTooWide word width => s!"invalid value {word}, does not fit in {width} bits"
  | .leftoverWord => "illegal zero padding"
  | .nonZeroPadding => "non zero padding"

/-- Bits that were read and not yet written: the low `count` bits of `register`. Those above them
are spent. -/
structure Pending where
  register : UInt32
  count : Nat
  deriving DecidableEq, Repr

/-- The state before the first word: no bits are pending. -/
def Pending.empty : Pending := ⟨0, 0⟩

/-- The largest word of a width. -/
def mask (width : Nat) : UInt32 :=
  (1 <<< width.toUInt32) - 1

/-- The word of a width that starts `offset` bits above the lowest bit of a register. -/
def window (width : Nat) (register : UInt32) (offset : Nat) : UInt8 :=
  ((register >>> offset.toUInt32) &&& mask width).toUInt8

/-- Adds a source word below the pending bits. Sixteen bits hold all that can be pending. -/
def Pending.push (source : Nat) (p : Pending) (word : UInt8) : Pending :=
  ⟨((p.register <<< source.toUInt32) ||| word.toUInt32) &&& 0xffff, p.count + source⟩

/-- The whole target words among the pending bits. -/
def Pending.words (target : Nat) (p : Pending) : List UInt8 :=
  (List.range (p.count / target)).map fun i => window target p.register (p.count - (i + 1) * target)

/-- What stays pending once the whole target words are written. -/
def Pending.rest (target : Nat) (p : Pending) : Pending :=
  ⟨p.register, p.count % target⟩

/-- Less than a target word stays pending. -/
theorem Pending.count_rest_lt {target : Nat} (p : Pending) (h : 0 < target) :
    (p.rest target).count < target :=
  Nat.mod_lt _ h

/-- The pending bits as the high end of one target word. -/
def Pending.padded (target : Nat) (p : Pending) : UInt8 :=
  ((p.register <<< (target - p.count).toUInt32) &&& mask target).toUInt8

/-- Writes the target words of a stream that starts with the pending bits, and what stays pending
at its end. -/
def stream (source target : Nat) : Pending → List UInt8 → List UInt8 × Pending
  | p, [] => ([], p)
  | p, word :: words =>
    let filled := p.push source word
    let (tail, last) := stream source target (filled.rest target) words
    (filled.words target ++ tail, last)

/-- Closes a stream: with `pad` a started word is filled up with zeros, without it the bits left
over must be fewer than a source word and all zero. -/
def finish (source target : Nat) (pad : Bool) (written : List UInt8) (p : Pending) :
    Except Error (List UInt8) :=
  if pad then
    .ok (if p.count = 0 then written else written ++ [p.padded target])
  else if source ≤ p.count then .error .leftoverWord
  else if p.padded target ≠ 0 then .error .nonZeroPadding
  else .ok written

/-- Regroups words of `source` bits into words of `target` bits. -/
def regroup (source target : Nat) (pad : Bool) (words : List UInt8) :
    Except Error (List UInt8) :=
  if source = 0 ∨ 8 < source ∨ target = 0 ∨ 8 < target then
    .error (.invalidWidth source target)
  else
    match words.find? fun word => word.toUInt32 >>> source.toUInt32 ≠ 0 with
    | some word => .error (.wordTooWide word source)
    | none =>
      let (written, p) := stream source target .empty words
      finish source target pad written p

end AddressCodec.Regroup
