import AddressCodec.Proofs.Wire.Reading

/-!
# Readers over other steps

All readers are made of three kinds of steps: so many bytes are taken, the text behind a length byte
is taken, or the reader gives up. Here they are written once more over any steps of these kinds in
any monad (`Reader.Primitives`); over the steps of the library they are its readers
(`Primitives.elementWithin_plain`).

What relates the steps of two interpretations, and is kept when steps follow one another, relates
their readers of values (`RelatedSteps.value`), and with what is known of the values that may be
keys their readers of trees (`Related.elementWithin`). So what holds of every reader, of one run or
of two, is a matter of the steps that take bytes; the tree is walked here only.
-/

namespace AddressCodec.Reader

/-- What follows the tag of an element, by a reader of the elements below it. -/
def node (below : Reader Element) (tag : UInt8) : Reader Element :=
  match Element.Kind.ofTag? tag with
  | none => throw (.unknownElementKind tag)
  | some .value => Element.value <$> value
  | some .array => byte >>= fun count => Element.array <$> times below count.toNat
  | some .fields => byte >>= fun count => Element.fields <$> entries below count.toNat []

/-- An element is its tag and the node that this announces. -/
lemma elementWithin_succ (depth : Nat) :
    elementWithin (depth + 1) = byte >>= node (elementWithin depth) :=
  rfl

/-- Steps that take bytes, and the one that gives up. -/
structure Primitives (m : Type → Type) where
  bytes : Nat → m (List UInt8)
  text : UInt8 → m (List UInt8)
  refuse : {α : Type} → WireError → m α

namespace Primitives

section Readers

variable {m : Type → Type} [Monad m] {α : Type} (on : Primitives m)

/-- The next byte. -/
def byte : m UInt8 := do
  let taken ← on.bytes 1
  return taken.headD 0

/-- A truth value: the byte zero or one. -/
def bool : m Bool := do
  let b ← on.byte
  if b = 0 then return false
  else if b = 1 then return true
  else on.refuse (.invalidBool b)

/-- A string behind its length byte. -/
def string : m String := do
  let length ← on.byte
  let taken ← on.text length
  match Utf8.decode? taken with
  | some s => return s
  | none => on.refuse .invalidString

/-- An integer of a width, its high byte first. -/
def uint (w : Width) : m (BitVec w.bits) := do
  let taken ← on.bytes w.bytes
  return BitVec.ofNat w.bits (BigEndian.decode taken)

/-- The 32 bytes of a hash. -/
def hash : m Bytes32 := do
  let taken ← on.bytes 32
  match Bytes32.ofList? taken with
  | some h => return h
  | none => on.refuse .unexpectedEnd

/-- What follows the tag of a type. -/
def payload : Value.Kind → m Value
  | .bool => do return .bool (← on.bool)
  | .string => do return .string (← on.string)
  | .uint w => do return .uint w (← on.uint w)
  | .hash => do return .hash (← on.hash)

/-- A value behind its tag. -/
def value : m Value := do
  let tag ← on.byte
  match Value.Kind.ofTag? tag with
  | some kind => on.payload kind
  | none => on.refuse (.unknownValueKind tag)

/-- A step repeated a number of times. -/
def times (step : m α) : Nat → m (List α)
  | 0 => return []
  | count + 1 => do
    let a ← step
    let rest ← times step count
    return a :: rest

/-- Entries of a map behind those already read. -/
def entries (element : m Element) :
    Nat → List (Value × Element) → m (List (Value × Element))
  | 0, read => return read
  | count + 1, read => do
    let key ← on.value
    let e ← element
    if (read.map Prod.fst).contains key then on.refuse (.duplicateKey key)
    else entries element count (read ++ [(key, e)])

/-- What follows the tag of an element, by a reader of the elements below it. -/
def node (below : m Element) (tag : UInt8) : m Element :=
  match Element.Kind.ofTag? tag with
  | none => on.refuse (.unknownElementKind tag)
  | some .value => do return .value (← on.value)
  | some .array => do
    let count ← on.byte
    return .array (← times below count.toNat)
  | some .fields => do
    let count ← on.byte
    return .fields (← on.entries below count.toNat [])

/-- An element that nests to at most a depth. -/
def elementWithin : (depth : Nat) → m Element
  | 0 => do
    let _ ← on.byte
    on.refuse .unexpectedEnd
  | depth + 1 => do
    let tag ← on.byte
    on.node (elementWithin depth) tag

end Readers

/-- The steps of the library. -/
def plain : Primitives Reader where
  bytes := Reader.bytes
  text b := taking b.toNat fun c => .invalidStringLength b.toNat c.remaining
  refuse := throw

section Plain

/-- By the steps of the library, a string is read as the library reads it. -/
lemma string_plain : plain.string = Reader.string :=
  string_eq.symm

/-- By the steps of the library, a payload is read as the library reads it. -/
lemma payload_plain (kind : Value.Kind) : plain.payload kind = Reader.payload kind := by
  cases kind with
  | bool => exact (map_eq_pure_bind Value.bool Reader.bool).symm
  | string =>
    rw [payload, string_plain]
    exact (map_eq_pure_bind Value.string Reader.string).symm
  | uint w => exact (map_eq_pure_bind (Value.uint w) (Reader.uint w)).symm
  | hash => exact (map_eq_pure_bind Value.hash Reader.hash).symm

/-- By the steps of the library, a value is read as the library reads it. -/
lemma value_plain : plain.value = Reader.value := by
  refine congrArg (Reader.byte >>= ·) (funext fun tag => ?_)
  cases Value.Kind.ofTag? tag with
  | none => rfl
  | some kind => exact payload_plain kind

/-- A step is repeated as the library repeats it. -/
lemma times_plain {α : Type} (step : Reader α) (count : Nat) :
    times step count = Reader.times step count := by
  induction count with
  | zero => rfl
  | succ count ih =>
    rw [times, ih]
    rfl

/-- By the steps of the library, entries are read as the library reads them. -/
lemma entries_plain (step : Reader Element) (count : Nat) (read : List (Value × Element)) :
    plain.entries step count read = Reader.entries step count read := by
  induction count generalizing read with
  | zero => rfl
  | succ count ih =>
    rw [entries_succ, entries, value_plain]
    simp only [ih]
    rfl

/-- By the steps of the library, a node is read as the library reads it. -/
lemma node_plain (below : Reader Element) (tag : UInt8) :
    plain.node below tag = Reader.node below tag := by
  rw [node, Reader.node]
  cases Element.Kind.ofTag? tag with
  | none => rfl
  | some kind =>
    cases kind with
    | value =>
      rw [value_plain]
      exact (map_eq_pure_bind Element.value Reader.value).symm
    | array =>
      simp only [times_plain, map_eq_pure_bind]
      rfl
    | fields =>
      simp only [entries_plain, map_eq_pure_bind]
      rfl

/-- By the steps of the library, an element is read as the library reads it. -/
lemma elementWithin_plain (depth : Nat) :
    plain.elementWithin depth = Reader.elementWithin depth := by
  induction depth with
  | zero => rfl
  | succ depth ih =>
    rw [elementWithin, ih, elementWithin_succ]
    exact congrArg (Reader.byte >>= ·) (funext (node_plain _))

end Plain

end Primitives

/-- The reasons for which a reader gives up by itself, with keys of some class. -/
inductive Refusal (Key : Value → Prop) : WireError → Prop
  | elementKind {tag : UInt8} :
    Element.Kind.ofTag? tag = none → Refusal Key (.unknownElementKind tag)
  | valueKind {tag : UInt8} : Value.Kind.ofTag? tag = none → Refusal Key (.unknownValueKind tag)
  | bool {b : UInt8} : b ≠ 0 → b ≠ 1 → Refusal Key (.invalidBool b)
  | string : Refusal Key .invalidString
  | key {key : Value} : Key key → Refusal Key (.duplicateKey key)
  | depth : Refusal Key .unexpectedEnd

variable {m n : Type → Type} [Monad m] [Monad n] {α β : Type}

/-- A relation of the steps of two interpretations that sequences of steps keep. -/
structure RelatedSteps (Key : Value → Prop) (on : Primitives m) (on' : Primitives n)
    (R : (α : Type) → m α → n α → Prop) : Prop where
  pure {α : Type} (a : α) : R α (Pure.pure a) (Pure.pure a)
  bind {α β : Type} {step : m α} {step' : n α} {next : α → m β} {next' : α → n β} :
    R α step step' → (∀ a, R β (next a) (next' a)) → R β (step >>= next) (step' >>= next')
  bytes {count : Nat} : count ≤ 32 → R _ (on.bytes count) (on'.bytes count)
  text (b : UInt8) : R _ (on.text b) (on'.text b)
  refuse {α : Type} {cause : WireError} :
    Refusal Key cause → R α (on.refuse cause) (on'.refuse cause)

namespace RelatedSteps

variable {Key : Value → Prop} {on : Primitives m} {on' : Primitives n}
  {R : (α : Type) → m α → n α → Prop}

/-- Related steps relate reading a byte. -/
lemma byte (related : RelatedSteps Key on on' R) : R _ on.byte on'.byte :=
  related.bind (related.bytes (by decide)) fun taken => related.pure (taken.headD 0)

/-- Related steps relate reading a truth value. -/
lemma bool (related : RelatedSteps Key on on' R) : R _ on.bool on'.bool := by
  refine related.bind related.byte fun b => ?_
  by_cases zero : b = 0
  · rw [if_pos zero, if_pos zero]
    exact related.pure false
  · rw [if_neg zero, if_neg zero]
    by_cases one : b = 1
    · rw [if_pos one, if_pos one]
      exact related.pure true
    · rw [if_neg one, if_neg one]
      exact related.refuse (.bool zero one)

/-- Related steps relate reading a string. -/
lemma string (related : RelatedSteps Key on on' R) : R _ on.string on'.string := by
  refine related.bind related.byte fun b => related.bind (related.text b) fun taken => ?_
  cases Utf8.decode? taken with
  | none => exact related.refuse .string
  | some s => exact related.pure s

/-- Related steps relate reading a hash. -/
lemma hash (related : RelatedSteps Key on on' R) : R _ on.hash on'.hash := by
  refine related.bind (related.bytes (Nat.le_refl 32)) fun taken => ?_
  cases Bytes32.ofList? taken with
  | none => exact related.refuse .depth
  | some h => exact related.pure h

/-- Related steps relate reading a payload of every type. -/
lemma payload (related : RelatedSteps Key on on' R) (kind : Value.Kind) :
    R _ (on.payload kind) (on'.payload kind) := by
  cases kind with
  | bool => exact related.bind related.bool fun b => related.pure (Value.bool b)
  | string => exact related.bind related.string fun s => related.pure (Value.string s)
  | uint w =>
    have few : w.bytes ≤ 32 := by
      cases w <;> decide
    refine related.bind (related.bind (related.bytes few) fun taken => ?_) fun n => ?_
    · exact related.pure _
    · exact related.pure (Value.uint w n)
  | hash => exact related.bind related.hash fun h => related.pure (Value.hash h)

/-- Related steps relate reading a value. -/
lemma value (related : RelatedSteps Key on on' R) : R _ on.value on'.value := by
  refine related.bind related.byte fun tag => ?_
  cases known : Value.Kind.ofTag? tag with
  | none => exact related.refuse (.valueKind known)
  | some kind => exact related.payload kind

end RelatedSteps

/-- Such a relation, and what is known of keys: of a value that was read, what follows may take it
that it is of their class. -/
structure Related (Key : Value → Prop) (on : Primitives m) (on' : Primitives n)
    (R : (α : Type) → m α → n α → Prop) : Prop extends RelatedSteps Key on on' R where
  keyed {β : Type} {next : Value → m β} {next' : Value → n β} :
    (∀ key, Key key → R β (next key) (next' key)) → R β (on.value >>= next) (on'.value >>= next')

/-- Nothing has to be known of keys if their class is that of all values. -/
lemma RelatedSteps.related {on : Primitives m} {on' : Primitives n}
    {R : (α : Type) → m α → n α → Prop} (steps : RelatedSteps (fun _ => True) on on' R) :
    Related (fun _ => True) on on' R where
  toRelatedSteps := steps
  keyed next := steps.bind steps.value fun key => next key trivial

namespace Related

variable {Key : Value → Prop} {on : Primitives m} {on' : Primitives n}
  {R : (α : Type) → m α → n α → Prop}

/-- Repeating related steps is related. -/
lemma times (related : Related Key on on' R) {step : m α} {step' : n α} (both : R α step step')
    (count : Nat) : R _ (Primitives.times step count) (Primitives.times step' count) := by
  induction count with
  | zero => exact related.pure []
  | succ count ih =>
    exact related.bind both fun a => related.bind ih fun rest => related.pure (a :: rest)

/-- Reading entries is related where reading the elements in them is. -/
lemma entries (related : Related Key on on' R) {step : m Element} {step' : n Element}
    (both : R Element step step') (count : Nat) (read : List (Value × Element)) :
    R _ (on.entries step count read) (on'.entries step' count read) := by
  induction count generalizing read with
  | zero => exact related.pure read
  | succ count ih =>
    refine related.keyed fun key known => related.bind both fun e => ?_
    by_cases repeated : (read.map Prod.fst).contains key
    · rw [if_pos repeated, if_pos repeated]
      exact related.refuse (.key known)
    · rw [if_neg repeated, if_neg repeated]
      exact ih _

/-- Reading a node is related where reading the elements below it is. -/
lemma node (related : Related Key on on' R) {below : m Element}
    {below' : n Element} (both : R Element below below') (tag : UInt8) :
    R _ (on.node below tag) (on'.node below' tag) := by
  rw [Primitives.node, Primitives.node]
  cases known : Element.Kind.ofTag? tag with
  | none => exact related.refuse (.elementKind known)
  | some kind =>
    cases kind with
    | value => exact related.bind related.value fun v => related.pure (Element.value v)
    | array =>
      refine related.bind related.byte fun count => ?_
      exact related.bind (related.times both count.toNat) fun items =>
        related.pure (Element.array items)
    | fields =>
      refine related.bind related.byte fun count => ?_
      exact related.bind (related.entries both count.toNat []) fun mapped =>
        related.pure (Element.fields mapped)

/-- By induction on the depth, which both interpretations run out of at the same place. -/
lemma elementWithin (related : Related Key on on' R) (depth : Nat) :
    R _ (on.elementWithin depth) (on'.elementWithin depth) := by
  induction depth with
  | zero => exact related.bind related.byte fun _ => related.refuse .depth
  | succ depth ih => exact related.bind related.byte fun tag => related.node ih tag

end Related

end AddressCodec.Reader
