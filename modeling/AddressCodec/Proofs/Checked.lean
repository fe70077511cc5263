import Mathlib

/-!
# Checked arithmetic

Operations on numbers and words of 32 bits that yield nothing where the plain ones would wrap
around, lose bits at the top, or leave their range. A computation in these operations that yields a
result shows that none of its steps did.
-/

namespace AddressCodec.Checked

/-- A sum that fits in 32 bits. -/
def add (m n : Nat) : Option Nat :=
  if m + n < 2 ^ 32 then some (m + n) else none

/-- A difference that is not negative. -/
def sub (m n : Nat) : Option Nat :=
  if n ≤ m then some (m - n) else none

/-- A difference of words that is not negative. -/
def subWord (a b : UInt32) : Option UInt32 :=
  if b ≤ a then some (a - b) else none

/-- A word moved up by fewer bits than it has, without losing any. -/
def shiftLeft (a : UInt32) (k : Nat) : Option UInt32 :=
  if k < 32 ∧ a.toNat * 2 ^ k < 2 ^ 32 then some (a <<< k.toUInt32) else none

/-- A word moved down by fewer bits than it has. -/
def shiftRight (a : UInt32) (k : Nat) : Option UInt32 :=
  if k < 32 then some (a >>> k.toUInt32) else none

/-- A word that fits in a byte. -/
def toByte (a : UInt32) : Option UInt8 :=
  if a.toNat < 256 then some a.toUInt8 else none

/-- A sum that fits in 32 bits is the plain one. -/
lemma add_eq_some {m n : Nat} (fits : m + n < 2 ^ 32) : add m n = some (m + n) :=
  if_pos fits

/-- A difference that is not negative is the plain one. -/
lemma sub_eq_some {m n : Nat} (le : n ≤ m) : sub m n = some (m - n) :=
  if_pos le

/-- A word that loses no bits is moved up as without the check. -/
lemma shiftLeft_eq_some {a : UInt32} {k : Nat} (inside : k < 32)
    (kept : a.toNat * 2 ^ k < 2 ^ 32) : shiftLeft a k = some (a <<< k.toUInt32) :=
  if_pos ⟨inside, kept⟩

/-- A word moved down by fewer bits than it has is moved as without the check. -/
lemma shiftRight_eq_some {a : UInt32} {k : Nat} (inside : k < 32) :
    shiftRight a k = some (a >>> k.toUInt32) :=
  if_pos inside

/-- A word below 256 is the plain byte. -/
lemma toByte_eq_some {a : UInt32} (small : a.toNat < 256) : toByte a = some a.toUInt8 :=
  if_pos small

section Lists

variable {α β : Type}

/-- A fold whose steps are all checked and never fail. -/
lemma foldlM_eq_some {step : β → α → Option β} {step' : β → α → β} {xs : List α}
    (same : ∀ b, ∀ a ∈ xs, step b a = some (step' b a)) (b : β) :
    xs.foldlM step b = some (xs.foldl step' b) := by
  induction xs generalizing b with
  | nil => rfl
  | cons a xs ih =>
    rw [List.foldlM_cons, same b a List.mem_cons_self]
    exact ih (fun b a mem => same b a (List.mem_cons_of_mem _ mem)) _

/-- A list is mapped as without checks, if each of its members passes them. -/
lemma mapM_eq_some {f : α → Option β} {g : α → β} {xs : List α}
    (same : ∀ a ∈ xs, f a = some (g a)) : xs.mapM f = some (xs.map g) := by
  induction xs with
  | nil => rfl
  | cons a xs ih =>
    rw [List.mapM_cons, same a List.mem_cons_self,
      ih fun a mem => same a (List.mem_cons_of_mem _ mem)]
    rfl

end Lists

section Failing

variable {ε ε' α β : Type}

/-- A checked step that yields something is the value it yields. -/
lemma liftM_some_bind {a : α} {f : α → ExceptT ε Option β} :
    ((liftM (some a) : ExceptT ε Option α) >>= f) = f a :=
  rfl

/-- A computation goes on with the result of its first step. -/
lemma run_bind_of_ok {x : ExceptT ε Option α} {a : α} {f : α → ExceptT ε Option β}
    (yields : x.run = some (.ok a)) : (x >>= f).run = (f a).run := by
  rw [ExceptT.run_bind, yields]
  rfl

/-- A computation ends with the error of its first step. -/
lemma run_bind_of_error {x : ExceptT ε Option α} {e : ε} {f : α → ExceptT ε Option β}
    (fails : x.run = some (.error e)) : (x >>= f).run = some (.error e) := by
  rw [ExceptT.run_bind, fails]
  rfl

/-- A computation that may fail and has no checked step. -/
def plain (x : Except ε α) : ExceptT ε Option α :=
  ExceptT.mk (some x)

/-- A checked computation whose errors are those of a layer of a larger one. -/
def layer (wrap : ε → ε') (x : Option (Except ε α)) : ExceptT ε' Option α :=
  ExceptT.mk (x.map (Except.mapError wrap))

/-- A computation in which no checked step fails, with its outcome. -/
def Yields (x : ExceptT ε Option α) (y : Except ε α) : Prop :=
  x.run = some y

lemma yields_pure (a : α) : Yields (pure a : ExceptT ε Option α) (.ok a) :=
  rfl

lemma yields_throw (e : ε) : Yields (throw e : ExceptT ε Option α) (.error e) :=
  rfl

/-- A computation without checked steps has its own outcome. -/
lemma yields_plain (y : Except ε α) : Yields (plain y) y :=
  rfl

/-- A layer in which no checked step fails has the plain outcome, its errors reworded. -/
lemma yields_layer {wrap : ε → ε'} {x : Option (Except ε α)} {y : Except ε α}
    (some_y : x = some y) : Yields (layer wrap x) (y.mapError wrap) := by
  rw [some_y]
  rfl

/-- What follows is asked for the results of the first part only. -/
lemma Yields.bind {x : ExceptT ε Option α} {y : Except ε α} {f : α → ExceptT ε Option β}
    {g : α → Except ε β} (first : Yields x y) (second : ∀ a, y = .ok a → Yields (f a) (g a)) :
    Yields (x >>= f) (y >>= g) := by
  cases y with
  | error e => exact run_bind_of_error first
  | ok a => exact (run_bind_of_ok first).trans (second a rfl)

/-- A checked step that yields something is passed. -/
lemma Yields.step {x : Option α} {a : α} {f : α → ExceptT ε Option β} {y : Except ε β}
    (some_a : x = some a) (rest : Yields (f a) y) :
    Yields ((liftM x : ExceptT ε Option α) >>= f) y := by
  rw [some_a, liftM_some_bind]
  exact rest

/-- Both computations refuse bad input alike, and go on alike otherwise. -/
lemma Yields.check {bad : Prop} [Decidable bad] {e : ε} {f : PUnit → ExceptT ε Option α}
    {g : PUnit → Except ε α} (rest : ¬ bad → Yields (f ⟨⟩) (g ⟨⟩)) :
    Yields (if bad then throw e >>= f else f ⟨⟩) (if bad then throw e >>= g else g ⟨⟩) := by
  by_cases h : bad
  · rw [if_pos h, if_pos h]
    exact (yields_throw e).bind nofun
  · rw [if_neg h, if_neg h]
    exact rest h

end Failing

end AddressCodec.Checked
