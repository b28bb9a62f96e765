/-!
# Binary floating-point numbers of 64 bits

A number is a sign and a *magnitude*, the lower 63 bits of its word read as a natural number.  The
order of magnitudes is the order of absolute values, so the questions this library asks are
comparisons of natural numbers: below `infinityMagnitude` a number is finite, at it infinite,
above it not a number.

Words that stand for "not a number" keep their sign and payload, and negation turns the sign of
every word, theirs included (`neg_neg`).  It does not touch the magnitude, so it keeps finite
numbers finite (`isFinite_neg`).

Sums, differences, products and quotients are those of the machine's arithmetic, reached through the
bits.
-/

set_option autoImplicit false

namespace Calculator

/-- The value of the sign bit in a word, `2 ^ 63`; magnitudes lie below it. -/
def signPlace : Nat := 0x8000000000000000

/-- A 64-bit word as a sign and a magnitude of 63 bits. -/
structure Binary64 where
  negative : Bool
  magnitude : Nat
  magnitude_lt : magnitude < signPlace
  deriving DecidableEq

namespace Binary64

/-- The magnitude of the infinities: all bits of the exponent set, and no bit of the fraction. -/
def infinityMagnitude : Nat := 0x7FF0000000000000

/-! ## Words -/

/-- The number whose word is `bits`. -/
def ofBits (bits : UInt64) : Binary64 where
  negative := decide (signPlace ≤ bits.toNat)
  magnitude := bits.toNat % signPlace
  magnitude_lt := Nat.mod_lt _ (by decide)

/-- The word of a number. -/
def toBits (x : Binary64) : UInt64 :=
  UInt64.ofNat (if x.negative then signPlace + x.magnitude else x.magnitude)

/-! ## Kinds of number -/

/-- Either of the two zeros. -/
def IsZero (x : Binary64) : Prop := x.magnitude = 0

/-- Neither infinite nor "not a number". -/
def IsFinite (x : Binary64) : Prop := x.magnitude < infinityMagnitude

/-- One of the words that stand for no number. -/
def IsNaN (x : Binary64) : Prop := infinityMagnitude < x.magnitude

instance (x : Binary64) : Decidable x.IsZero :=
  inferInstanceAs (Decidable (x.magnitude = 0))

instance (x : Binary64) : Decidable x.IsFinite :=
  inferInstanceAs (Decidable (x.magnitude < infinityMagnitude))

instance (x : Binary64) : Decidable x.IsNaN :=
  inferInstanceAs (Decidable (infinityMagnitude < x.magnitude))

/-! ## Operations -/

/-- The number with the other sign. -/
def neg (x : Binary64) : Binary64 := { x with negative := !x.negative }

instance : Neg Binary64 := ⟨neg⟩

/-- The machine's operation `op` on two words. -/
def machine (op : Float → Float → Float) (x y : Binary64) : Binary64 :=
  ofBits (op (Float.ofBits x.toBits) (Float.ofBits y.toBits)).toBits

instance : Add Binary64 := ⟨machine (· + ·)⟩

instance : Sub Binary64 := ⟨machine (· - ·)⟩

instance : Mul Binary64 := ⟨machine (· * ·)⟩

instance : Div Binary64 := ⟨machine (· / ·)⟩

/-- Equality of numbers, not of words: the zeros are equal, and what is no number equals
nothing. -/
def sameNumber (x y : Binary64) : Bool :=
  decide (¬ x.IsNaN ∧ ¬ y.IsNaN ∧ (x = y ∨ (x.IsZero ∧ y.IsZero)))

@[simp]
theorem neg_neg (x : Binary64) : - -x = x := by
  cases x
  simp [Neg.neg, neg]

@[simp]
theorem isFinite_neg (x : Binary64) : (-x).IsFinite ↔ x.IsFinite := Iff.rfl

end Binary64

end Calculator
