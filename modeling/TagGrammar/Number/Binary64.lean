namespace TagGrammar.Number

/-- A finite binary floating-point number of 64 bits, by its three fields; the fraction has 52. -/
structure Binary64 where
  negative : Bool
  /-- The exponent field; the value 2047 is kept for what is not finite. -/
  scale : Fin 2047
  fraction : Fin 0x10000000000000
  deriving DecidableEq, Repr

namespace Binary64

def zero (negative : Bool) : Binary64 := ⟨negative, 0, 0⟩

/-- The number is `significand · 2 ^ exponent`, under its sign. -/
def significand (x : Binary64) : Nat :=
  if x.scale.val = 0 then x.fraction.val else 0x10000000000000 + x.fraction.val

def exponent (x : Binary64) : Int := (max 1 x.scale.val : Nat) - 1075

def truncate (x : Binary64) : Int :=
  let size : Nat :=
    if 0 ≤ x.exponent then x.significand * Nat.pow 2 x.exponent.toNat
    else x.significand / Nat.pow 2 (-x.exponent).toNat
  if x.negative then -(size : Int) else size

/-- The number without its places behind the point, which are cleared in the fraction. -/
def wholePart (x : Binary64) : Binary64 :=
  if x.scale.val < 1023 then zero x.negative
  else
    let behind := Nat.pow 2 (1075 - x.scale.val)
    { x with
      fraction := ⟨x.fraction.val / behind * behind,
        Nat.lt_of_le_of_lt (Nat.div_mul_le_self _ _) x.fraction.isLt⟩ }

/-- The number as a multiple of `2 ^ (-1074)`, the finest place of all. -/
def units (x : Binary64) : Int :=
  let size : Nat := x.significand * Nat.pow 2 (max 1 x.scale.val - 1)
  if x.negative then -(size : Int) else size

/-- Numbers are compared by their values, so that the two zeros are equal. -/
instance : LE Binary64 := ⟨fun x y => x.units ≤ y.units⟩

instance : LT Binary64 := ⟨fun x y => x.units < y.units⟩

instance (x y : Binary64) : Decidable (x ≤ y) := inferInstanceAs (Decidable (x.units ≤ y.units))

instance (x y : Binary64) : Decidable (x < y) := inferInstanceAs (Decidable (x.units < y.units))

def roundQuotient (num den : Nat) : Nat :=
  let q := num / den
  let r := num % den
  if 2 * r < den then q else if den < 2 * r then q + 1 else if q % 2 = 0 then q else q + 1

/-- The exponent of the last place kept of `num / den`, which has 53 binary places or fewer. -/
def lastPlace (num den : Nat) : Int :=
  let guess : Int := (num.log2 : Int) - den.log2
  let exact : Bool :=
    if 0 ≤ guess then den * Nat.pow 2 guess.toNat ≤ num
    else den ≤ num * Nat.pow 2 (-guess).toNat
  max ((if exact then guess else guess - 1) - 52) (-1074)

/-- The nearest number to `num / den`, a half to the even one; `none` when it is too large. A
significand that rounds up to `2 ^ 53` carries into the scale, since the two fields adjoin. -/
def nearest? (negative : Bool) (num den : Nat) : Option Binary64 :=
  if num = 0 then some (zero negative)
  else
    let place := lastPlace num den
    let q :=
      if 0 ≤ place then roundQuotient num (den * Nat.pow 2 place.toNat)
      else roundQuotient (num * Nat.pow 2 (-place).toNat) den
    let fields := (place + 1074).toNat * 0x10000000000000 + q
    if h : fields / 0x10000000000000 < 2047 then
      some ⟨negative, ⟨fields / 0x10000000000000, h⟩, ⟨fields % 0x10000000000000, Nat.mod_lt _ (by decide)⟩⟩
    else none

def ofInt? (n : Int) : Option Binary64 := nearest? (n < 0) n.natAbs 1

end Binary64

end TagGrammar.Number
