import TagGrammar.Number.Binary64

namespace TagGrammar.Number

/-- The reals that round to a positive number, over a common denominator. The bounds belong to it
when `closed`. -/
structure Neighbourhood where
  low : Nat
  value : Nat
  high : Nat
  den : Nat
  closed : Bool

namespace Neighbourhood

/-- In quarters of the last place. Below a power of two the neighbours stand half as far apart. -/
def ofBinary64 (x : Binary64) : Neighbourhood :=
  let m := x.significand
  let up := Nat.pow 2 (x.exponent - 2).toNat
  let below := if x.fraction.val = 0 ∧ 1 < x.scale.val then 1 else 2
  ⟨(4 * m - below) * up, 4 * m * up, (4 * m + 2) * up, Nat.pow 2 (2 - x.exponent).toNat, m % 2 = 0⟩

def has (n : Neighbourhood) (num d : Nat) : Bool :=
  if n.closed then n.low * d ≤ num * n.den && num * n.den ≤ n.high * d
  else n.low * d < num * n.den && num * n.den < n.high * d

/-- A multiple of `10 ^ k` inside: the nearest to the value, of two equally near ones the even. -/
def onGrid? (n : Neighbourhood) (k : Int) : Option Nat :=
  let unit := Nat.pow 10 k.toNat
  let d := Nat.pow 10 (-k).toNat
  let floor := n.value * d / (n.den * unit)
  let gap := n.value * d % (n.den * unit)
  match n.has (floor * unit) d, n.has ((floor + 1) * unit) d with
  | true, true =>
    if 2 * gap < n.den * unit then some floor
    else if n.den * unit < 2 * gap then some (floor + 1)
    else if floor % 2 = 0 then some floor else some (floor + 1)
  | true, false => some floor
  | false, true => some (floor + 1)
  | false, false => none

end Neighbourhood

/-- The powers of ten whose multiples can be the last digit of a floating-point number, coarsest
first. -/
def decimalPlaces : List Int := (List.range 635).map fun (i : Nat) => 309 - (i : Int)

/-- The fewest digits that read back as `x`, as an integer and a power of ten. -/
def Binary64.shortest (x : Binary64) : Nat × Int :=
  let n := Neighbourhood.ofBinary64 x
  if x.significand = 0 then (0, 0)
  else (decimalPlaces.findSome? fun k => (n.onGrid? k).map fun d => (d, k)).getD (0, 0)

end TagGrammar.Number
