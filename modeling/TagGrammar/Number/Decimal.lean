import TagGrammar.Number.Binary64
import TagGrammar.Number.Digits

namespace TagGrammar.Number

structure Decimal where
  negative : Bool
  coefficient : Nat
  exponent : Int
  deriving DecidableEq, Repr

namespace Decimal

def readExponent? : List Char → Option Int
  | [] => some 0
  | c :: rest => if c = 'e' ∨ c = 'E' then readInt? rest else none

/-- Digits with at most one point among them, after at most one sign and before an optional
exponent. -/
def read? (cs : List Char) : Option Decimal :=
  let (negative, body) := cutSign cs
  let whole := body.takeWhile Char.isDigit
  let (part, tail) :=
    match body.dropWhile Char.isDigit with
    | '.' :: rest => (rest.takeWhile Char.isDigit, rest.dropWhile Char.isDigit)
    | rest => ([], rest)
  if whole.isEmpty && part.isEmpty then none
  else (readExponent? tail).map fun e => ⟨negative, ofDigits (whole ++ part), e - part.length⟩

/-- The nearest floating-point number; `none` when it is too large. Numbers above `10 ^ 400` or
below `10 ^ (-400)` are told by their exponent alone. -/
def toBinary64? (d : Decimal) : Option Binary64 :=
  if d.coefficient = 0 then some (.zero d.negative)
  else if 400 < d.exponent then none
  else if d.exponent + (d.coefficient.log2 / 3 + 1 : Nat) < -400 then some (.zero d.negative)
  else if 0 ≤ d.exponent then
    Binary64.nearest? d.negative (d.coefficient * Nat.pow 10 d.exponent.toNat) 1
  else Binary64.nearest? d.negative d.coefficient (Nat.pow 10 (-d.exponent).toNat)

end Decimal

def Binary64.read? (cs : List Char) : Option Binary64 := (Decimal.read? cs).bind Decimal.toBinary64?

end TagGrammar.Number
