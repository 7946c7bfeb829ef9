import TagGrammar.Number.Digits
import TagGrammar.Number.Shortest

namespace TagGrammar.Number

/-- Digits with the point after the first `e + 1` of them, filled up with zeros on either side. -/
def positional (ds : List Char) (e : Int) : List Char :=
  if e < 0 then '0' :: '.' :: (List.replicate (-e - 1).toNat '0' ++ ds)
  else
    let places := e.toNat + 1
    if ds.length ≤ places then ds ++ List.replicate (places - ds.length) '0' ++ ['.', '0']
    else ds.take places ++ '.' :: ds.drop places

/-- One digit before the point, and an exponent that always has a sign. -/
def scientific (ds : List Char) (e : Int) : List Char :=
  let point := if ds.length ≤ 1 then [] else '.' :: ds.drop 1
  ds.take 1 ++ point ++ 'e' :: (if e < 0 then '-' else '+') :: digits e.natAbs

/-- The shortest text that reads back: positional when the first digit stands between the fifth
place after the point and the sixteenth before it. -/
def Binary64.text (x : Binary64) : List Char :=
  let (d, k) := x.shortest
  let ds := digits d
  let e := k + ds.length - 1
  let body :=
    if d = 0 then ['0', '.', '0']
    else if -5 ≤ e ∧ e ≤ 15 then positional ds e
    else scientific ds e
  if x.negative then '-' :: body else body

end TagGrammar.Number
