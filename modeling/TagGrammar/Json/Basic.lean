import TagGrammar.Number.Binary64
import TagGrammar.Table

namespace TagGrammar

/-- An integer of 64 bits, with a sign or without one. -/
structure JsonInt where
  val : Int
  lower : -0x8000000000000000 ≤ val
  upper : val < 0x10000000000000000
  deriving DecidableEq, Repr

namespace JsonInt

def ofInt? (n : Int) : Option JsonInt :=
  if h : -0x8000000000000000 ≤ n ∧ n < 0x10000000000000000 then some ⟨n, h.1, h.2⟩ else none

def ofSigned? (n : Int) : Option JsonInt :=
  if h : -0x8000000000000000 ≤ n ∧ n < 0x8000000000000000 then some ⟨n, h.1, by omega⟩ else none

/-- The whole part of a floating-point number, or the end of the signed range that is nearer. -/
def saturated (x : Number.Binary64) : JsonInt :=
  ⟨max (-0x8000000000000000) (min x.truncate 0x7FFFFFFFFFFFFFFF), by omega, by omega⟩

/-- The whole part of a floating-point number, compared with the ends of the signed range as such
numbers. The upper end is rounded up there, out of the range, so it does not belong to it. -/
def ofFloat? (x : Number.Binary64) : Option JsonInt := do
  let least ← Number.Binary64.ofInt? (-0x8000000000000000)
  let most ← Number.Binary64.ofInt? 0x7FFFFFFFFFFFFFFF
  if least ≤ x.wholePart ∧ x.wholePart < most then some (saturated x.wholePart) else none

def ofBool (b : Bool) : JsonInt := if b then ⟨1, by decide, by decide⟩ else ⟨0, by decide, by decide⟩

end JsonInt

/-- Plain data: what contexts hold and tags receive. -/
inductive Json where
  | null
  | bool (b : Bool)
  | int (n : JsonInt)
  | float (x : Number.Binary64)
  | str (s : String)
  | arr (items : List Json)
  | obj (fields : Table Json)
  deriving Repr, Inhabited

end TagGrammar
