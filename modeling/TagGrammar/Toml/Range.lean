import TagGrammar.Toml.Value

namespace TagGrammar.Toml.Value

/-- Integers have 128 bits, with a sign or without one. -/
def integerInRange (n : Int) : Bool :=
  -0x80000000000000000000000000000000 ≤ n && n < 0x100000000000000000000000000000000

mutual

def inRange : Value → Bool
  | .integer n => integerInRange n
  | .float inRange => inRange
  | .array items => itemsInRange items
  | .table _ children => childrenInRange children
  | .tables elements => elementsInRange elements
  | .bool _ => true
  | .dateTime => true
  | .string _ => true

def itemsInRange : List Value → Bool
  | [] => true
  | v :: rest => inRange v && itemsInRange rest

def childrenInRange : List (String × Value) → Bool
  | [] => true
  | (_, v) :: rest => inRange v && childrenInRange rest

def elementsInRange : List (List (String × Value)) → Bool
  | [] => true
  | children :: rest => childrenInRange children && elementsInRange rest

end

end TagGrammar.Toml.Value
