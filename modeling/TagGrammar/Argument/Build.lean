import TagGrammar.Argument.Basic

namespace TagGrammar.Argument

private def ofKind (name : String) (kind : LeafKind) : Argument := leaf ⟨.ofName name, kind⟩

def single (name : String) : Argument := ofKind name (.single .string)

def integer (name : String) : Argument := ofKind name (.single .integer)

def multi (name : String) : Argument := ofKind name (.multi .string none .list)

def keyword (name : String) : Argument := ofKind name (.keyword .string (some 1))

def multiKeyword (name : String) : Argument := ofKind name (.keyword .string none)

def flag (name : String) : Argument := ofKind name (.flag .none)

/-- The first alternative that takes a bit takes all that follow; `name` is for messages only. -/
def oneOf (name : String) (alternatives : List Argument) : Argument :=
  group (.ofName name) alternatives

def mapHeader (f : Header → Header) : Argument → Argument
  | leaf l => leaf { l with header := f l.header }
  | group h alternatives => group (f h) alternatives

def mapKind (f : LeafKind → LeafKind) : Argument → Argument
  | leaf l => leaf { l with kind := f l.kind }
  | group h alternatives => group h alternatives

def mapFlag (f : FlagWords → FlagWords) : Argument → Argument :=
  mapKind fun
    | .flag w => .flag (f w)
    | k => k

def withRequired (required : Bool) : Argument → Argument :=
  mapHeader ({ · with required })

def optional : Argument → Argument := withRequired false

def withDefault (value : Json) : Argument → Argument :=
  mapHeader ({ · with default := some value, required := false })

/-- Bits are kept as text and not looked up. -/
def verbatim : Argument → Argument := mapHeader ({ · with resolve := false })

def excluding (bits : List String) : Argument → Argument := mapHeader ({ · with exclude := bits })

/-- Collected values become integers; of no effect on an argument that collects none. -/
def integerItems : Argument → Argument :=
  mapKind fun
    | .multi _ max sequence => .multi .integer max sequence
    | .keyword _ max => .keyword .integer max
    | k => k

def maxValues (max : Nat) : Argument → Argument :=
  mapKind fun
    | .multi item _ sequence => .multi item (some max) sequence
    | .keyword item _ => .keyword item (some max)
    | k => k

def commaSeparated : Argument → Argument :=
  mapKind fun
    | .multi item max _ => .multi item max .commaSeparated
    | k => k

def trueValues (words : List String) : Argument → Argument :=
  mapFlag ({ · with trueValues := words })

def falseValues (words : List String) : Argument → Argument :=
  mapFlag ({ · with falseValues := words })

def caseSensitive : Argument → Argument := mapFlag ({ · with caseSensitive := true })

end TagGrammar.Argument
