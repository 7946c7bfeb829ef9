import TagGrammar.Options.Error
import TagGrammar.Text.Lowercase
import TagGrammar.Value.Basic

namespace TagGrammar

structure FlagWords where
  trueValues : List String
  falseValues : List String
  caseSensitive : Bool
  deriving DecidableEq, Repr

namespace FlagWords

def none : FlagWords := ⟨[], [], false⟩

def normalize (w : FlagWords) (bit : String) : String :=
  if w.caseSensitive then bit else Text.lowercase bit

def among (w : FlagWords) (words : List String) (bit : String) : Bool :=
  words.any fun word => w.normalize word == w.normalize bit

/-- The flag that a bit stands for; a word in both lists is a true one. -/
def meaning? (w : FlagWords) (bit : String) : Option Bool :=
  if w.among w.trueValues bit then some true
  else if w.among w.falseValues bit then some false
  else Option.none

def twoSided (w : FlagWords) : Bool := !w.trueValues.isEmpty && !w.falseValues.isEmpty

def allowed (w : FlagWords) : List String := (w.trueValues ++ w.falseValues).map w.normalize

end FlagWords

/-- How an argument takes bits, and what it stores. -/
inductive LeafKind where
  | single (kind : ValueKind)
  | multi (item : ValueKind) (max : Option Nat) (sequence : SequenceKind)
  /-- Bits `key=value` in a row, as a dictionary. -/
  | keyword (item : ValueKind) (max : Option Nat)
  | flag (words : FlagWords)
  deriving DecidableEq, Repr

/-- What every argument declares. -/
structure Header where
  name : String
  default : Option Json
  required : Bool
  resolve : Bool
  exclude : List String
  deriving Repr

def Header.ofName (name : String) : Header := ⟨name, none, true, true, []⟩

structure Leaf where
  header : Header
  kind : LeafKind
  deriving Repr

inductive Argument where
  | leaf (l : Leaf)
  /-- A group of which one alternative is filled. -/
  | group (header : Header) (alternatives : List Argument)
  deriving Repr

namespace Leaf

def name (l : Leaf) : String := l.header.name

def defect? (l : Leaf) : Option OptionsError :=
  match l.kind with
  | .flag w =>
    if w.trueValues.isEmpty && w.falseValues.isEmpty then some (.flagWithoutValues l.name)
    else none
  | .multi _ (some 0) _ | .keyword _ (some 0) => some (.zeroMaxValues l.name)
  | _ => none

def defaultValue (l : Leaf) : Value :=
  match l.kind, l.header.default with
  | .multi _ _ sequence, none => .list [] sequence
  | .keyword _ _, none => .dict []
  | _, default => .fixed (default.getD .null)

def fillDefault (kwargs : Kwargs) (l : Leaf) : Kwargs :=
  if kwargs.contains l.name then kwargs else kwargs.insert l.name l.defaultValue

end Leaf

namespace Argument

def header : Argument → Header
  | leaf l => l.header
  | group h _ => h

def name (a : Argument) : String := a.header.name

mutual

/-- The arguments that store values, in the order of their declaration. -/
def leaves : Argument → List Leaf
  | leaf l => [l]
  | group _ alternatives => leavesIn alternatives

def leavesIn : List Argument → List Leaf
  | [] => []
  | a :: rest => a.leaves ++ leavesIn rest

end

def storedNames (a : Argument) : List String := a.leaves.map Leaf.name

def isSatisfied (a : Argument) (kwargs : Kwargs) : Bool :=
  a.leaves.any fun l => kwargs.contains l.name

def fillDefaults (kwargs : Kwargs) (a : Argument) : Kwargs :=
  a.leaves.foldl Leaf.fillDefault kwargs

def defaultValue : Argument → Value
  | leaf l => l.defaultValue
  | group h _ => .fixed (h.default.getD .null)

mutual

def defect? : Argument → Option OptionsError
  | leaf l => l.defect?
  | group h alternatives =>
    if alternatives.isEmpty then some (.emptyOneOf h.name) else defectIn? alternatives

def defectIn? : List Argument → Option OptionsError
  | [] => none
  | a :: rest => a.defect? <|> defectIn? rest

end

theorem leavesIn_eq_flatMap (as : List Argument) : leavesIn as = as.flatMap leaves := by
  induction as with
  | nil => rfl
  | cons a rest ih => simp [leavesIn, ih]

end Argument

end TagGrammar
