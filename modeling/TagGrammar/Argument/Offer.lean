import TagGrammar.Argument.Basic
import TagGrammar.Bit.Quote
import TagGrammar.Parse.Error

namespace TagGrammar

inductive Offer where
  | accepted (kwargs : Kwargs)
  | declined
  | failed (error : ParseError)

namespace Bit

def isIdentifier : List Char → Bool
  | [] => false
  | c :: rest => (c.isAlpha || c == '_') && rest.all fun d => d.isAlphanum || d == '_'

/-- The identifier before the first equals sign of an unquoted bit, and what follows the sign. -/
def cutKeyword? (bit : String) : Option (String × String) :=
  if (unquote? bit).isSome then none
  else
    let key := bit.toList.takeWhile (· ≠ '=')
    match bit.toList.dropWhile (· ≠ '=') with
    | _ :: raw => if isIdentifier key then some (String.ofList key, String.ofList raw) else none
    | [] => none

end Bit

/-- One bit as a value. Quoted bits are always constants. -/
def Header.capture (h : Header) (kind : ValueKind) (bit : String) : Value :=
  match Bit.unquote? bit with
  | some inner => .constant kind (.str inner)
  | none => if h.resolve then .resolving kind (.ofToken bit) else .constant kind (.str bit)

namespace Leaf

/-- Flags compare exclusions by their own case rule. -/
def excludes (l : Leaf) (bit : String) : Bool :=
  match l.kind with
  | .flag w => w.among l.header.exclude bit
  | _ => l.header.exclude.contains bit

def store (l : Leaf) (tagname bit : String) (kwargs : Kwargs) (value : Value) : Offer :=
  if l.excludes bit then .failed (.invalidArgument tagname l.name bit)
  else .accepted (kwargs.insert l.name value)

def hasRoom (max : Option Nat) (count : Nat) : Bool := max.all (count < ·)

def offerMulti (l : Leaf) (item : ValueKind) (max : Option Nat) (sequence : SequenceKind)
    (tagname bit : String) (kwargs : Kwargs) : Offer :=
  let extend (items : List Value) (sequence : SequenceKind) : Offer :=
    if hasRoom max items.length then
      l.store tagname bit kwargs (.list (items ++ [l.header.capture item bit]) sequence)
    else .declined
  match kwargs.get? l.name with
  | none => extend [] sequence
  | some (.list items sequence) => extend items sequence
  | some _ => .declined

def offerKeyword (l : Leaf) (item : ValueKind) (max : Option Nat) (tagname bit : String)
    (kwargs : Kwargs) : Offer :=
  match Bit.cutKeyword? bit with
  | none => .declined
  | some (key, raw) =>
    let extend (entries : List (String × Value)) : Offer :=
      if !hasRoom max entries.length then .declined
      else if l.excludes bit then .failed (.invalidArgument tagname l.name bit)
      else if entries.any (·.1 == key) then .failed (.keywordInUse tagname key)
      else .accepted (kwargs.insert l.name (.dict (entries ++ [(key, l.header.capture item raw)])))
    match kwargs.get? l.name with
    | none => extend []
    | some (.dict entries) => extend entries
    | some _ => .declined

/-- A required flag with words on one side takes any other bit as the opposite; an optional one
leaves it. -/
def offerFlag (l : Leaf) (w : FlagWords) (tagname bit : String) (kwargs : Kwargs) : Offer :=
  if kwargs.contains l.name then .declined
  else
    match w.meaning? bit with
    | some b => l.store tagname bit kwargs (.fixed (.bool b))
    | none =>
      if w.twoSided then
        if l.excludes bit then .failed (.invalidArgument tagname l.name bit)
        else .failed (.invalidFlag tagname l.name bit w.allowed)
      else if l.header.required then
        l.store tagname bit kwargs (.fixed (.bool w.trueValues.isEmpty))
      else .declined

def offer (l : Leaf) (tagname bit : String) (kwargs : Kwargs) : Offer :=
  match l.kind with
  | .single kind =>
    if kwargs.contains l.name then .declined
    else l.store tagname bit kwargs (l.header.capture kind bit)
  | .multi item max sequence => l.offerMulti item max sequence tagname bit kwargs
  | .keyword item max => l.offerKeyword item max tagname bit kwargs
  | .flag w => l.offerFlag w tagname bit kwargs

end Leaf

namespace Argument

mutual

/-- Offers one bit. A group that holds a value already passes the bit on to the alternative that
has it; otherwise the first alternative to accept the bit takes it, and the errors of the others
only rule themselves out. -/
def offer (tagname bit : String) (kwargs : Kwargs) : Argument → Offer
  | leaf l => l.offer tagname bit kwargs
  | group h alternatives =>
    match offerChosen? tagname bit kwargs alternatives with
    | some result => result
    | none =>
      match offerFirst? tagname bit kwargs alternatives with
      | none => .declined
      | some kwargs' =>
        if h.exclude.contains bit then .failed (.invalidArgument tagname h.name bit)
        else .accepted kwargs'

def offerChosen? (tagname bit : String) (kwargs : Kwargs) : List Argument → Option Offer
  | [] => none
  | a :: rest =>
    if a.isSatisfied kwargs then some (a.offer tagname bit kwargs)
    else offerChosen? tagname bit kwargs rest

def offerFirst? (tagname bit : String) (kwargs : Kwargs) : List Argument → Option Kwargs
  | [] => none
  | a :: rest =>
    match a.offer tagname bit kwargs with
    | .accepted kwargs' => some kwargs'
    | _ => offerFirst? tagname bit kwargs rest

end

end Argument

end TagGrammar
