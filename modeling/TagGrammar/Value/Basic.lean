import TagGrammar.Value.Kind
import TagGrammar.Value.Sequence
import TagGrammar.Variable

namespace TagGrammar

/-- What an argument of a tag holds before rendering. -/
inductive Value where
  | fixed (value : Json)
  /-- Content written in the template. -/
  | constant (kind : ValueKind) (value : Json)
  | resolving (kind : ValueKind) (token : Variable)
  | list (items : List Value) (sequence : SequenceKind)
  | dict (entries : List (String × Value))
  deriving Repr

abbrev Kwargs := Table Value

namespace Value

mutual

def resolve (lookup : String → Option Json) (mode : ErrorMode) :
    Value → Except ValueError (Json × List Warning)
  | .fixed value => .ok (value, [])
  | .constant kind value => kind.check value true mode
  | .resolving kind token => kind.check ((token.resolve lookup).getD .null) false mode
  | .list items sequence =>
    match resolveItems lookup mode items with
    | .ok (js, ws) => .ok (sequence.clean js, ws)
    | .error e => .error e
  | .dict entries =>
    match resolveEntries lookup mode entries with
    | .ok (fields, ws) => .ok (.obj (.ofList fields), ws)
    | .error e => .error e

def resolveItems (lookup : String → Option Json) (mode : ErrorMode) :
    List Value → Except ValueError (List Json × List Warning)
  | [] => .ok ([], [])
  | v :: rest =>
    match resolve lookup mode v with
    | .error e => .error e
    | .ok (j, ws) =>
      match resolveItems lookup mode rest with
      | .error e => .error e
      | .ok (js, ws') => .ok (j :: js, ws ++ ws')

def resolveEntries (lookup : String → Option Json) (mode : ErrorMode) :
    List (String × Value) → Except ValueError (List (String × Json) × List Warning)
  | [] => .ok ([], [])
  | (k, v) :: rest =>
    match resolve lookup mode v with
    | .error e => .error e
    | .ok (j, ws) =>
      match resolveEntries lookup mode rest with
      | .error e => .error e
      | .ok (fields, ws') => .ok ((k, j) :: fields, ws ++ ws')

end

end Value

namespace Kwargs

/-- Resolves keyword arguments in the order in which they are walked through. -/
def resolveAlong (order : List (String × Value)) (lookup : String → Option Json) (mode : ErrorMode) :
    Except ValueError (Table Json × List Warning) :=
  match Value.resolveEntries lookup mode order with
  | .ok (fields, ws) => .ok (.ofList fields, ws)
  | .error e => .error e

def resolveAll (kwargs : Kwargs) (lookup : String → Option Json) (mode : ErrorMode) :
    Except ValueError (Table Json × List Warning) :=
  resolveAlong kwargs.entries lookup mode

def failures (kwargs : Kwargs) (lookup : String → Option Json) (mode : ErrorMode) :
    List ValueError :=
  kwargs.entries.filterMap fun e =>
    match e.2.resolve lookup mode with
    | .ok _ => none
    | .error err => some err

end Kwargs

end TagGrammar
