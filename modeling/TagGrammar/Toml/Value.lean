import TagGrammar.Toml.Lexical
import TagGrammar.Toml.Scalar

namespace TagGrammar.Toml

/-- Where a table comes from decides what may be added to it. -/
inductive Origin where
  | passed
  | dotted
  | header
  | inline
  deriving DecidableEq, Repr

inductive Value where
  | bool (b : Bool)
  | integer (n : Int)
  /-- Nothing else about a float is of account. -/
  | float (inRange : Bool)
  | dateTime
  | string (s : String)
  | array (items : List Value)
  | table (origin : Origin) (children : List (String × Value))
  /-- The tables under one repeated header, the last one last. -/
  | tables (elements : List (List (String × Value)))
  deriving Repr, Inhabited

abbrev Children := List (String × Value)

def find? (key : String) (children : Children) : Option Value :=
  (children.find? (·.1 = key)).map (·.2)

def put (key : String) (child : Value) : Children → Children
  | [] => [(key, child)]
  | (k, c) :: rest => if k = key then (key, child) :: rest else (k, c) :: put key child rest

def onLast (f : Children → Option Children) (elements : List Children) : Option Value :=
  match elements.getLast? with
  | none => none
  | some last => (f last).map fun sub => .tables (elements.dropLast ++ [sub])

/-- Adds a value under a key with points. The tables on the way become tables of such keys, unless
they have a header of their own or stand between braces; those under a repeated header are passed
by. `isOpen` tells whether this table takes new values. -/
def addKey (isOpen : Bool) (key : String) (v : Value) : List String → Children → Option Children
  | [], children =>
    if isOpen && (find? key children).isNone then some (put key v children) else none
  | part :: path, children =>
    let child : Option Value :=
      match find? part children with
      | none => (addKey true key v path []).map (.table .dotted)
      | some (.table .dotted sub) => (addKey true key v path sub).map (.table .dotted)
      | some (.table .passed sub) => (addKey true key v path sub).map (.table .dotted)
      | some (.tables elements) => onLast (addKey false key v path) elements
      | some _ => none
    child.map fun c => put part c children

/-- Applies `f` to the table under the path of a header, making the tables on the way. -/
def descend (f : Children → Option Children) : List String → Children → Option Children
  | [], children => f children
  | part :: path, children =>
    let child : Option Value :=
      match find? part children with
      | none => (descend f path []).map (.table .passed)
      | some (.table .inline _) => none
      | some (.table origin sub) => (descend f path sub).map (.table origin)
      | some (.tables elements) => onLast (descend f path) elements
      | some _ => none
    child.map fun c => put part c children

/-- Opens the table of a header, which no other header may have opened. -/
def openTable (key : String) (children : Children) : Option Children :=
  match find? key children with
  | none => some (put key (.table .header []) children)
  | some (.table .passed sub) => some (put key (.table .header sub) children)
  | some _ => none

def openElement (key : String) (children : Children) : Option Children :=
  match find? key children with
  | none => some (put key (.tables [[]]) children)
  | some (.tables elements) => some (put key (.tables (elements ++ [[]])) children)
  | some _ => none

def isScalarChar (c : Char) : Bool :=
  !isSpace c && !isControl c &&
    !(['[', ']', '\x7b', '\x7d', ',', '#', '=', '\x22', '\x27'] : List Char).contains c

def scalarValue? (cs : List Char) : Option Value :=
  if cs = ['t', 'r', 'u', 'e'] then some (.bool true)
  else if cs = ['f', 'a', 'l', 's', 'e'] then some (.bool false)
  else match integer? cs, floatInRange? cs with
    | some n, _ => some (.integer n)
    | none, some inRange => some (.float inRange)
    | none, none => if isDateTime cs then some .dateTime else none

def scalar? (cs : List Char) : Reading Value :=
  let front := cs.takeWhile isScalarChar
  let rest := cs.dropWhile isScalarChar
  match date? front, rest with
  | some [], ' ' :: d :: more =>
    if d.isDigit then
      let time := (d :: more).takeWhile isScalarChar
      (scalarValue? (front ++ ' ' :: time)).map (·, (d :: more).dropWhile isScalarChar)
    else (scalarValue? front).map (·, rest)
  | _, _ => (scalarValue? front).map (·, rest)

def memberKey? (cs : List Char) : Reading (List String) :=
  match key? cs with
  | none => none
  | some (path, rest) =>
    match skipLines? rest with
    | some ('=' :: rest) => (skipLines? rest).map (path, ·)
    | _ => none

mutual

/-- A value, with brackets in one another up to `depth`. -/
def value? (fuel depth : Nat) (cs : List Char) : Reading Value :=
  match fuel with
  | 0 => none
  | fuel + 1 =>
    match cs, depth with
    | '[' :: rest, depth + 1 => (items? fuel depth rest).map fun r => (.array r.1, r.2)
    | '\x7b' :: rest, depth + 1 =>
      (members? fuel depth [] rest).map fun r => (.table .inline r.1, r.2)
    | '[' :: _, 0 => none
    | '\x7b' :: _, 0 => none
    | cs, _ =>
      match string? cs with
      | some (s, rest) => some (.string s, rest)
      | none => scalar? cs

def items? (fuel depth : Nat) (cs : List Char) : Reading (List Value) :=
  match fuel with
  | 0 => none
  | fuel + 1 =>
    match skipLines? cs with
    | some (']' :: rest) => some ([], rest)
    | some rest =>
      match value? fuel depth rest with
      | none => none
      | some (v, rest) =>
        match skipLines? rest with
        | some (']' :: rest) => some ([v], rest)
        | some (',' :: rest) => (items? fuel depth rest).map fun r => (v :: r.1, r.2)
        | _ => none
    | none => none

/-- The members of a table between braces, behind its brace or a comma. Lines may end anywhere
between the keys, the signs and the values. -/
def members? (fuel depth : Nat) (children : Children) (cs : List Char) : Reading Children :=
  match fuel with
  | 0 => none
  | fuel + 1 =>
    match skipLines? cs with
    | some ('\x7d' :: rest) => some (children, rest)
    | some rest =>
      match memberKey? rest with
      | none => none
      | some (path, rest) =>
        match value? fuel depth rest with
        | none => none
        | some (v, rest) =>
          match addKey true (path.getLastD "") v path.dropLast children, skipLines? rest with
          | some children, some ('\x7d' :: rest) => some (children, rest)
          | some children, some (',' :: rest) => members? fuel depth children rest
          | _, _ => none
    | none => none

end

end TagGrammar.Toml
