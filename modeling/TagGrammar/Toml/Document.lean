import TagGrammar.Toml.Value

namespace TagGrammar.Toml

inductive Statement where
  | header (path : List String) (key : String)
  /-- One more table of a repeated header. -/
  | element (path : List String) (key : String)
  | entry (path : List String) (key : String) (value : Value)

def statement? (cs : List Char) : Reading Statement :=
  match cs with
  | '[' :: '[' :: rest =>
    match key? rest with
    | some (path, ']' :: ']' :: rest) =>
      (endLine? rest).map (.element path.dropLast (path.getLastD ""), ·)
    | _ => none
  | '[' :: rest =>
    match key? rest with
    | some (path, ']' :: rest) => (endLine? rest).map (.header path.dropLast (path.getLastD ""), ·)
    | _ => none
  | _ =>
    match key? cs with
    | some (path, '=' :: rest) =>
      match value? (rest.length + 1) maxDepth (skipSpaces rest) with
      | some (v, rest) =>
        (endLine? rest).map (.entry path.dropLast (path.getLastD "") v, ·)
      | none => none
    | _ => none

def statementsWith (fuel : Nat) (cs : List Char) : Option (List Statement) :=
  match fuel with
  | 0 => none
  | fuel + 1 =>
    match skipLines? cs with
    | none => none
    | some [] => some []
    | some cs =>
      match statement? cs with
      | some (s, rest) => (statementsWith fuel rest).map (s :: ·)
      | none => none

/-- A byte order mark may stand first. -/
def statements? (text : String) : Option (List Statement) :=
  let cs := match text.toList with
    | '\ufeff' :: rest => rest
    | cs => cs
  statementsWith (cs.length + 1) cs

structure Document where
  root : Children
  current : List String

/-- Carries out a statement, unless it names again what is closed or holds something else. -/
def Document.add? (d : Document) : Statement → Option Document
  | .header path key =>
    (descend (openTable key) path d.root).map fun root => ⟨root, path ++ [key]⟩
  | .element path key =>
    (descend (openElement key) path d.root).map fun root => ⟨root, path ++ [key]⟩
  | .entry path key v =>
    (descend (addKey true key v path) d.current d.root).map fun root => { d with root }

def parse? (text : String) : Option Children := do
  let statements ← statements? text
  let document ← statements.foldlM Document.add? ⟨[], []⟩
  some document.root

end TagGrammar.Toml
