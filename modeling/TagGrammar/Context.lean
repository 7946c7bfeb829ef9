import TagGrammar.Json.Path

namespace TagGrammar

/-- What a tag renders against: variables read by a dotted path, and scopes to assign in. -/
class Context (σ : Type) where
  resolve : σ → String → Option Json
  set : σ → String → Json → σ
  push : σ → σ
  pop : σ → σ

namespace Context

def pathHead (path : String) : String := String.ofList (path.toList.takeWhile (· ≠ '.'))

def pathRest? (path : String) : Option (List Char) :=
  match path.toList.dropWhile (· ≠ '.') with
  | _ :: rest => some rest
  | [] => none

def resolveIn (table : Table Json) (path : String) : Option Json := do
  let value ← table.get? (pathHead path)
  match pathRest? path with
  | some rest => value.lookupChars rest
  | none => some value

end Context

instance : Context (Table Json) where
  resolve := Context.resolveIn
  set := Table.insert
  push t := t
  pop t := t

/-- Scopes over a base that is never closed, the innermost first. -/
structure Layers where
  inner : List (Table Json)
  base : Table Json
  deriving Repr, Inhabited

namespace Layers

def ofBase (base : Table Json) : Layers := ⟨[], base⟩

def all (s : Layers) : List (Table Json) := s.inner ++ [s.base]

def depth (s : Layers) : Nat := s.inner.length + 1

/-- The innermost layer that has the head of the path decides, even where the rest then fails. -/
def resolve (s : Layers) (path : String) : Option Json :=
  (s.all.find? (·.contains (Context.pathHead path))).bind (Context.resolveIn · path)

def set (s : Layers) (name : String) (value : Json) : Layers :=
  match s.inner with
  | [] => { s with base := s.base.insert name value }
  | layer :: rest => { s with inner := layer.insert name value :: rest }

def push (s : Layers) : Layers := { s with inner := .empty :: s.inner }

def pop (s : Layers) : Layers := { s with inner := s.inner.tail }

instance : Context Layers := ⟨resolve, set, push, pop⟩

theorem depth_set (s : Layers) (name : String) (value : Json) :
    (s.set name value).depth = s.depth := by
  unfold set depth
  split <;> simp_all

end Layers

end TagGrammar
