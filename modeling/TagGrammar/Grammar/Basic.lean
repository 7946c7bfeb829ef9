import TagGrammar.Argument.Basic

namespace TagGrammar

/-- The arguments taken after a breakpoint. -/
structure Scope where
  breakpoint : String
  arguments : List Argument
  deriving Repr

structure BlockSpec where
  identifier : String
  storedAs : Option String
  deriving DecidableEq, Repr

def BlockSpec.name (b : BlockSpec) : String := b.storedAs.getD b.identifier

/-- What a tag accepts: arguments before the first breakpoint and after each one, then blocks. -/
structure Grammar where
  leading : List Argument
  later : List Scope
  blocks : List BlockSpec
  deriving Repr

namespace Grammar

def empty : Grammar := ⟨[], [], []⟩

def breakpoints (g : Grammar) : List String := g.later.map Scope.breakpoint

def arguments (g : Grammar) : List Argument := g.leading ++ g.later.flatMap Scope.arguments

def addArgument (a : Argument) (g : Grammar) : Grammar :=
  match g.later.getLast? with
  | none => { g with leading := g.leading ++ [a] }
  | some s => { g with later := g.later.dropLast ++ [{ s with arguments := s.arguments ++ [a] }] }

def addBreakpoint (word : String) (g : Grammar) : Grammar :=
  { g with later := g.later ++ [⟨word, []⟩] }

def addBlock (identifier : String) (storedAs : Option String) (g : Grammar) : Grammar :=
  { g with blocks := g.blocks ++ [⟨identifier, storedAs⟩] }

/-- The first name that stands in `seen` or further up in the list. -/
def firstRepeated? (seen : List String) : List String → Option String
  | [] => none
  | n :: rest => if seen.contains n then some n else firstRepeated? (n :: seen) rest

/-- The first argument that is unusable or stores under a name already taken. -/
def argumentDefect? (seen : List String) : List Argument → Option OptionsError
  | [] => none
  | a :: rest =>
    match a.defect? with
    | some e => some e
    | none =>
      match firstRepeated? seen a.storedNames with
      | some n => some (.duplicateArgument n)
      | none => argumentDefect? (a.storedNames.reverse ++ seen) rest

/-- The first mistake in the order of declaration, all arguments before the blocks. -/
def defect? (g : Grammar) : Option OptionsError :=
  argumentDefect? [] g.arguments <|>
    (firstRepeated? [] (g.blocks.map BlockSpec.identifier)).map .duplicateBlock

end Grammar

end TagGrammar
