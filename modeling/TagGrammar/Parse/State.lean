import TagGrammar.Argument.Offer
import TagGrammar.Grammar.Cursor

namespace TagGrammar

inductive Event where
  | enteredScope (tagname : String) (breakpoint : Option String)
  | capturedBlock (tagname endTag : String)
  deriving DecidableEq, Repr

structure ParseState where
  tagname : String
  cursor : Cursor
  kwargs : Kwargs
  /-- The argument that got the last bit, or refused it. -/
  current : Option Argument
  /-- The arguments of the scope that no bit has been offered to. -/
  waiting : List Argument
  /-- The bits not handled yet, from the one at hand on. -/
  todo : List String
  events : List Event

/-- A step of a parse goes on or stops at an error; either way there is a state after it. -/
inductive Step where
  | done (s : ParseState)
  | failed (error : ParseError) (s : ParseState)

namespace Step

def state : Step → ParseState
  | done s => s
  | failed _ s => s

def error? : Step → Option ParseError
  | done _ => none
  | failed e _ => some e

def andThen (step : Step) (f : ParseState → Step) : Step :=
  match step with
  | done s => f s
  | failed e s => failed e s

@[simp] theorem andThen_done (s : ParseState) (f : ParseState → Step) : (done s).andThen f = f s :=
  rfl

@[simp] theorem andThen_failed (e : ParseError) (s : ParseState) (f : ParseState → Step) :
    (failed e s).andThen f = failed e s := rfl

theorem error?_eq_none_iff {step : Step} : step.error? = none ↔ ∃ s, step = done s := by
  cases step <;> simp [error?]

theorem andThen_eq_done {step : Step} {f : ParseState → Step} {t : ParseState} :
    step.andThen f = done t ↔ ∃ s, step = done s ∧ f s = done t := by
  cases step <;> simp

theorem andThen_assoc (step : Step) (f g : ParseState → Step) :
    (step.andThen f).andThen g = step.andThen fun s => (f s).andThen g := by
  cases step <;> rfl

end Step

namespace ParseState

def start (g : Grammar) (tagname : String) : ParseState :=
  ⟨tagname, .start g, .empty, none, g.leading, [], []⟩

/-- Fills the defaults of the arguments, up to the first required one without a value. -/
def settle (tagname : String) (kwargs : Kwargs) : List Argument → Kwargs × Option ParseError
  | [] => (kwargs, none)
  | a :: rest =>
    if a.header.required && !a.isSatisfied kwargs then
      (kwargs, some (.argumentRequired tagname a.name))
    else settle tagname (a.fillDefaults kwargs) rest

def checkRequired (s : ParseState) : Step :=
  match settle s.tagname s.kwargs s.cursor.arguments with
  | (kwargs, none) => .done { s with kwargs }
  | (kwargs, some e) => .failed e { s with kwargs }

/-- Opens the next scope; behind the last breakpoint it opens the last scope again. -/
def enterNext (s : ParseState) : ParseState :=
  { s with cursor := s.cursor.shift, current := none, waiting := s.cursor.shift.arguments }

def logEntered (s : ParseState) : ParseState :=
  { s with events := s.events ++ [.enteredScope s.tagname s.cursor.breakpoint] }

def handleNextBreakpoint (s : ParseState) : Step :=
  s.checkRequired.andThen fun s => .done s.enterNext.logEntered

/-- Closes one scope for each of the scopes ahead, until the one that the breakpoint opens. -/
def closeUntil (breakpoint : String) : List Scope → ParseState → Step
  | [], s => .done s
  | _ :: rest, s =>
    if s.cursor.breakpoint = some breakpoint then .done s
    else s.handleNextBreakpoint.andThen (closeUntil breakpoint rest)

def handleBreakpoints (breakpoint : String) (s : ParseState) : Step :=
  closeUntil breakpoint s.cursor.ahead s

def unexpectedBit (bit : String) (s : ParseState) : ParseError :=
  if s.cursor.ahead.isEmpty then
    .tooManyArguments s.tagname (if s.todo.isEmpty then [bit] else s.todo)
  else .breakpointExpected s.tagname s.cursor.remaining bit

def offerIn (bit : String) (s : ParseState) : List Argument → Step
  | [] => .failed (s.unexpectedBit bit) { s with current := none, waiting := [] }
  | a :: rest =>
    match a.offer s.tagname bit s.kwargs with
    | .accepted kwargs => .done { s with kwargs, current := some a, waiting := rest }
    | .failed e => .failed e { s with current := some a, waiting := rest }
    | .declined => offerIn bit s rest

def handleArgument (bit : String) (s : ParseState) : Step :=
  offerIn bit s (s.current.toList ++ s.waiting)

/-- Breakpoints come before arguments. -/
def handleBit (bit : String) (s : ParseState) : Step :=
  if s.cursor.next? = some bit then s.handleNextBreakpoint
  else if s.cursor.isLater bit then s.handleBreakpoints bit
  else s.handleArgument bit

/-- Opens and checks one scope for each of the scopes ahead. -/
def closeAll : List Scope → ParseState → Step
  | [], s => .done s
  | _ :: rest, s => s.enterNext.checkRequired.andThen (closeAll rest)

def finish (s : ParseState) : Step := s.checkRequired.andThen fun s => closeAll s.cursor.ahead s

end ParseState

/-- How the bits of a tag drive a parse. -/
abbrev Parser := List String → ParseState → Step

namespace Parser

/-- Routes each bit to a breakpoint or to the arguments, then closes all scopes. -/
def breakpoints : Parser
  | [], s => { s with todo := [] }.finish
  | bit :: rest, s =>
    ({ s with todo := bit :: rest }.handleBit bit).andThen (breakpoints rest)

/-- Offers every bit to the arguments, breakpoint or not. -/
def argumentsOnly : Parser
  | [], s => s.finish
  | bit :: rest, s => (s.handleArgument bit).andThen (argumentsOnly rest)

end Parser

end TagGrammar
