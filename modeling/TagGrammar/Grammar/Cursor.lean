import TagGrammar.Grammar.Basic

namespace TagGrammar

structure Cursor where
  index : Nat
  breakpoint : Option String
  arguments : List Argument
  ahead : List Scope
  deriving Repr

namespace Cursor

def start (g : Grammar) : Cursor := ⟨0, none, g.leading, g.later⟩

def shift (c : Cursor) : Cursor :=
  match c.ahead with
  | [] => c
  | s :: rest => ⟨c.index + 1, some s.breakpoint, s.arguments, rest⟩

def remaining (c : Cursor) : List String := c.ahead.map Scope.breakpoint

def next? (c : Cursor) : Option String := c.remaining.head?

def isLater (c : Cursor) (bit : String) : Bool := c.remaining.tail.contains bit

@[simp] theorem shift_nil {c : Cursor} (h : c.ahead = []) : c.shift = c := by
  unfold shift; rw [h]

theorem remaining_shift (c : Cursor) : c.shift.remaining = c.remaining.tail := by
  unfold shift remaining
  split <;> simp_all

end Cursor

end TagGrammar
