import Mathlib.Logic.Relation
import TagGrammar.Proofs.Argument.Defaults
import TagGrammar.Proofs.Grammar.Scopes

namespace TagGrammar

open Argument (namesIn leavesIn)

namespace ParseState

/-- The arguments that the next bit is offered to, in order. -/
def queue (s : ParseState) : List Argument := s.current.toList ++ s.waiting

def Closed (s : ParseState) : Prop := ∀ n ∈ namesIn s.cursor.arguments, s.kwargs.contains n = true

/-- The smallest changes that a parse is made of, with what each one requires. -/
inductive Move : ParseState → ParseState → Prop
  | note (s : ParseState) (todo : List String) (events : List Event) : Move s { s with todo, events }
  | pass (s : ParseState) (current : Option Argument) (waiting : List Argument)
      (rest : current.toList ++ waiting <:+ s.queue) : Move s { s with current, waiting }
  | take (s : ParseState) {bit : String} {a : Argument} {waiting : List Argument} {kwargs : Kwargs}
      (rest : a :: waiting <:+ s.queue)
      (taken : a.offer s.tagname bit s.kwargs = .accepted kwargs) :
    Move s { s with kwargs, current := some a, waiting }
  | fill (s : ParseState) {a : Argument} (member : a ∈ s.cursor.arguments)
      (allowed : a.header.required = true → a.isSatisfied s.kwargs = true) :
    Move s { s with kwargs := a.fillDefaults s.kwargs }
  | enter (s : ParseState) (closed : s.Closed) : Move s s.enterNext

abbrev Moves : ParseState → ParseState → Prop := Relation.ReflTransGen Move

theorem settle_done {tagname : String} {kwargs kwargs' : Kwargs} {arguments : List Argument}
    (done : settle tagname kwargs arguments = (kwargs', none)) :
    kwargs' = kwargs.fill (leavesIn arguments) := by
  induction arguments generalizing kwargs with
  | nil =>
    cases done
    rfl
  | cons a rest ih =>
    rw [settle] at done
    split at done
    · cases done
    · rw [leavesIn, Kwargs.fill_append]
      exact ih done

theorem settle_moves (s : ParseState) {arguments : List Argument}
    (inside : arguments ⊆ s.cursor.arguments) :
    Moves s { s with kwargs := (settle s.tagname s.kwargs arguments).1 } := by
  induction arguments generalizing s with
  | nil => exact .refl
  | cons a rest ih =>
    have member := inside List.mem_cons_self
    have rest_inside : rest ⊆ s.cursor.arguments := List.subset_of_cons_subset inside
    rw [settle]
    split
    · exact .refl
    · rename_i allowed
      have allowed' : a.header.required = true → a.isSatisfied s.kwargs = true := by
        intro required
        simpa [required] using allowed
      exact .head (.fill s member allowed') (ih { s with kwargs := a.fillDefaults s.kwargs } rest_inside)

theorem checkRequired_moves (s : ParseState) : Moves s s.checkRequired.state := by
  have moves := settle_moves s (List.Subset.refl s.cursor.arguments)
  unfold checkRequired
  split <;> simp_all [Step.state]

theorem checkRequired_done {s t : ParseState} (done : s.checkRequired = .done t) :
    t = { s with kwargs := s.kwargs.fill (leavesIn s.cursor.arguments) } := by
  unfold checkRequired at done
  split at done
  · rename_i kwargs settled
    cases done
    rw [settle_done settled]
  · cases done

theorem checkRequired_cursor {s t : ParseState} (done : s.checkRequired = .done t) :
    t.cursor = s.cursor := by rw [checkRequired_done done]

theorem closed_of_checkRequired {s t : ParseState} (done : s.checkRequired = .done t) :
    t.Closed := by
  rw [checkRequired_done done]
  intro n member
  rw [Argument.namesIn_eq_map] at member
  exact Kwargs.contains_fill.mpr (.inr member)

theorem Moves.of_done {s t : ParseState} {step : Step} (moves : Moves s step.state)
    (done : step = .done t) : Moves s t := by
  subst done
  exact moves

theorem andThen_moves {s : ParseState} {step : Step} {f : ParseState → Step}
    (first : Moves s step.state) (second : ∀ t, step = .done t → Moves t (f t).state) :
    Moves s (step.andThen f).state := by
  cases step with
  | done t => exact first.trans (second t rfl)
  | failed e t => exact first

theorem handleNextBreakpoint_moves (s : ParseState) : Moves s s.handleNextBreakpoint.state := by
  apply andThen_moves s.checkRequired_moves
  intro t checked
  have entered : Moves t t.enterNext := .single (.enter t (closed_of_checkRequired checked))
  exact entered.tail (.note t.enterNext _ _)

theorem closeUntil_moves (breakpoint : String) (ahead : List Scope) (s : ParseState) :
    Moves s (closeUntil breakpoint ahead s).state := by
  induction ahead generalizing s with
  | nil => exact .refl
  | cons scope rest ih =>
    rw [closeUntil]
    split
    · exact .refl
    · exact andThen_moves s.handleNextBreakpoint_moves fun t _ => ih t

theorem closeAll_moves (ahead : List Scope) {s : ParseState} (closed : s.Closed) :
    Moves s (closeAll ahead s).state := by
  induction ahead generalizing s with
  | nil => exact .refl
  | cons scope rest ih =>
    have entered : Moves s s.enterNext.checkRequired.state :=
      .head (.enter s closed) s.enterNext.checkRequired_moves
    exact andThen_moves entered fun t checked => ih (closed_of_checkRequired checked)

theorem finish_moves (s : ParseState) : Moves s s.finish.state :=
  andThen_moves s.checkRequired_moves fun _ checked =>
    closeAll_moves _ (closed_of_checkRequired checked)

theorem offerIn_moves (bit : String) (s : ParseState) {arguments : List Argument}
    (rest : arguments <:+ s.queue) : Moves s (offerIn bit s arguments).state := by
  induction arguments with
  | nil => exact .single (.pass s none [] List.nil_suffix)
  | cons a waiting ih =>
    rw [offerIn]
    split
    · rename_i kwargs taken
      exact .single (.take s rest taken)
    · exact .single (.pass s (some a) waiting rest)
    · exact ih ((List.suffix_cons a waiting).trans rest)

theorem offerIn_done {bit : String} {s t : ParseState} {arguments : List Argument}
    (done : offerIn bit s arguments = .done t) :
    ∃ a waiting kwargs, a :: waiting <:+ arguments ∧
      a.offer s.tagname bit s.kwargs = .accepted kwargs ∧
      t = { s with kwargs, current := some a, waiting } := by
  induction arguments with
  | nil => cases done
  | cons a rest ih =>
    rw [offerIn] at done
    split at done
    · rename_i kwargs taken
      cases done
      exact ⟨a, rest, kwargs, List.suffix_refl _, taken, rfl⟩
    · cases done
    · obtain ⟨b, waiting, kwargs, behind, taken, same⟩ := ih done
      exact ⟨b, waiting, kwargs, behind.trans (List.suffix_cons a rest), taken, same⟩

theorem handleArgument_moves (bit : String) (s : ParseState) :
    Moves s (s.handleArgument bit).state := offerIn_moves bit s (List.suffix_refl _)

theorem handleBit_moves (bit : String) (s : ParseState) : Moves s (s.handleBit bit).state := by
  unfold handleBit
  split
  · exact s.handleNextBreakpoint_moves
  · split
    · exact closeUntil_moves bit _ s
    · exact s.handleArgument_moves bit

theorem breakpoints_moves (bits : List String) (s : ParseState) :
    Moves s (Parser.breakpoints bits s).state := by
  induction bits generalizing s with
  | nil => exact .head (.note s [] s.events) (finish_moves _)
  | cons bit rest ih =>
    have noted : Moves s { s with todo := bit :: rest } := .single (.note s (bit :: rest) s.events)
    exact andThen_moves (noted.trans (handleBit_moves bit _)) fun t _ => ih t

theorem Move.tagname {s t : ParseState} (move : Move s t) : t.tagname = s.tagname := by
  cases move <;> rfl

theorem Moves.tagname {s t : ParseState} (moves : Moves s t) : t.tagname = s.tagname := by
  induction moves with
  | refl => rfl
  | tail _ move ih => exact move.tagname.trans ih

end ParseState

/-- The ways to drive a parse by hand. -/
inductive Action where
  | bit (bit : String)
  | argument (bit : String)
  | nextBreakpoint
  | breakpoint (word : String)
  | check
  | finish
  | setTodo (bits : List String)

namespace Action

open ParseState (Moves)

def run : Action → ParseState → Step
  | bit b, s => s.handleBit b
  | argument b, s => s.handleArgument b
  | nextBreakpoint, s => s.handleNextBreakpoint
  | breakpoint word, s => s.handleBreakpoints word
  | check, s => s.checkRequired
  | finish, s => s.finish
  | setTodo bits, s => .done { s with todo := bits }

theorem run_moves (action : Action) (s : ParseState) : Moves s (action.run s).state := by
  cases action with
  | bit b => exact s.handleBit_moves b
  | argument b => exact s.handleArgument_moves b
  | nextBreakpoint => exact s.handleNextBreakpoint_moves
  | breakpoint word => exact ParseState.closeUntil_moves word _ s
  | check => exact s.checkRequired_moves
  | finish => exact s.finish_moves
  | setTodo bits => exact .single (.note s bits s.events)

end Action

namespace ParseState

/-- The state after some actions, those that fail included. -/
def play (s : ParseState) (actions : List Action) : ParseState :=
  actions.foldl (fun s action => (action.run s).state) s

theorem play_append (s : ParseState) (first second : List Action) :
    s.play (first ++ second) = (s.play first).play second := List.foldl_append

theorem play_moves (s : ParseState) (actions : List Action) : Moves s (s.play actions) := by
  induction actions generalizing s with
  | nil => exact .refl
  | cons action rest ih => exact (action.run_moves s).trans (ih (action.run s).state)

end ParseState

end TagGrammar
