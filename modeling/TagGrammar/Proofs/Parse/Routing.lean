import TagGrammar.Proofs.Parse.Moves

namespace TagGrammar

/-- The bits that breakpoints leave to the arguments, each with the index of the scope that is open
then. It takes the breakpoint that opened the scope and those ahead of it, and no argument. A word
that opened the open scope and stands behind the next one is passed over. -/
def route (k : Nat) (opened : Option String) (ahead : List String) :
    List String → List (Nat × String)
  | [] => []
  | bit :: rest =>
    if bit ∈ ahead then
      if opened = some bit ∧ ahead.head? ≠ some bit then route k opened ahead rest
      else route (k + ahead.idxOf bit + 1) (some bit) (ahead.drop (ahead.idxOf bit + 1)) rest
    else (k, bit) :: route k opened ahead rest

def routedTo (k : Nat) (routed : List (Nat × String)) : List String :=
  (routed.filter (·.1 = k)).map (·.2)

theorem routedTo_cons_self (k : Nat) (bit : String) (routed : List (Nat × String)) :
    routedTo k ((k, bit) :: routed) = bit :: routedTo k routed := by simp [routedTo]

theorem routedTo_cons_of_ne {j k : Nat} (other : j ≠ k) (bit : String)
    (routed : List (Nat × String)) : routedTo k ((j, bit) :: routed) = routedTo k routed := by
  simp [routedTo, other]

theorem le_of_mem_route {k : Nat} {opened : Option String} {ahead bits : List String}
    {entry : Nat × String} (member : entry ∈ route k opened ahead bits) : k ≤ entry.1 := by
  induction bits generalizing k opened ahead with
  | nil => cases member
  | cons bit rest ih =>
    rw [route] at member
    split at member
    · split at member
      · exact ih member
      · have := ih member
        omega
    · rcases List.mem_cons.mp member with rfl | member
      · exact Nat.le_refl _
      · exact ih member

theorem mem_route_le {k : Nat} {opened : Option String} {ahead bits : List String}
    {entry : Nat × String} (member : entry ∈ route k opened ahead bits) :
    entry.1 ≤ k + ahead.length := by
  induction bits generalizing k opened ahead with
  | nil => cases member
  | cons bit rest ih =>
    rw [route] at member
    split at member
    · rename_i expected
      split at member
      · exact ih member
      · have place := List.idxOf_lt_length_of_mem expected
        have bound := ih member
        rw [List.length_drop] at bound
        omega
    · rcases List.mem_cons.mp member with rfl | member
      · exact Nat.le_add_right _ _
      · exact ih member

theorem routedTo_route_of_lt {j k : Nat} (behind : j < k) (opened : Option String)
    (ahead bits : List String) : routedTo j (route k opened ahead bits) = [] := by
  rw [routedTo, List.map_eq_nil_iff, List.filter_eq_nil_iff]
  intro entry member here
  have := le_of_mem_route member
  have : entry.1 = j := by simpa using here
  omega

def Cursor.routed (c : Cursor) (bits : List String) : List (Nat × String) :=
  route c.index c.breakpoint c.remaining bits

/-- From one cursor to another, the nearest scope ahead that the word opens is entered. -/
structure Cursor.Opened (word : String) (c c' : Cursor) : Prop where
  index : c'.index = c.index + c.remaining.idxOf word + 1
  breakpoint : c'.breakpoint = some word
  remaining : c'.remaining = c.remaining.drop (c.remaining.idxOf word + 1)

namespace Cursor

variable {c : Cursor} {word : String}

theorem remaining_cons {s : Scope} {rest : List Scope} (left : c.ahead = s :: rest) :
    c.remaining = s.breakpoint :: rest.map Scope.breakpoint := by
  rw [Cursor.remaining, left, List.map_cons]

theorem Opened.shift (next : c.next? = some word) : c.Opened word c.shift := by
  cases left : c.ahead with
  | nil => simp [next?, Cursor.remaining, left] at next
  | cons s rest =>
    have named : s.breakpoint = word := by simpa [next?, remaining_cons left] using next
    subst named
    rw [shift_cons left]
    constructor
    · simp [remaining_cons left]
    · rfl
    · rw [remaining_cons left]
      simp [Cursor.remaining]

theorem Opened.of_shift {c' : Cursor} (next : c.next? ≠ some word) (expected : word ∈ c.remaining)
    (opened : c.shift.Opened word c') : c.Opened word c' := by
  cases left : c.ahead with
  | nil => simp [Cursor.remaining, left] at expected
  | cons s rest =>
    have named : s.breakpoint ≠ word := by simpa [next?, remaining_cons left] using next
    have place : c.remaining.idxOf word = c.shift.remaining.idxOf word + 1 := by
      rw [remaining_cons left, List.idxOf_cons_ne _ named, remaining_shift, remaining_cons left,
        List.tail_cons]
    have shifted : c.shift.index = c.index + 1 := by rw [shift_cons left]
    constructor
    · have reached := opened.index
      omega
    · exact opened.breakpoint
    · rw [opened.remaining, place, remaining_shift, List.drop_tail]

theorem expected_iff : c.next? = some word ∨ c.isLater word = true ↔ word ∈ c.remaining := by
  rw [next?, isLater, List.contains_iff_mem]
  cases c.remaining with
  | nil => simp
  | cons first rest =>
    rw [List.head?_cons, List.tail_cons, List.mem_cons, Option.some.injEq, eq_comm]

theorem routed_of_notMem {bits : List String} (content : word ∉ c.remaining) :
    c.routed (word :: bits) = (c.index, word) :: c.routed bits := by
  rw [routed, route, if_neg content]
  rfl

theorem routed_of_repeated {bits : List String} (expected : word ∈ c.remaining)
    (passed : c.breakpoint = some word ∧ c.next? ≠ some word) :
    c.routed (word :: bits) = c.routed bits := by
  rw [routed, route, if_pos expected]
  exact if_pos passed

theorem routed_of_opened {bits : List String} {c' : Cursor} (expected : word ∈ c.remaining)
    (open_next : ¬(c.breakpoint = some word ∧ c.next? ≠ some word)) (opened : c.Opened word c') :
    c.routed (word :: bits) = c'.routed bits := by
  rw [routed, routed, opened.index, opened.breakpoint, opened.remaining, route, if_pos expected]
  exact if_neg open_next

theorem mem_remaining_shift (expected : word ∈ c.remaining) (next : c.next? ≠ some word) :
    word ∈ c.shift.remaining := by
  rw [remaining_shift]
  rw [next?] at next
  cases left : c.remaining with
  | nil => simp [left] at expected
  | cons first rest =>
    rw [left] at expected next
    exact (List.mem_cons.mp expected).resolve_left fun same => next (congrArg some same.symm)

theorem routed_shift {bits : List String} (expected : word ∈ c.remaining) (next : c.next? ≠ some word)
    (other : c.breakpoint ≠ some word) : c.routed (word :: bits) = c.shift.routed (word :: bits) := by
  cases left : c.ahead with
  | nil => simp [Cursor.remaining, left] at expected
  | cons s rest =>
    have named : s.breakpoint ≠ word := by simpa [next?, remaining_cons left] using next
    have inside : word ∈ rest.map Scope.breakpoint := by
      have inside := mem_remaining_shift expected next
      rwa [remaining_shift, remaining_cons left] at inside
    rw [routed, routed, shift_cons left, remaining_cons left]
    change route _ _ _ _ = route (c.index + 1) (some s.breakpoint) (rest.map Scope.breakpoint) _
    rw [route, route, if_pos (List.mem_cons_of_mem _ inside), if_pos inside,
      if_neg fun passed => other passed.1, if_neg fun passed => named (Option.some.inj passed.1),
      List.idxOf_cons_ne _ named, List.drop_succ_cons]
    congr 1
    omega

end Cursor

namespace ParseState

variable {s t : ParseState} {bit word : String}

theorem handleNextBreakpoint_done (done : s.handleNextBreakpoint = .done t) :
    t = { s with kwargs := s.kwargs.fill (Argument.leavesIn s.cursor.arguments) }.enterNext.logEntered := by
  obtain ⟨u, checked, done⟩ := Step.andThen_eq_done.mp done
  cases done
  rw [checkRequired_done checked]

theorem handleNextBreakpoint_cursor (done : s.handleNextBreakpoint = .done t) :
    t.cursor = s.cursor.shift := by
  rw [handleNextBreakpoint_done done]
  rfl

theorem handleBit_of_notMem (content : bit ∉ s.cursor.remaining) :
    s.handleBit bit = s.handleArgument bit := by
  have next : s.cursor.next? ≠ some bit := fun next => content (Cursor.expected_iff.mp (.inl next))
  have later : ¬s.cursor.isLater bit = true := fun later =>
    content (Cursor.expected_iff.mp (.inr later))
  rw [handleBit, if_neg next, if_neg later]

theorem handleBit_of_next (next : s.cursor.next? = some bit) :
    s.handleBit bit = s.handleNextBreakpoint := by rw [handleBit, if_pos next]

theorem handleBit_of_later (expected : bit ∈ s.cursor.remaining) (later : s.cursor.next? ≠ some bit) :
    s.handleBit bit = s.handleBreakpoints bit := by
  have behind : s.cursor.isLater bit = true :=
    (Cursor.expected_iff.mpr expected).resolve_left later
  rw [handleBit, if_neg later, if_pos behind]

/-- The arguments of the open scope are all still to be offered a bit. -/
def Fresh (s : ParseState) : Prop := s.current = none ∧ s.waiting = s.cursor.arguments

theorem closeUntil_of_opened (ahead : List Scope) (here : s.cursor.breakpoint = some word) :
    closeUntil word ahead s = .done s := by
  cases ahead with
  | nil => rfl
  | cons scope rest => rw [closeUntil, if_pos here]

theorem handleBit_skipping (expected : word ∈ s.cursor.remaining) (next : s.cursor.next? ≠ some word)
    (other : s.cursor.breakpoint ≠ some word) :
    s.handleBit word = s.handleNextBreakpoint.andThen (handleBit word) := by
  rw [handleBit_of_later expected next, handleBreakpoints]
  cases left : s.cursor.ahead with
  | nil => simp [Cursor.remaining, left] at expected
  | cons scope rest =>
    rw [closeUntil, if_neg other]
    cases handled : s.handleNextBreakpoint with
    | failed e u => rfl
    | done u =>
      have moved := handleNextBreakpoint_cursor handled
      have ahead : u.cursor.ahead = rest := by rw [moved, Cursor.shift_cons left]
      have named : scope.breakpoint ≠ word := by
        simpa [Cursor.next?, Cursor.remaining_cons left] using next
      have inside : word ∈ u.cursor.remaining := by
        rw [moved]
        exact Cursor.mem_remaining_shift expected next
      rw [Step.andThen_done, Step.andThen_done]
      by_cases next' : u.cursor.next? = some word
      · cases rest with
        | nil => simp [Cursor.remaining, ahead] at inside
        | cons scope' rest' =>
          have named' : u.cursor.breakpoint ≠ some word := by
            rw [moved, Cursor.shift_cons left]
            exact fun same => named (Option.some.inj same)
          rw [handleBit_of_next next', closeUntil, if_neg named']
          cases handled' : u.handleNextBreakpoint with
          | failed e v => rfl
          | done v =>
            have opened : v.cursor.breakpoint = some word := by
              rw [handleNextBreakpoint_cursor handled']
              exact (Cursor.Opened.shift next').breakpoint
            exact closeUntil_of_opened rest' opened
      · rw [handleBit_of_later inside next', handleBreakpoints, ahead]

/-- A breakpoint ahead opens the nearest scope that it names, unless it also opened the open scope
and is not the next breakpoint: then nothing happens. -/
theorem handleBit_breakpoint (expected : word ∈ s.cursor.remaining)
    (done : s.handleBit word = .done t) :
    (s.cursor.breakpoint = some word ∧ s.cursor.next? ≠ some word ∧ t = s) ∨
    (¬(s.cursor.breakpoint = some word ∧ s.cursor.next? ≠ some word) ∧
      s.cursor.Opened word t.cursor ∧ t.Fresh) := by
  generalize left : s.cursor.ahead = ahead
  induction ahead generalizing s with
  | nil => simp [Cursor.remaining, left] at expected
  | cons scope rest ih =>
    by_cases next : s.cursor.next? = some word
    · rw [handleBit_of_next next] at done
      have entered := handleNextBreakpoint_done done
      refine .inr ⟨fun passed => passed.2 next, ?_, ?_⟩
      · rw [entered]
        exact Cursor.Opened.shift next
      · rw [entered]
        exact ⟨rfl, rfl⟩
    by_cases here : s.cursor.breakpoint = some word
    · rw [handleBit_of_later expected next, handleBreakpoints, closeUntil_of_opened _ here] at done
      cases done
      exact .inl ⟨here, next, rfl⟩
    · rw [handleBit_skipping expected next here] at done
      obtain ⟨u, handled, done⟩ := Step.andThen_eq_done.mp done
      have moved := handleNextBreakpoint_cursor handled
      have named : u.cursor.breakpoint ≠ some word := by
        rw [moved, Cursor.shift_cons left]
        simpa [Cursor.next?, Cursor.remaining_cons left] using next
      have inside : word ∈ u.cursor.remaining := by
        rw [moved]
        exact Cursor.mem_remaining_shift expected next
      have ahead : u.cursor.ahead = rest := by rw [moved, Cursor.shift_cons left]
      rcases ih inside done ahead with ⟨opened, _⟩ | ⟨_, opened, fresh⟩
      · exact absurd opened named
      · rw [moved] at opened
        exact .inr ⟨fun passed => here passed.1, opened.of_shift next expected, fresh⟩

theorem offerIn_cursor (bit : String) (s : ParseState) (arguments : List Argument) :
    (offerIn bit s arguments).state.cursor = s.cursor := by
  induction arguments with
  | nil => rfl
  | cons a rest ih =>
    rw [offerIn]
    split
    · rfl
    · rfl
    · exact ih

theorem handleArgument_cursor (done : s.handleArgument bit = .done t) : t.cursor = s.cursor := by
  have kept := offerIn_cursor bit s s.queue
  unfold handleArgument at done
  rwa [queue, done] at kept

/-- The bits of a parse that go to the arguments, each with the index of the scope that is open
then, up to the first that fails. -/
def handed : List String → ParseState → List (Nat × String)
  | [], _ => []
  | bit :: rest, s =>
    let later :=
      match { s with todo := bit :: rest }.handleBit bit with
      | .done t => handed rest t
      | .failed _ _ => []
    if s.cursor.next? = some bit ∨ s.cursor.isLater bit = true then later
    else (s.cursor.index, bit) :: later

theorem handed_of_done {rest : List String}
    (done : { s with todo := bit :: rest }.handleBit bit = .done t) :
    handed (bit :: rest) s =
      if bit ∈ s.cursor.remaining then handed rest t else (s.cursor.index, bit) :: handed rest t := by
  rw [handed, done]
  simp only [Cursor.expected_iff]

theorem handed_of_failed {rest : List String} {e : ParseError}
    (failed : { s with todo := bit :: rest }.handleBit bit = .failed e t) :
    handed (bit :: rest) s = if bit ∈ s.cursor.remaining then [] else [(s.cursor.index, bit)] := by
  rw [handed, failed]
  simp only [Cursor.expected_iff]

theorem routed_of_done {todo : List String} (rest : List String)
    (done : { s with todo }.handleBit bit = .done t) :
    s.cursor.routed (bit :: rest) =
      if bit ∈ s.cursor.remaining then t.cursor.routed rest
      else (s.cursor.index, bit) :: t.cursor.routed rest := by
  split
  · rename_i expected
    have moved := handleBit_breakpoint (s := { s with todo }) expected done
    rcases moved with ⟨here, later, rfl⟩ | ⟨open_next, opened, _⟩
    · exact Cursor.routed_of_repeated expected ⟨here, later⟩
    · exact Cursor.routed_of_opened expected open_next opened
  · rename_i content
    rw [handleBit_of_notMem (s := { s with todo }) content] at done
    rw [handleArgument_cursor done]
    exact Cursor.routed_of_notMem content

theorem handed_isPrefix_routed (bits : List String) (s : ParseState) : handed bits s <+: s.cursor.routed bits := by
  induction bits generalizing s with
  | nil => exact List.nil_prefix
  | cons bit rest ih =>
    cases handled : { s with todo := bit :: rest }.handleBit bit with
    | failed e t =>
      rw [handed_of_failed handled]
      split
      · exact List.nil_prefix
      · rename_i content
        rw [Cursor.routed_of_notMem content]
        exact (List.prefix_cons_inj _).mpr List.nil_prefix
    | done t =>
      rw [handed_of_done handled, routed_of_done rest handled]
      split
      · exact ih t
      · exact (List.prefix_cons_inj _).mpr (ih t)

theorem handed_eq_routed {bits : List String} (done : Parser.breakpoints bits s = .done t) :
    handed bits s = s.cursor.routed bits := by
  induction bits generalizing s with
  | nil => rfl
  | cons bit rest ih =>
    obtain ⟨u, handled, done⟩ := Step.andThen_eq_done.mp done
    rw [handed_of_done handled, routed_of_done rest handled, ih done]

end ParseState

end TagGrammar
