import TagGrammar.Proofs.Parse.Beside

namespace TagGrammar

open Argument (leavesIn namesIn)

/-- In the parse of the bits from a state on, these are the ones that the argument takes, in order. A
breakpoint ahead is none of them. -/
inductive Leaf.CapturesAll (l : Leaf) : List String → ParseState → List String → Prop
  | nil (s : ParseState) : l.CapturesAll [] s []
  | take {bit : String} {rest captured : List String} {s t : ParseState}
      (content : bit ∉ s.cursor.remaining)
      (handled : { s with todo := bit :: rest }.handleBit bit = .done t)
      (taken : l.offer s.tagname bit s.kwargs = .accepted t.kwargs)
      (next : l.CapturesAll rest t captured) : l.CapturesAll (bit :: rest) s (bit :: captured)
  | leave {bit : String} {rest captured : List String} {s t : ParseState}
      (handled : { s with todo := bit :: rest }.handleBit bit = .done t)
      (other : bit ∈ s.cursor.remaining ∨ l.offer s.tagname bit s.kwargs ≠ .accepted t.kwargs)
      (next : l.CapturesAll rest t captured) : l.CapturesAll (bit :: rest) s captured

theorem Leaf.CapturesAll.unique {l : Leaf} {bits first second : List String} {s : ParseState}
    (left : l.CapturesAll bits s first) (right : l.CapturesAll bits s second) : first = second := by
  induction left generalizing second with
  | nil =>
    cases right
    rfl
  | take content handled taken next ih =>
    cases right with
    | take _ handled' _ next' =>
      cases handled.symm.trans handled'
      rw [ih next']
    | leave handled' other _ =>
      cases handled.symm.trans handled'
      rcases other with expected | untaken
      · exact absurd expected content
      · exact absurd taken untaken
  | leave handled other next ih =>
    cases right with
    | take content handled' taken _ =>
      cases handled.symm.trans handled'
      rcases other with expected | untaken
      · exact absurd expected content
      · exact absurd taken untaken
    | leave handled' _ next' =>
      cases handled.symm.trans handled'
      exact ih next'

theorem Leaf.CapturesAll.sublist {l : Leaf} {bits captured : List String} {s : ParseState}
    (log : l.CapturesAll bits s captured) : captured.Sublist bits := by
  induction log with
  | nil => exact .slnil
  | take _ _ _ _ ih => exact ih.cons_cons _
  | leave _ _ _ ih => exact ih.cons _

/-- The later table has, over the earlier one, defaults of declared arguments and nothing else. -/
def Kwargs.Fills (o : Options) (before after : Kwargs) : Prop :=
  ∃ leaves, leaves ⊆ leavesIn o.grammar.arguments ∧ after = before.fill leaves

variable {o : Options} {l : Leaf} {bit word : String} {bits before : List String}

namespace Kwargs.Fills

variable {first second third : Kwargs}

theorem refl (kwargs : Kwargs) : Fills o kwargs kwargs := ⟨[], List.nil_subset _, rfl⟩

theorem trans (earlier : Fills o first second) (later : Fills o second third) : Fills o first third := by
  obtain ⟨leaves, declared, rfl⟩ := earlier
  obtain ⟨more, declared', rfl⟩ := later
  exact ⟨leaves ++ more, List.append_subset.mpr ⟨declared, declared'⟩, (fill_append _ _ _).symm⟩

/-- A default counts as no bit. -/
theorem heldIn (fills : Fills o first second) (member : l ∈ leavesIn o.grammar.arguments)
    (held : l.HeldIn first bits) : l.HeldIn second bits := by
  obtain ⟨leaves, declared, rfl⟩ := fills
  rcases held with ⟨nothing, rfl⟩ | ⟨v, present, holds⟩
  · have filled := Kwargs.get?_fill first leaves l.name
    rw [nothing, Option.none_or] at filled
    cases found : leaves.find? (·.name = l.name) with
    | none =>
      rw [found] at filled
      exact .inl ⟨filled, rfl⟩
    | some l' =>
      have own : l'.name = l.name := by simpa using List.find?_some found
      cases Options.leaf_unique (declared (List.mem_of_find?_eq_some found)) member own
      rw [found] at filled
      exact .inr ⟨l.defaultValue, filled, .default⟩
  · exact .inr ⟨v, Kwargs.get?_fill_of_some present, holds⟩

end Kwargs.Fills

namespace ParseState

open Kwargs (Fills)

variable {s t : ParseState}

theorem Coherent.subset_declared (coherent : Coherent o s) :
    leavesIn s.cursor.arguments ⊆ leavesIn o.grammar.arguments := by
  intro l member
  rw [coherent.cursor.arguments] at member
  exact coherent.mem_arguments (Nat.le_refl _) member

theorem checkRequired_fills (coherent : Coherent o s) (done : s.checkRequired = .done t) :
    Fills o s.kwargs t.kwargs :=
  ⟨_, coherent.subset_declared, by rw [checkRequired_done done]⟩

theorem handleNextBreakpoint_fills (coherent : Coherent o s) (done : s.handleNextBreakpoint = .done t) :
    Fills o s.kwargs t.kwargs :=
  ⟨_, coherent.subset_declared, by rw [handleNextBreakpoint_done done]; rfl⟩

theorem closeUntil_fills {ahead : List Scope} (coherent : Coherent o s)
    (done : closeUntil word ahead s = .done t) : Fills o s.kwargs t.kwargs := by
  induction ahead generalizing s with
  | nil =>
    cases done
    exact .refl _
  | cons scope rest ih =>
    rw [closeUntil] at done
    split at done
    · cases done
      exact .refl _
    · obtain ⟨u, handled, done⟩ := Step.andThen_eq_done.mp done
      have reached : Coherent o u := coherent.moves (s.handleNextBreakpoint_moves.of_done handled)
      exact (handleNextBreakpoint_fills coherent handled).trans (ih reached done)

theorem handleBit_fills (coherent : Coherent o s) (expected : bit ∈ s.cursor.remaining)
    (done : s.handleBit bit = .done t) : Fills o s.kwargs t.kwargs := by
  by_cases next : s.cursor.next? = some bit
  · rw [handleBit_of_next next] at done
    exact handleNextBreakpoint_fills coherent done
  · rw [handleBit_of_later expected next] at done
    exact closeUntil_fills coherent done

theorem finish_fills (coherent : Coherent o s) (done : s.finish = .done t) :
    Fills o s.kwargs t.kwargs := by
  generalize left : s.cursor.ahead = scopes
  induction scopes generalizing s with
  | nil =>
    rw [finish_of_last left] at done
    exact checkRequired_fills coherent done
  | cons scope scopes ih =>
    rw [finish_of_more left] at done
    obtain ⟨u, checked, done⟩ := Step.andThen_eq_done.mp done
    have moves : Moves s u := s.checkRequired_moves.of_done checked
    have entered : Coherent o u.enterNext :=
      (coherent.moves moves).enter (closed_of_checkRequired checked)
    have ahead : u.enterNext.cursor.ahead = scopes := by
      change u.cursor.shift.ahead = scopes
      rw [checkRequired_cursor checked, Cursor.shift_cons left]
    have later : Fills o u.enterNext.kwargs t.kwargs := ih entered done ahead
    exact (checkRequired_fills coherent checked).trans later

/-- A bit that is offered goes to what the leaf holds if the leaf takes it, and else changes nothing
of that. -/
theorem handleArgument_heldIn (coherent : Coherent o s) (member : l ∈ leavesIn o.grammar.arguments)
    (held : l.HeldIn s.kwargs before) (done : s.handleArgument bit = .done t) :
    (l.offer s.tagname bit s.kwargs = .accepted t.kwargs ∧ l.HeldIn t.kwargs (before ++ [bit])) ∨
      (l.offer s.tagname bit s.kwargs ≠ .accepted t.kwargs ∧ l.HeldIn t.kwargs before) := by
  by_cases taken : l.offer s.tagname bit s.kwargs = .accepted t.kwargs
  · obtain ⟨value, takes⟩ := Leaf.offer_takes held taken
    refine .inl ⟨taken, .inr ⟨value, ?_, takes.holds⟩⟩
    rw [takes.stored, Table.get?_insert_self]
  · obtain ⟨a, waiting, kwargs, rest, answer, rfl⟩ := offerIn_done done
    obtain ⟨taker, below, answer⟩ := Argument.exists_leaf_offer answer
    have here : a ∈ s.cursor.arguments := (rest.trans coherent.queue).subset List.mem_cons_self
    have declared : taker ∈ leavesIn o.grammar.arguments := by
      apply coherent.subset_declared
      rw [Argument.leavesIn_eq_flatMap]
      exact List.mem_flatMap.mpr ⟨a, here, below⟩
    have foreign : l.name ∉ (Argument.leaf taker).storedNames := by
      rw [Argument.storedNames_leaf, List.mem_singleton]
      intro same
      cases Options.leaf_unique member declared same
      exact taken answer
    have kept : kwargs.get? l.name = s.kwargs.get? l.name :=
      Argument.get?_offer_of_notMem (by rwa [Argument.offer]) foreign
    refine .inr ⟨taken, ?_⟩
    unfold Leaf.HeldIn at held ⊢
    rwa [kept]

theorem breakpoints_heldIn (coherent : Coherent o s) (member : l ∈ leavesIn o.grammar.arguments)
    (held : l.HeldIn s.kwargs before) (done : Parser.breakpoints bits s = .done t) :
    ∃ captured, l.CapturesAll bits s captured ∧ l.HeldIn t.kwargs (before ++ captured) := by
  induction bits generalizing s before with
  | nil =>
    have noted := coherent.move (.note s [] s.events)
    refine ⟨[], .nil s, ?_⟩
    rw [List.append_nil]
    exact (finish_fills noted done).heldIn member held
  | cons bit rest ih =>
    obtain ⟨u, handled, done⟩ := Step.andThen_eq_done.mp done
    have noted := coherent.move (.note s (bit :: rest) s.events)
    have reached : Coherent o u := noted.moves ((handleBit_moves bit _).of_done handled)
    by_cases expected : bit ∈ s.cursor.remaining
    · have kept := (handleBit_fills noted expected handled).heldIn member held
      obtain ⟨captured, next, last⟩ := ih reached kept done
      exact ⟨captured, .leave handled (.inl expected) next, last⟩
    · have offered := handled
      rw [handleBit_of_notMem (s := { s with todo := bit :: rest }) expected] at offered
      rcases handleArgument_heldIn noted member held offered with ⟨taken, more⟩ | ⟨untaken, kept⟩
      · obtain ⟨captured, next, last⟩ := ih reached more done
        rw [List.append_assoc] at last
        exact ⟨bit :: captured, .take expected handled taken next, last⟩
      · obtain ⟨captured, next, last⟩ := ih reached kept done
        exact ⟨captured, .leave handled (.inr untaken) next, last⟩

/-- In a parse that ends, each declared argument holds what the bits that it took amount to. -/
theorem exists_captured {tagname : String}
    (done : Parser.breakpoints bits (.start o.grammar tagname) = .done t)
    (member : l ∈ leavesIn o.grammar.arguments) :
    ∃ captured v, l.CapturesAll bits (.start o.grammar tagname) captured ∧
      t.kwargs.get? l.name = some v ∧ l.Holds captured v := by
  obtain ⟨captured, log, held⟩ :=
    breakpoints_heldIn (.start o tagname) member (.inl ⟨rfl, rfl⟩) done
  rw [List.nil_append] at held
  have declared : l.name ∈ namesIn o.grammar.arguments :=
    Argument.mem_namesIn_iff_leaf.mpr ⟨l, member, rfl⟩
  have present := (breakpoints_contains_iff done _).mpr declared
  obtain ⟨v, found⟩ := Table.contains_iff.mp present
  rcases held with ⟨nothing, _⟩ | ⟨w, stored, holds⟩
  · cases nothing.symm.trans found
  · exact ⟨captured, w, log, stored, holds⟩

end ParseState

end TagGrammar
