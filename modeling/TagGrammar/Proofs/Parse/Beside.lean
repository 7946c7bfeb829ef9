import TagGrammar.Proofs.Argument.Errors
import TagGrammar.Proofs.Parse.Coherence
import TagGrammar.Proofs.Parse.Routing

namespace TagGrammar

open Argument (namesIn leavesIn)
open Kwargs (AgreeOn)
open ParseError (OfArgument)

namespace ParseState

variable {o : Options} {s u : ParseState} {bit : String}

/-- Next to a parse, one to which the open scope is all there is. -/
structure Beside (s u : ParseState) : Prop where
  tagname : u.tagname = s.tagname
  current : u.current = s.current
  waiting : u.waiting = s.waiting
  arguments : u.cursor.arguments = s.cursor.arguments
  last : u.cursor.ahead = []
  kwargs : AgreeOn (namesIn s.cursor.arguments) s.kwargs u.kwargs

theorem Beside.note_left (beside : s.Beside u) (todo : List String) (events : List Event) :
    { s with todo, events }.Beside u :=
  ⟨beside.tagname, beside.current, beside.waiting, beside.arguments, beside.last, beside.kwargs⟩

theorem Beside.note_right (beside : s.Beside u) (todo : List String) :
    s.Beside { u with todo } :=
  ⟨beside.tagname, beside.current, beside.waiting, beside.arguments, beside.last, beside.kwargs⟩

theorem Beside.remaining (beside : s.Beside u) : u.cursor.remaining = [] := by
  rw [Cursor.remaining, beside.last, List.map_nil]

/-- How two parses get on with a bit that both hand to the same arguments. -/
inductive Paired (bit : String) (s u : ParseState) : Step → Step → Prop
  | done {s' u' : ParseState} (beside : s'.Beside u') : Paired bit s u (.done s') (.done u')
  | refused {e : ParseError} {s' u' : ParseState} (own : OfArgument s.tagname e) :
    Paired bit s u (.failed e s') (.failed e u')
  | unexpected {s' u' : ParseState} :
    Paired bit s u (.failed (s.unexpectedBit bit) s') (.failed (u.unexpectedBit bit) u')

theorem offerIn_paired (beside : s.Beside u) {arguments : List Argument}
    (inside : arguments ⊆ s.cursor.arguments) :
    Paired bit s u (offerIn bit s arguments) (offerIn bit u arguments) := by
  induction arguments with
  | nil => exact .unexpected
  | cons a rest ih =>
    have own : a.storedNames ⊆ namesIn s.cursor.arguments :=
      fun n member => Argument.mem_namesIn.mpr ⟨a, inside List.mem_cons_self, member⟩
    have alike : Offer.Alike a.storedNames s.kwargs u.kwargs (a.offer s.tagname bit s.kwargs)
        (a.offer s.tagname bit u.kwargs) := Argument.offer_alike (beside.kwargs.mono own)
    rw [offerIn, offerIn, beside.tagname]
    generalize first : a.offer s.tagname bit s.kwargs = answer,
      a.offer s.tagname bit u.kwargs = answer' at alike
    cases alike with
    | stored value _ =>
      apply Paired.done
      constructor
      · rfl
      · rfl
      · rfl
      · exact beside.arguments
      · exact beside.last
      · exact beside.kwargs.insert _ value
    | declined => exact ih (List.subset_of_cons_subset inside)
    | failed e => exact .refused (Argument.offer_failed first)

theorem handleArgument_paired (beside : s.Beside u) (coherent : Coherent o s) :
    Paired bit s u (s.handleArgument bit) (u.handleArgument bit) := by
  unfold handleArgument
  rw [beside.current, beside.waiting]
  exact offerIn_paired beside coherent.queue.subset

theorem offerIn_failed {arguments : List Argument} {e : ParseError} {t : ParseState}
    (failed : offerIn bit s arguments = .failed e t) :
    OfArgument s.tagname e ∨ e = s.unexpectedBit bit := by
  induction arguments with
  | nil =>
    cases failed
    exact .inr rfl
  | cons a rest ih =>
    rw [offerIn] at failed
    split at failed
    · cases failed
    · rename_i refused
      cases failed
      exact .inl (Argument.offer_failed refused)
    · exact ih failed

theorem settle_agree (tagname : String) {names : List String} {left right : Kwargs}
    {arguments : List Argument} (same : AgreeOn names left right)
    (own : namesIn arguments ⊆ names) :
    (settle tagname left arguments).2 = (settle tagname right arguments).2 ∧
      AgreeOn names (settle tagname left arguments).1 (settle tagname right arguments).1 := by
  induction arguments generalizing left right with
  | nil => exact ⟨rfl, same⟩
  | cons a rest ih =>
    rw [Argument.namesIn_cons] at own
    have head := Argument.isSatisfied_congr (same.mono (List.append_subset.mp own).1)
    rw [settle, settle, head]
    split
    · exact ⟨rfl, same⟩
    · exact ih (same.fill a.leaves) (List.append_subset.mp own).2

theorem settle_failed {tagname : String} {kwargs kwargs' : Kwargs} {arguments : List Argument}
    {e : ParseError} (failed : settle tagname kwargs arguments = (kwargs', some e)) :
    ∃ argument, e = .argumentRequired tagname argument := by
  induction arguments generalizing kwargs with
  | nil => cases failed
  | cons a rest ih =>
    rw [settle] at failed
    split at failed
    · cases failed
      exact ⟨a.name, rfl⟩
    · exact ih failed

theorem checkRequired_beside (beside : s.Beside u) :
    (∃ s' u', s.checkRequired = .done s' ∧ u.checkRequired = .done u' ∧
      AgreeOn (namesIn s.cursor.arguments) s'.kwargs u'.kwargs) ∨
    ∃ argument s' u', s.checkRequired = .failed (.argumentRequired s.tagname argument) s' ∧
      u.checkRequired = .failed (.argumentRequired s.tagname argument) u' := by
  obtain ⟨same, agree⟩ := settle_agree s.tagname beside.kwargs (List.Subset.refl _)
  unfold checkRequired
  rw [beside.tagname, beside.arguments]
  cases first : settle s.tagname s.kwargs s.cursor.arguments with
  | mk left e =>
    cases second : settle s.tagname u.kwargs s.cursor.arguments with
    | mk right e' =>
      rw [first, second] at same agree
      cases same
      cases e with
      | none => exact .inl ⟨_, _, rfl, rfl, agree⟩
      | some e =>
        obtain ⟨argument, rfl⟩ := settle_failed first
        exact .inr ⟨argument, _, _, rfl, rfl⟩

theorem finish_of_last (last : s.cursor.ahead = []) : s.finish = s.checkRequired := by
  unfold finish
  cases checked : s.checkRequired with
  | failed e t => rfl
  | done t =>
    rw [checkRequired_done checked, Step.andThen_done]
    change closeAll s.cursor.ahead _ = _
    rw [last]
    rfl

theorem finish_of_more {scope : Scope} {rest : List Scope} (left : s.cursor.ahead = scope :: rest) :
    s.finish = s.checkRequired.andThen fun t => t.enterNext.finish := by
  unfold finish
  cases checked : s.checkRequired with
  | failed e t => rfl
  | done t =>
    have kept := checkRequired_cursor checked
    rw [Step.andThen_done, Step.andThen_done, kept, left, closeAll]
    cases checked' : t.enterNext.checkRequired with
    | failed e v => rfl
    | done v =>
      have entered : v.cursor = s.cursor.shift := by
        rw [checkRequired_cursor checked', ← kept]
        rfl
      rw [Step.andThen_done, Step.andThen_done, entered, Cursor.shift_cons left]

theorem Beside.start (o : Options) (tagname : String) :
    (ParseState.start o.grammar tagname).Beside (.start (o.scope 0).grammar tagname) where
  tagname := rfl
  current := rfl
  waiting := rfl
  arguments := rfl
  last := rfl
  kwargs := fun _ _ => rfl

theorem Coherent.beside_enterNext (coherent : Coherent o s) {scope : Scope} {rest : List Scope}
    (left : s.cursor.ahead = scope :: rest) :
    s.enterNext.Beside (.start (o.scope (s.cursor.index + 1)).grammar s.tagname) := by
  have moved : s.enterNext.cursor.index = s.cursor.index + 1 := by
    change s.cursor.shift.index = _
    rw [Cursor.shift_cons left]
  have arguments : s.enterNext.cursor.arguments = o.grammar.scopeArguments (s.cursor.index + 1) := by
    rw [← moved]
    exact coherent.cursor.shift.arguments
  constructor
  · rfl
  · rfl
  · exact arguments.symm
  · exact arguments.symm
  · rfl
  · intro n own
    rw [arguments] at own
    exact coherent.get?_ahead (Nat.lt_succ_self _) own

end ParseState

end TagGrammar
