import TagGrammar.Proofs.Parse.Coherence
import TagGrammar.Proofs.Parse.Routing

namespace TagGrammar

open Argument (namesIn)

/-- Between two states, the nearest scope ahead that the word names is opened, and all scopes up to
it are closed. -/
structure ParseState.Opens (g : Grammar) (word : String) (s t : ParseState) : Prop where
  forward : s.cursor.index < t.cursor.index
  opener : g.opener t.cursor.index = some word
  nearest : ∀ k, s.cursor.index < k → g.opener k = some word → t.cursor.index ≤ k
  breakpoint : t.cursor.breakpoint = some word
  queue : t.current = none ∧ t.waiting = g.scopeArguments t.cursor.index
  closed : ∀ k, s.cursor.index ≤ k → k < t.cursor.index →
    ∀ n ∈ namesIn (g.scopeArguments k), t.kwargs.contains n = true

namespace Cursor

variable {g : Grammar} {c c' : Cursor} {word : String}

theorem idxOf_le_of_getElem? {words : List String} {i : Nat} (here : words[i]? = some word) :
    words.idxOf word ≤ i := by
  induction words generalizing i with
  | nil => cases here
  | cons first rest ih =>
    by_cases own : first = word
    · rw [own, List.idxOf_cons_self]
      exact Nat.zero_le i
    · cases i with
      | zero => exact absurd (Option.some.inj here) own
      | succ i =>
        rw [List.idxOf_cons_ne _ own]
        exact Nat.succ_le_succ (ih here)

theorem Opened.opener (opened : c.Opened word c') (position : c.At g)
    (expected : word ∈ c.remaining) : g.opener c'.index = some word := by
  have found : c.remaining[c.remaining.idxOf word]? = some word := by
    rw [List.getElem?_eq_getElem (List.idxOf_lt_length_of_mem expected), List.getElem_idxOf]
  rw [opened.index, Grammar.opener]
  generalize c.remaining.idxOf word = i at found
  rw [position.remaining, List.getElem?_drop] at found
  exact found

theorem Opened.nearest (opened : c.Opened word c') (position : c.At g) {k : Nat}
    (ahead : c.index < k) (named : g.opener k = some word) : c'.index ≤ k := by
  cases k with
  | zero => cases named
  | succ j =>
    have place : c.remaining[j - c.index]? = some word := by
      rw [position.remaining, List.getElem?_drop, Nat.add_sub_cancel' (Nat.le_of_lt_succ ahead)]
      exact named
    have first := idxOf_le_of_getElem? place
    have reached := opened.index
    omega

end Cursor

namespace ParseState

/-- A breakpoint ahead opens the nearest scope that it names, in every state that some actions lead
to, except for the word that opened the open scope where another breakpoint comes next: that word
changes nothing. -/
theorem opens_iff (o : Options) (tagname : String) (actions : List Action) (word : String)
    (t : ParseState)
    (expected : word ∈ ((ParseState.start o.grammar tagname).play actions).cursor.remaining)
    (done : ((ParseState.start o.grammar tagname).play actions).handleBit word = .done t) :
    let s := (ParseState.start o.grammar tagname).play actions
    (Opens o.grammar word s t ↔ ¬(s.cursor.breakpoint = some word ∧ s.cursor.next? ≠ some word)) ∧
    (s.cursor.breakpoint = some word ∧ s.cursor.next? ≠ some word → t = s) := by
  intro s
  have coherent : Coherent o s := Coherent.play o tagname actions
  have coherent' : Coherent o t := by
    have moves := s.handleBit_moves word
    rw [done] at moves
    exact coherent.moves moves
  rcases handleBit_breakpoint expected done with ⟨here, later, same⟩ | ⟨open_next, opened, fresh⟩
  · refine ⟨⟨fun opens => ?_, fun other => absurd ⟨here, later⟩ other⟩, fun _ => same⟩
    have forward := opens.forward
    rw [same] at forward
    exact absurd forward (Nat.lt_irrefl _)
  · refine ⟨⟨fun _ => open_next, fun _ => ?_⟩, fun passed => absurd passed open_next⟩
    constructor
    · rw [opened.index]
      exact Nat.lt_succ_of_le (Nat.le_add_right _ _)
    · exact opened.opener coherent.cursor expected
    · exact fun k ahead named => opened.nearest coherent.cursor ahead named
    · exact opened.breakpoint
    · exact ⟨fresh.1, fresh.2.trans coherent'.cursor.arguments⟩
    · exact fun k _ behind n own => coherent'.closed k behind n own

theorem opens_as :
    let o : Options := ⟨⟨[], [⟨"as", [.leaf ⟨.ofName "name", .single .string⟩]⟩], []⟩, .breakpoints, by decide⟩
    let s := (ParseState.start o.grammar "tag").play []
    ∃ t, "as" ∈ s.cursor.remaining ∧ s.handleBit "as" = .done t ∧ Opens o.grammar "as" s t := by
  intro o s
  have expected : "as" ∈ s.cursor.remaining := by decide
  exact ⟨_, expected, rfl, (opens_iff o "tag" [] "as" _ expected rfl).1.mpr fun passed => nomatch passed.1⟩

theorem repeated_breakpoint_ignored :
    let o : Options := ⟨⟨[], [⟨"as", []⟩, ⟨"using", []⟩, ⟨"as", []⟩], []⟩, .breakpoints, by decide⟩
    let s := (ParseState.start o.grammar "tag").play [.bit "as"]
    "as" ∈ s.cursor.remaining ∧ s.handleBit "as" = .done s ∧ ¬Opens o.grammar "as" s s := by
  intro o s
  exact ⟨by decide, rfl, fun opens => absurd opens.forward (Nat.lt_irrefl _)⟩

end ParseState

end TagGrammar
