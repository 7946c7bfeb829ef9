import TagGrammar.Proofs.Parse.Segments

namespace TagGrammar

section Route

variable {k : Nat} {opened : Option String} {ahead bits rest : List String} {bit word : String}

/-- What a route leaves to the last scope. -/
def routedLast (k : Nat) (opened : Option String) (ahead bits : List String) : List String :=
  routedTo (k + ahead.length) (route k opened ahead bits)

theorem routedLast_here (k : Nat) (opened : Option String) (bits : List String) :
    routedLast k opened [] bits = bits := by
  rw [routedLast, List.length_nil, Nat.add_zero]
  induction bits with
  | nil => rfl
  | cons bit rest ih => rw [route, if_neg List.not_mem_nil, routedTo_cons_self, ih]

theorem routedLast_nil (k : Nat) (opened : Option String) (ahead : List String) :
    routedLast k opened ahead [] = [] := rfl

theorem routedLast_cons (more : ahead ≠ []) (bit : String) (rest : List String) :
    routedLast k opened ahead (bit :: rest) =
      if bit ∈ ahead ∧ ¬(opened = some bit ∧ ahead.head? ≠ some bit) then
        routedLast (k + ahead.idxOf bit + 1) (some bit) (ahead.drop (ahead.idxOf bit + 1)) rest
      else routedLast k opened ahead rest := by
  rw [routedLast, route]
  by_cases expected : bit ∈ ahead
  · rw [if_pos expected]
    by_cases passed : opened = some bit ∧ ahead.head? ≠ some bit
    · rw [if_pos passed, if_neg fun opens => opens.2 passed, routedLast]
    · have place := List.idxOf_lt_length_of_mem expected
      have last : k + ahead.length =
          k + ahead.idxOf bit + 1 + (ahead.drop (ahead.idxOf bit + 1)).length := by
        rw [List.length_drop]
        omega
      rw [if_neg passed, if_pos ⟨expected, passed⟩, last, routedLast]
  · have before : k ≠ k + ahead.length := by
      have := List.length_pos_of_ne_nil more
      omega
    rw [if_neg expected, if_neg fun opens => expected opens.1, routedTo_cons_of_ne before,
      routedLast]

/-- What the last scope gets ends with the last bit. -/
theorem getLast?_routedLast (k : Nat) (opened : Option String) (ahead bits : List String)
    (word : String) :
    ∀ bit ∈ (routedLast k opened ahead (bits ++ [word])).getLast?, bit = word := by
  intro bit member
  induction bits generalizing k opened ahead with
  | nil =>
    by_cases here : ahead = []
    · rw [here, routedLast_here] at member
      exact (Option.some.inj member).symm
    · rw [List.nil_append, routedLast_cons here, routedLast_nil, routedLast_nil, ite_self] at member
      cases member
  | cons first rest ih =>
    by_cases here : ahead = []
    · rw [here, routedLast_here, List.getLast?_concat] at member
      exact (Option.some.inj member).symm
    · rw [List.cons_append, routedLast_cons here] at member
      split at member
      · exact ih _ _ _ member
      · exact ih _ _ _ member

/-- The last scope is open, or the word opens it and opened none of the scopes before it. -/
def OpensLast (word : String) (opened : Option String) (ahead : List String) : Prop :=
  ahead = [] ∨ opened ≠ some word ∧ ∃ before, ahead = before ++ [word] ∧ word ∉ before

theorem OpensLast.drop (opens : OpensLast word opened ahead) (expected : bit ∈ ahead) :
    OpensLast word (some bit) (ahead.drop (ahead.idxOf bit + 1)) := by
  rcases opens with rfl | ⟨_, before, rfl, fresh⟩
  · cases expected
  · by_cases inside : bit ∈ before
    · refine .inr ⟨?_, before.drop (before.idxOf bit + 1), ?_, ?_⟩
      · exact fun same => fresh (Option.some.inj same ▸ inside)
      · rw [List.idxOf_append_of_mem inside,
          List.drop_append_of_le_length (List.idxOf_lt_length_of_mem inside)]
      · exact fun member => fresh (List.mem_of_mem_drop member)
    · have own : bit = word := by simpa [inside] using expected
      left
      rw [List.idxOf_append_of_notMem inside, own, List.idxOf_cons_self]
      exact List.drop_eq_nil_of_le (by simp)

/-- Behind the word that opens it, the last scope gets a bit. -/
theorem OpensLast.routedLast_ne_nil (opens : OpensLast word opened ahead) (bits : List String)
    (bit : String) : routedLast k opened ahead (bits ++ [word, bit]) ≠ [] := by
  induction bits generalizing k opened ahead with
  | nil =>
    rcases opens with rfl | ⟨other, before, rfl, fresh⟩
    · rw [routedLast_here]
      exact List.cons_ne_nil _ _
    · -- the word stands last among those ahead, so it leaves none of them behind
      have place : (before ++ [word]).idxOf word = before.length := by
        rw [List.idxOf_append_of_notMem fresh, List.idxOf_cons_self, Nat.add_zero]
      have expected : word ∈ before ++ [word] := List.mem_concat_self
      rw [List.nil_append, routedLast_cons (List.concat_ne_nil word before),
        if_pos ⟨expected, fun passed => other passed.1⟩, place,
        List.drop_eq_nil_of_le (by simp), routedLast_here]
      exact List.cons_ne_nil _ _
  | cons first rest ih =>
    by_cases here : ahead = []
    · rw [here, routedLast_here]
      exact List.cons_ne_nil _ _
    · rw [List.cons_append, routedLast_cons here]
      split
      · rename_i opened
        exact ih (opens.drop opened.1)
      · exact ih opens

end Route

namespace Grammar

variable {g : Grammar} {s : Scope}

theorem scopeArguments_last (last : g.later.getLast? = some s) :
    g.scopeArguments g.later.length = s.arguments := by
  obtain ⟨before, whole⟩ := List.getLast?_eq_some_iff.mp last
  have behind : g.later.drop before.length = [s] := by rw [whole, List.drop_left]
  rw [whole, List.length_append, List.length_singleton]
  exact scopeArguments_succ behind

theorem opensLast_of_last (last : g.later.getLast? = some s)
    (once : s.breakpoint ∉ g.breakpoints.dropLast) : OpensLast s.breakpoint none g.breakpoints := by
  obtain ⟨before, whole⟩ := List.getLast?_eq_some_iff.mp last
  have words : g.breakpoints = before.map Scope.breakpoint ++ [s.breakpoint] := by
    rw [breakpoints, whole, List.map_append, List.map_singleton]
  rw [words, List.dropLast_concat] at once
  exact .inr ⟨(Option.some_ne_none s.breakpoint).symm, _, words, once⟩

end Grammar

theorem Segmented.stores_of_singleton {tagname : String} {kwargs : Kwargs} {a : Argument}
    {bits : List String} (cut : Segmented tagname kwargs [a] bits) : a.Stores kwargs bits := by
  cases cut with
  | cons stored taken maximal next =>
    cases next
    rwa [List.append_nil]

namespace ParseState

open Argument (namesIn leavesIn)
open Kwargs (AgreeOn)

variable {o : Options} {tagname : String} {bits : List String} {t : ParseState} {a : Argument}

theorem finish_required {s : ParseState} (single : s.cursor.arguments = [a])
    (required : a.header.required = true) (done : s.finish = .done t) :
    a.isSatisfied s.kwargs = true := by
  obtain ⟨u, checked, _⟩ := Step.andThen_eq_done.mp done
  rw [checkRequired, single, settle] at checked
  split at checked
  · rename_i settled
    by_contra unmet
    rw [if_pos (by simp [required, unmet])] at settled
    cases settled
  · cases checked

theorem segmented_of_alone {k : Nat} {v : ParseState}
    (alone : Parser.breakpoints bits (.start (o.scope k).grammar tagname) = .done v)
    (agree : AgreeOn (namesIn (o.grammar.scopeArguments k)) t.kwargs v.kwargs) :
    Segmented tagname t.kwargs (o.grammar.scopeArguments k) bits := by
  obtain ⟨final, served, filled⟩ := breakpoints_served (by rfl) alone
  have distinct := Options.nodup_scope (o := o) k
  have distinct' : ((leavesIn (o.grammar.scopeArguments k)).map Leaf.name).Nodup := by
    rwa [Argument.namesIn_eq_map] at distinct
  refine served.cut_all distinct' (List.Subset.refl _) distinct (fun n _ => rfl) fun n member => ?_
  rw [agree n member, filled]
  rfl

/-- In a parse that ends, what the route leaves to the last scope is what its one argument has
stored, and more than nothing where that is required. -/
theorem stores_of_done (done : Parser.breakpoints bits (.start o.grammar tagname) = .done t)
    (single : o.grammar.scopeArguments o.grammar.later.length = [a]) :
    a.Stores t.kwargs (routedLast 0 none o.grammar.breakpoints bits) ∧
      (a.header.required = true → routedLast 0 none o.grammar.breakpoints bits ≠ []) := by
  have last : routedTo o.grammar.later.length (route 0 none o.grammar.breakpoints bits) =
      routedLast 0 none o.grammar.breakpoints bits := by
    rw [routedLast, Nat.zero_add, Grammar.breakpoints, List.length_map]
  have verdict := (Apart.start o tagname bits).verdict
  rw [done] at verdict
  obtain ⟨v, alone⟩ := Step.error?_eq_none_iff.mp
    (verdict.error?_eq_none_iff.mp rfl _ (Nat.le_refl o.grammar.later.length))
  have agree := verdict.agree rfl (Nat.le_refl _)
  rw [alone] at agree
  rw [parseAlone, last] at alone
  constructor
  · have cut := segmented_of_alone alone agree
    rw [single] at cut
    exact cut.stores_of_singleton
  · intro required nothing
    rw [nothing] at alone
    obtain ⟨n, _, present⟩ := Argument.isSatisfied_iff.mp (finish_required single required alone)
    cases (present : Table.contains .empty n = true)

/-- A leaf that has the last scope to itself holds what the route leaves to it. -/
theorem holds_of_done {l : Leaf} {word : String}
    (done : Parser.breakpoints bits (.start o.grammar tagname) = .done t)
    (last : o.grammar.later.getLast? = some ⟨word, [.leaf l]⟩) :
    ∃ v, t.kwargs.get? l.name = some v ∧ l.Holds (routedLast 0 none o.grammar.breakpoints bits) v := by
  obtain ⟨stores, _⟩ := stores_of_done done (Grammar.scopeArguments_last last)
  cases stores with
  | leaf own => exact own

/-- That is more than nothing behind the breakpoint of the last scope, where this is either of no other
scope or the argument is required. -/
theorem routedLast_ne_nil_of_done {l : Leaf} {word bit : String}
    (done : Parser.breakpoints (bits ++ [word, bit]) (.start o.grammar tagname) = .done t)
    (last : o.grammar.later.getLast? = some ⟨word, [.leaf l]⟩)
    (reached : word ∈ o.grammar.breakpoints.dropLast → l.header.required = true) :
    routedLast 0 none o.grammar.breakpoints (bits ++ [word, bit]) ≠ [] := by
  obtain ⟨_, required⟩ := stores_of_done done (Grammar.scopeArguments_last last)
  by_cases repeated : word ∈ o.grammar.breakpoints.dropLast
  · exact required (reached repeated)
  · exact (Grammar.opensLast_of_last last repeated).routedLast_ne_nil bits bit

end ParseState

end TagGrammar
