import TagGrammar.Proofs.Argument.Segment
import TagGrammar.Proofs.Parse.Independence

namespace TagGrammar

open Argument (namesIn leavesIn)
open Kwargs (AgreeOn)

/-- The bits are cut into one segment for each of the arguments, in order. The table has what an
argument makes of its segment, and the bit behind a segment is one that the argument declines. -/
inductive Segmented (tagname : String) (kwargs : Kwargs) : List Argument → List String → Prop
  | nil : Segmented tagname kwargs [] []
  | cons {a : Argument} {rest : List Argument} {segment more : List String} {held : Kwargs}
      (stored : a.Stores kwargs segment) (taken : a.takeAll tagname segment .empty = some held)
      (maximal : ∀ bit ∈ more.head?, a.offer tagname bit held = .declined)
      (next : Segmented tagname kwargs rest more) :
    Segmented tagname kwargs (a :: rest) (segment ++ more)

/-- Bits taken by arguments in their order, each passed over with the first bit that it declines. -/
inductive Served (tagname : String) : List Argument → Kwargs → List String → Kwargs → Prop
  | idle (queue : List Argument) (kwargs : Kwargs) : Served tagname queue kwargs [] kwargs
  | take {a : Argument} {queue : List Argument} {bit : String} {bits : List String}
      {kwargs kwargs' final : Kwargs} (taken : a.offer tagname bit kwargs = .accepted kwargs')
      (next : Served tagname (a :: queue) kwargs' bits final) :
    Served tagname (a :: queue) kwargs (bit :: bits) final
  | pass {a : Argument} {queue : List Argument} {bit : String} {bits : List String}
      {kwargs final : Kwargs} (declined : a.offer tagname bit kwargs = .declined)
      (next : Served tagname queue kwargs (bit :: bits) final) :
    Served tagname (a :: queue) kwargs (bit :: bits) final

namespace Served

variable {tagname : String} {a : Argument} {queue : List Argument} {bits : List String}
  {kwargs final : Kwargs}

theorem cut (served : Served tagname (a :: queue) kwargs bits final) :
    ∃ segment more held, bits = segment ++ more ∧
      a.takeAll tagname segment kwargs = some held ∧
      (∀ bit ∈ more.head?, a.offer tagname bit held = .declined) ∧
      Served tagname queue held more final := by
  generalize whole : a :: queue = arguments at served
  induction served with
  | idle arguments kwargs =>
    exact ⟨[], [], kwargs, rfl, rfl, fun bit member => (nomatch member), .idle queue kwargs⟩
  | take taken next ih =>
    cases whole
    obtain ⟨segment, more, held, rfl, taken_all, maximal, rest⟩ := ih rfl
    refine ⟨_ :: segment, more, held, rfl, ?_, maximal, rest⟩
    rw [Argument.takeAll, taken]
    exact taken_all
  | pass declined next =>
    rename_i bit bits kwargs final _
    cases whole
    refine ⟨[], bit :: bits, kwargs, rfl, rfl, ?_, next⟩
    intro first member
    cases Option.some.inj member
    exact declined

theorem get?_of_notMem (served : Served tagname queue kwargs bits final) {n : String}
    (foreign : n ∉ namesIn queue) : final.get? n = kwargs.get? n := by
  induction served with
  | idle => rfl
  | take taken next ih =>
    rw [Argument.namesIn_cons, List.mem_append, not_or] at foreign
    have later := ih (by rw [Argument.namesIn_cons, List.mem_append, not_or]; exact foreign)
    exact later.trans (Argument.get?_offer_of_notMem taken foreign.1)
  | pass declined next ih =>
    rw [Argument.namesIn_cons, List.mem_append, not_or] at foreign
    exact ih foreign.2

theorem cut_all {whole : Kwargs} {leaves : List Leaf} (served : Served tagname queue kwargs bits final)
    (distinct : (leaves.map Leaf.name).Nodup) (inside : leavesIn queue ⊆ leaves)
    (apart : (namesIn queue).Nodup) (absent : ∀ n ∈ namesIn queue, kwargs.get? n = none)
    (same : AgreeOn (namesIn queue) (final.fill leaves) whole) :
    Segmented tagname whole queue bits := by
  induction queue generalizing kwargs bits with
  | nil =>
    cases served
    exact .nil
  | cons a queue ih =>
    rw [Argument.namesIn_cons] at apart absent same
    rw [Argument.leavesIn] at inside
    obtain ⟨own, others, different⟩ := List.nodup_append.mp apart
    obtain ⟨segment, more, held, rfl, taken, maximal, rest⟩ := served.cut
    have nothing : ∀ n ∈ a.storedNames, kwargs.get? n = none :=
      fun n member => absent n (List.mem_append_left _ member)
    have kept : AgreeOn a.storedNames held final := by
      intro n member
      exact (rest.get?_of_notMem fun later => different n member n later rfl).symm
    have spread : Argument.Spread (Leaf.Got final) a segment :=
      ((Argument.Spread.of_absent nothing).takeAll own taken).got_congr kept
    have unheld : AgreeOn a.storedNames kwargs .empty := fun n member => nothing n member
    obtain ⟨held', taken', agree⟩ := Argument.takeAll_agree unheld taken
    apply Segmented.cons _ taken'
    · intro bit member
      exact Argument.declined_agree agree (maximal bit member)
    · apply ih rest (fun l below => inside (List.mem_append_right _ below)) others
      · intro n member
        have foreign : n ∉ a.storedNames := fun here => different n here n member rfl
        rw [Argument.get?_takeAll_of_notMem taken foreign]
        exact absent n (List.mem_append_right _ member)
      · exact same.mono (List.subset_append_right _ _)
    · apply spread.stores distinct (fun l below => inside (List.mem_append_left _ below))
      exact same.mono (List.subset_append_left _ _)

end Served

namespace ParseState

variable {o : Options} {s t : ParseState} {bit : String} {bits : List String} {final : Kwargs}

theorem offerIn_served {arguments : List Argument} (done : offerIn bit s arguments = .done t)
    (served : Served s.tagname t.queue t.kwargs bits final) :
    Served s.tagname arguments s.kwargs (bit :: bits) final := by
  induction arguments with
  | nil => cases done
  | cons a rest ih =>
    rw [offerIn] at done
    split at done
    · rename_i kwargs taken
      cases done
      exact .take taken served
    · cases done
    · rename_i declined
      exact .pass declined (ih done)

theorem breakpoints_served (last : s.cursor.ahead = [])
    (done : Parser.breakpoints bits s = .done t) :
    ∃ final, Served s.tagname s.queue s.kwargs bits final ∧
      t.kwargs = final.fill (leavesIn s.cursor.arguments) := by
  induction bits generalizing s with
  | nil =>
    rw [Parser.breakpoints, finish_of_last (by exact last)] at done
    refine ⟨s.kwargs, .idle _ _, ?_⟩
    rw [checkRequired_done done]
  | cons bit rest ih =>
    have content : bit ∉ s.cursor.remaining := by
      rw [Cursor.remaining, last]
      exact List.not_mem_nil
    have handled := handleBit_of_notMem (s := { s with todo := bit :: rest }) content
    obtain ⟨u, offered, done⟩ := Step.andThen_eq_done.mp done
    rw [handled] at offered
    have kept : u.cursor = s.cursor := (handleArgument_cursor offered :)
    have moves : Moves { s with todo := bit :: rest } u :=
      (handleArgument_moves bit _).of_done offered
    have tagname : u.tagname = s.tagname := moves.tagname
    obtain ⟨final, served, filled⟩ := ih (kept ▸ last) done
    rw [tagname] at served
    rw [kept] at filled
    exact ⟨final, offerIn_served (s := { s with todo := bit :: rest }) offered served, filled⟩

/-- In a parse that ends, the bits that go to the arguments of a scope are cut into segments, one for
each argument, that its values are made of. -/
theorem segmented (o : Options) (tagname : String) (bits : List String) (t : ParseState)
    (done : Parser.breakpoints bits (.start o.grammar tagname) = .done t) (k : Nat) :
    Segmented tagname t.kwargs (o.grammar.scopeArguments k)
      (routedTo k (handed bits (.start o.grammar tagname))) := by
  have routed : handed bits (.start o.grammar tagname) = route 0 none o.grammar.breakpoints bits :=
    handed_eq_routed done
  rw [routed]
  by_cases bound : k ≤ o.grammar.later.length
  · have verdict := (Apart.start o tagname bits).verdict
    rw [done] at verdict
    have ended := verdict.error?_eq_none_iff.mp rfl k bound
    obtain ⟨v, alone⟩ := Step.error?_eq_none_iff.mp ended
    have agree := verdict.agree rfl bound
    obtain ⟨final, served, filled⟩ := breakpoints_served (by rfl) alone
    rw [alone] at agree
    have distinct := Options.nodup_scope (o := o) k
    have distinct' : ((leavesIn (o.grammar.scopeArguments k)).map Leaf.name).Nodup := by
      rwa [Argument.namesIn_eq_map] at distinct
    apply served.cut_all distinct' (List.Subset.refl _) distinct
    · exact fun n _ => rfl
    · intro n member
      have same := agree n member
      rw [show (Step.done v).state.kwargs = v.kwargs from rfl, filled] at same
      exact same.symm
  · have none_there : o.grammar.scopeArguments k = [] := by
      have beyond : o.grammar.scopes.length ≤ k := by
        rw [Grammar.scopes, List.length_cons, List.length_map]
        omega
      rw [Grammar.scopeArguments, List.getElem?_eq_none beyond]
      rfl
    have none_routed : routedTo k (route 0 none o.grammar.breakpoints bits) = [] := by
      rw [routedTo, List.map_eq_nil_iff, List.filter_eq_nil_iff]
      intro entry member here
      have inside := mem_route_le member
      have own : entry.1 = k := by simpa using here
      rw [Grammar.breakpoints, List.length_map] at inside
      omega
    rw [none_there, none_routed]
    exact .nil

theorem segmented_single_multi :
    let o : Options := ⟨⟨[.leaf ⟨.ofName "first", .single .string⟩,
      .leaf ⟨.ofName "others", .multi .string none .list⟩], [⟨"as", []⟩], []⟩, .breakpoints, by decide⟩
    ∃ t, Parser.breakpoints ["a", "b", "c", "as"] (.start o.grammar "tag") = .done t ∧
      Segmented "tag" t.kwargs (o.grammar.scopeArguments 0) ["a", "b", "c"] ∧
      t.kwargs.get? "first" = some (.resolving .string (.lookup "a")) ∧
      t.kwargs.get? "others" = some
        (.list [.resolving .string (.lookup "b"), .resolving .string (.lookup "c")] .list) := by
  intro o
  exact ⟨_, rfl, segmented o "tag" ["a", "b", "c", "as"] _ rfl 0, rfl, rfl⟩

end ParseState

end TagGrammar
