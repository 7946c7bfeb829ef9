import TagGrammar.Proofs.Argument.Growth
import TagGrammar.Proofs.Argument.Segment
import TagGrammar.Proofs.Parse.Captured
import TagGrammar.Proofs.Parse.Required

namespace TagGrammar

open Argument (leavesIn namesIn group leaf)

namespace Argument

/-- An argument is part of itself, and of each group that it stands in at some depth. -/
inductive PartOf (part : Argument) : Argument → Prop
  | self : PartOf part part
  | inside {h : Header} {alternatives : List Argument} {a : Argument} (member : a ∈ alternatives)
      (below : PartOf part a) : PartOf part (.group h alternatives)

variable {a b part : Argument} {arguments : List Argument} {tagname bit : String}
  {kwargs kwargs' : Kwargs}

theorem PartOf.leaves_subset (below : part.PartOf a) : part.leaves ⊆ a.leaves := by
  induction below with
  | self => exact List.Subset.refl _
  | inside member _ ih => exact List.Subset.trans ih (Argument.leaves_subset member)

theorem PartOf.nodup (below : part.PartOf a) (distinct : a.storedNames.Nodup) :
    part.storedNames.Nodup := by
  induction below with
  | self => exact distinct
  | inside member _ ih =>
    rw [storedNames_group] at distinct
    exact ih ((List.nodup_flatMap.mp distinct).1 _ member)

theorem PartOf.alternative {h : Header} {alternatives : List Argument}
    (below : (group h alternatives).PartOf a) (member : b ∈ alternatives) : b.PartOf a := by
  induction below with
  | self => exact .inside member .self
  | inside member' _ ih => exact .inside member' ih

/-- A bit reaches the argument that stores it through all groups that this one stands in. -/
theorem PartOf.offer (below : part.PartOf a) (distinct : a.storedNames.Nodup)
    (taken : a.offer tagname bit kwargs = .accepted kwargs') {l : Leaf} (inner : l ∈ part.leaves)
    (stored : l.offer tagname bit kwargs = .accepted kwargs') :
    part.offer tagname bit kwargs = .accepted kwargs' := by
  induction below with
  | self => exact taken
  | inside member below ih =>
    rename_i h alternatives c
    rw [storedNames_group] at distinct
    obtain ⟨d, member', taken⟩ := exists_alternative_offer taken
    obtain ⟨l', inner', stored'⟩ := exists_leaf_offer taken
    have named : l.name ∈ c.storedNames := List.mem_map.mpr ⟨l, below.leaves_subset inner, rfl⟩
    have named' : l.name ∈ d.storedNames :=
      List.mem_map.mpr ⟨l', inner', Leaf.name_eq_of_offer stored' stored⟩
    have same : d = c := eq_of_shared_name distinct member' member named' named
    subst same
    exact ih ((List.nodup_flatMap.mp distinct).1 d member) taken

end Argument

/-- A bit that went to the arguments, with the tables before and after it. -/
structure Taking where
  before : Kwargs
  bit : String
  after : Kwargs

/-- Offered the bit by itself, the argument takes it and makes the same table of it. -/
def Taking.By (tagname : String) (x : Taking) (a : Argument) : Prop :=
  a.offer tagname x.bit x.before = .accepted x.after

theorem Taking.By.exists_leaf {tagname : String} {x : Taking} {a : Argument} (taken : x.By tagname a) :
    ∃ l ∈ a.leaves, x.By tagname (leaf l) := by
  obtain ⟨l, inner, stored⟩ := Argument.exists_leaf_offer taken
  exact ⟨l, inner, by rwa [Taking.By, Argument.offer]⟩

namespace ParseState

/-- The bits of a parse that its arguments take, in order, up to the first that fails. -/
def takings : List String → ParseState → List Taking
  | [], _ => []
  | bit :: rest, s =>
    match { s with todo := bit :: rest }.handleBit bit with
    | .done t =>
      if bit ∈ s.cursor.remaining then takings rest t
      else ⟨s.kwargs, bit, t.kwargs⟩ :: takings rest t
    | .failed _ _ => []

variable {o : Options} {captured : Leaf → Prop} {s t : ParseState} {bit : String}
  {bits rest : List String}

theorem takings_of_mem (expected : bit ∈ s.cursor.remaining)
    (handled : { s with todo := bit :: rest }.handleBit bit = .done t) :
    takings (bit :: rest) s = takings rest t := by
  rw [takings, handled]
  exact if_pos expected

theorem takings_of_notMem (content : bit ∉ s.cursor.remaining)
    (handled : { s with todo := bit :: rest }.handleBit bit = .done t) :
    takings (bit :: rest) s = ⟨s.kwargs, bit, t.kwargs⟩ :: takings rest t := by
  rw [takings, handled]
  exact if_neg content

end ParseState

namespace Argument

/-- The argument is declared, by itself or as part of a group. -/
def DeclaredIn (o : Options) (a : Argument) : Prop := ∃ top ∈ o.grammar.arguments, a.PartOf top

variable {o : Options} {a : Argument}

theorem DeclaredIn.nodup (declared : a.DeclaredIn o) : a.storedNames.Nodup := by
  obtain ⟨top, member, below⟩ := declared
  exact below.nodup ((List.nodup_flatMap.mp o.nodup_storedNames).1 top member)

theorem DeclaredIn.alternative {h : Header} {alternatives : List Argument}
    (declared : (group h alternatives).DeclaredIn o) (member : a ∈ alternatives) :
    a.DeclaredIn o := by
  obtain ⟨top, opened, below⟩ := declared
  exact ⟨top, opened, below.alternative member⟩

theorem DeclaredIn.leaves_subset (declared : a.DeclaredIn o) :
    a.leaves ⊆ leavesIn o.grammar.arguments := by
  obtain ⟨top, member, below⟩ := declared
  intro l inner
  rw [leavesIn_eq_flatMap]
  exact List.mem_flatMap.mpr ⟨top, member, below.leaves_subset inner⟩

end Argument

namespace ParseState

variable {o : Options} {captured : Leaf → Prop} {s t : ParseState} {bit : String}
  {bits rest : List String} {a : Argument}

theorem exists_taker (coherent : Coherent o s) (done : s.handleArgument bit = .done t) :
    ∃ a ∈ s.cursor.arguments, a.offer s.tagname bit s.kwargs = .accepted t.kwargs := by
  obtain ⟨a, waiting, kwargs, behind, taken, rfl⟩ := offerIn_done done
  exact ⟨a, (behind.trans coherent.queue).subset List.mem_cons_self, taken⟩

/-- What is declared takes the bit exactly when one of the arguments in it stores it, and these are then
all arguments of the open scope. -/
theorem offer_of_leaf (coherent : Coherent o s) (done : s.handleArgument bit = .done t)
    (declared : a.DeclaredIn o) {l : Leaf} (inner : l ∈ a.leaves)
    (stored : l.offer s.tagname bit s.kwargs = .accepted t.kwargs) :
    a.offer s.tagname bit s.kwargs = .accepted t.kwargs ∧ a.leaves ⊆ leavesIn s.cursor.arguments := by
  obtain ⟨taker, here, taken⟩ := exists_taker coherent done
  obtain ⟨top, member, below⟩ := declared
  obtain ⟨l', inner', stored'⟩ := Argument.exists_leaf_offer taken
  have distinct := o.nodup_storedNames
  have opened : taker ∈ o.grammar.arguments := by
    rw [coherent.cursor.arguments] at here
    exact Grammar.mem_arguments_of_mem here
  have named : l.name ∈ top.storedNames := List.mem_map.mpr ⟨l, below.leaves_subset inner, rfl⟩
  have named' : l.name ∈ taker.storedNames :=
    List.mem_map.mpr ⟨l', inner', Leaf.name_eq_of_offer stored' stored⟩
  have same : taker = top := Argument.eq_of_shared_name distinct opened member named' named
  subst same
  refine ⟨below.offer ((List.nodup_flatMap.mp distinct).1 taker member) taken inner stored, ?_⟩
  intro l inner
  rw [Argument.leavesIn_eq_flatMap]
  exact List.mem_flatMap.mpr ⟨taker, here, below.leaves_subset inner⟩

theorem breakpoints_cons (done : Parser.breakpoints (bit :: rest) s = .done t) :
    ∃ u, { s with todo := bit :: rest }.handleBit bit = .done u ∧
      Parser.breakpoints rest u = .done t ∧ u.tagname = s.tagname := by
  obtain ⟨u, handled, done⟩ := Step.andThen_eq_done.mp done
  have moves : Moves { s with todo := bit :: rest } u := (handleBit_moves bit _).of_done handled
  exact ⟨u, handled, done, moves.tagname⟩

/-- A bit of a parse that ends either opens a scope, and captures nothing, or is one that the
arguments take. -/
theorem Accounted.next_taking (accounted : Accounted o captured s)
    (done : Parser.breakpoints (bit :: rest) s = .done t) :
    ∃ u, Parser.breakpoints rest u = .done t ∧ u.tagname = s.tagname ∧
      ((takings (bit :: rest) s = takings rest u ∧ Accounted o captured u) ∨
        (takings (bit :: rest) s = ⟨s.kwargs, bit, u.kwargs⟩ :: takings rest u ∧
          { s with todo := bit :: rest }.handleArgument bit = .done u)) := by
  obtain ⟨u, handled, done, tagname⟩ := breakpoints_cons done
  refine ⟨u, done, tagname, ?_⟩
  by_cases expected : bit ∈ s.cursor.remaining
  · have fair := (accounted.note (bit :: rest) s.events).handleBit expected
    rw [handled] at fair
    cases fair with
    | done accounted => exact .inl ⟨takings_of_mem expected handled, accounted⟩
  · refine .inr ⟨takings_of_notMem expected handled, ?_⟩
    rwa [← handleBit_of_notMem (s := { s with todo := bit :: rest }) expected]

theorem capturesAll_nil {l : Leaf} (done : Parser.breakpoints bits s = .done t)
    (untaken : ∀ x ∈ takings bits s, ¬x.By s.tagname (leaf l)) : l.CapturesAll bits s [] := by
  induction bits generalizing s with
  | nil => exact .nil s
  | cons bit rest ih =>
    obtain ⟨u, handled, done, tagname⟩ := breakpoints_cons done
    by_cases expected : bit ∈ s.cursor.remaining
    · rw [takings_of_mem expected handled, ← tagname] at untaken
      exact .leave handled (.inl expected) (ih done untaken)
    · rw [takings_of_notMem expected handled, List.forall_mem_cons] at untaken
      obtain ⟨here, later⟩ := untaken
      rw [← tagname] at later
      refine .leave handled (.inr fun taken => here ?_) (ih done later)
      rwa [Taking.By, Argument.offer]

end ParseState

/-- The argument gets none of the bits of a parse, and holds its defaults at the end. -/
structure Argument.Idle (tagname : String) (trace : List Taking) (final : Kwargs) (a : Argument) :
    Prop where
  untaken : ∀ x ∈ trace, ¬x.By tagname a
  leaves : ∀ l ∈ a.leaves, (∀ x ∈ trace, ¬x.By tagname (leaf l)) ∧
    final.get? l.name = some l.defaultValue

/-- If a group takes the bit, one alternative takes it and nothing is held for the others. -/
structure Taking.OnlyBy (tagname : String) (x : Taking) (h : Header) (before : List Argument)
    (a : Argument) (after : List Argument) : Prop where
  same : x.By tagname (group h (before ++ a :: after)) ↔ x.By tagname a
  others : ∀ b ∈ before ++ after, ∀ l ∈ b.leaves, ¬x.By tagname (leaf l)
  traceless : x.By tagname a → ∀ b ∈ before ++ after, ∀ n ∈ b.storedNames,
    x.before.get? n = none ∧ x.after.get? n = none

theorem Taking.OnlyBy.of_untaken {tagname : String} {x : Taking} {h : Header}
    {before after : List Argument} {a : Argument}
    (untaken : ∀ l ∈ (group h (before ++ a :: after)).leaves, ¬x.By tagname (leaf l)) :
    x.OnlyBy tagname h before a after := by
  have free : ∀ b ∈ before ++ a :: after, ∀ l ∈ b.leaves, ¬x.By tagname (leaf l) :=
    fun b member l inner => untaken l (Argument.leaves_subset member inner)
  have not_group : ¬x.By tagname (group h (before ++ a :: after)) := by
    intro taken
    obtain ⟨l, inner, stored⟩ := taken.exists_leaf
    exact untaken l inner stored
  have not_chosen : ¬x.By tagname a := by
    intro taken
    obtain ⟨l, inner, stored⟩ := taken.exists_leaf
    exact free a List.mem_append_cons_self l inner stored
  constructor
  · exact iff_of_false not_group not_chosen
  · exact fun b other => free b (Argument.mem_of_mem_others other)
  · exact fun taken => absurd taken not_chosen

/-- A group waits for the first bit that it takes. The first alternative that accepts this one gets it
and all those that follow. -/
inductive Argument.Commits (tagname : String) (h : Header) : List Argument → List Taking → Prop
  | never {alternatives : List Argument} : Argument.Commits tagname h alternatives []
  | wait {alternatives : List Argument} {x : Taking} {trace : List Taking}
      (untaken : ∀ l ∈ (group h alternatives).leaves, ¬x.By tagname (leaf l))
      (next : Argument.Commits tagname h alternatives trace) :
    Argument.Commits tagname h alternatives (x :: trace)
  | choose {before after : List Argument} {a : Argument} {x : Taking} {trace : List Taking}
      (taken : x.By tagname a)
      (refused : ∀ b ∈ before, ∀ kwargs, b.offer tagname x.bit x.before ≠ .accepted kwargs)
      (only : ∀ y ∈ x :: trace, y.OnlyBy tagname h before a after) :
    Argument.Commits tagname h (before ++ a :: after) (x :: trace)

namespace ParseState

variable {o : Options} {captured : Leaf → Prop} {s t : ParseState} {bit tagname : String}
  {bits rest : List String} {a : Argument} {h : Header} {before after alternatives : List Argument}

theorem idle_of_leaves (done : Parser.breakpoints bits (.start o.grammar tagname) = .done t)
    (declared : a.DeclaredIn o)
    (untaken : ∀ l ∈ a.leaves, ∀ x ∈ takings bits (.start o.grammar tagname),
      ¬x.By tagname (leaf l)) :
    a.Idle tagname (takings bits (.start o.grammar tagname)) t.kwargs := by
  constructor
  · intro x member taken
    obtain ⟨l, inner, stored⟩ := taken.exists_leaf
    exact untaken l inner x member stored
  · intro l inner
    refine ⟨untaken l inner, ?_⟩
    obtain ⟨bits', v, log, held, holds⟩ := exists_captured done (declared.leaves_subset inner)
    have none_taken := capturesAll_nil done (untaken l inner)
    rw [log.unique none_taken] at holds
    generalize nothing : [] = bits' at holds
    cases holds with
    | default => exact held
    | single => cases nothing
    | multi _ some_bit _ => exact absurd nothing.symm some_bit
    | keyword _ some_pair _ _ _ => exact absurd (List.map_eq_nil_iff.mp nothing.symm) some_pair
    | flag => cases nothing

theorem absent_of_uncaptured (accounted : Accounted o captured s)
    (here : a.leaves ⊆ leavesIn s.cursor.arguments) (uncaptured : ∀ l ∈ a.leaves, ¬captured l) :
    ∀ n ∈ a.storedNames, s.kwargs.get? n = none := by
  intro n own
  obtain ⟨l, inner, rfl⟩ := List.mem_map.mp own
  rw [← Table.contains_eq_false_iff, ← Bool.not_eq_true]
  exact fun present => uncaptured l inner (accounted.earned l (here inner) present)

theorem onlyBy (coherent : Coherent o s) (done : s.handleArgument bit = .done t)
    (declared : (group h (before ++ a :: after)).DeclaredIn o)
    (chosen : (group h (before ++ a :: after)).offer s.tagname bit s.kwargs = .accepted t.kwargs →
      a.offer s.tagname bit s.kwargs = .accepted t.kwargs ∧
      ∀ b ∈ before ++ after, ∀ n ∈ b.storedNames, s.kwargs.get? n = none) :
    Taking.OnlyBy s.tagname ⟨s.kwargs, bit, t.kwargs⟩ h before a after := by
  have distinct := declared.nodup
  rw [Argument.storedNames_group] at distinct
  obtain ⟨_, apart⟩ := Argument.alternative_apart distinct
  have up {b : Argument} (member : b ∈ before ++ a :: after) {l : Leaf} (inner : l ∈ b.leaves)
      (stored : l.offer s.tagname bit s.kwargs = .accepted t.kwargs) :
      (group h (before ++ a :: after)).offer s.tagname bit s.kwargs = .accepted t.kwargs :=
    (offer_of_leaf coherent done declared (Argument.leaves_subset member inner) stored).1
  have same : (group h (before ++ a :: after)).offer s.tagname bit s.kwargs = .accepted t.kwargs ↔
      a.offer s.tagname bit s.kwargs = .accepted t.kwargs := by
    refine ⟨fun taken => (chosen taken).1, fun taken => ?_⟩
    obtain ⟨l, inner, stored⟩ := Argument.exists_leaf_offer taken
    exact up List.mem_append_cons_self inner stored
  refine ⟨same, fun b other l inner taken => ?_, fun taken b other n own => ?_⟩
  · rw [Taking.By, Argument.offer] at taken
    have taken' := (chosen (up (Argument.mem_of_mem_others other) inner taken)).1
    obtain ⟨l', inner', stored⟩ := Argument.exists_leaf_offer taken'
    refine apart b other l.name (List.mem_map.mpr ⟨l, inner, rfl⟩) ?_
    rw [Leaf.name_eq_of_offer taken stored]
    exact List.mem_map.mpr ⟨l', inner', rfl⟩
  · have absent := (chosen (same.mpr taken)).2 b other n own
    exact ⟨absent, (Argument.get?_offer_of_notMem taken (apart b other n own)).trans absent⟩

/-- Midway through a parse a group has given bits to one of its alternatives only. -/
structure Chosen (o : Options) (captured : Leaf → Prop) (before : List Argument) (a : Argument)
    (after : List Argument) (s : ParseState) : Prop where
  accounted : Accounted o captured s
  taken : ∃ l ∈ a.leaves, captured l
  others : ∀ b ∈ before ++ after, ∀ l ∈ b.leaves, ¬captured l

theorem Chosen.onlyBy (chosen : Chosen o captured before a after s)
    (done : s.handleArgument bit = .done t)
    (declared : (group h (before ++ a :: after)).DeclaredIn o) :
    Taking.OnlyBy s.tagname ⟨s.kwargs, bit, t.kwargs⟩ h before a after := by
  apply ParseState.onlyBy chosen.accounted.coherent done declared
  intro taken
  obtain ⟨l, inner, stored⟩ := Argument.exists_leaf_offer taken
  obtain ⟨_, here⟩ := offer_of_leaf chosen.accounted.coherent done declared inner stored
  have absent : ∀ b ∈ before ++ after, ∀ n ∈ b.storedNames, s.kwargs.get? n = none := by
    intro b other
    apply absent_of_uncaptured chosen.accounted _ (chosen.others b other)
    exact List.Subset.trans (Argument.leaves_subset (Argument.mem_of_mem_others other)) here
  refine ⟨?_, absent⟩
  -- the group goes by what the table holds, and that is the chosen alternative's alone
  have first : (before ++ a :: after).find? (·.isSatisfied s.kwargs) = some a := by
    rw [List.find?_eq_some_iff_append]
    refine ⟨?_, before, after, rfl, fun b member => ?_⟩
    · obtain ⟨l, inner, got⟩ := chosen.taken
      exact Argument.isSatisfied_iff_leaf.mpr ⟨l, inner, chosen.accounted.held l got⟩
    · rw [Argument.isSatisfied_of_absent (absent b (List.mem_append_left after member))]
      rfl
  rwa [Argument.offer_group, first] at taken

theorem Chosen.take (chosen : Chosen o captured before a after s)
    (done : s.handleArgument bit = .done t)
    (declared : (group h (before ++ a :: after)).DeclaredIn o) :
    Chosen o (fun l => captured l ∨ l.offer s.tagname bit s.kwargs = .accepted t.kwargs) before a
      after t := by
  have only := chosen.onlyBy done declared
  refine ⟨chosen.accounted.take done, ?_, fun b other l inner either => ?_⟩
  · obtain ⟨l, inner, got⟩ := chosen.taken
    exact ⟨l, inner, .inl got⟩
  · rcases either with got | stored
    · exact chosen.others b other l inner got
    · exact only.others b other l inner (by rwa [Taking.By, Argument.offer])

theorem Chosen.takings (chosen : Chosen o captured before a after s)
    (done : Parser.breakpoints bits s = .done t)
    (declared : (group h (before ++ a :: after)).DeclaredIn o) :
    ∀ x ∈ takings bits s, x.OnlyBy s.tagname h before a after := by
  induction bits generalizing s captured with
  | nil => exact fun x member => nomatch member
  | cons bit rest ih =>
    obtain ⟨u, done, tagname, ⟨order, accounted⟩ | ⟨order, offered⟩⟩ :=
      chosen.accounted.next_taking done
    · rw [order, ← tagname]
      exact ih ⟨accounted, chosen.taken, chosen.others⟩ done
    · have noted : Chosen o captured before a after { s with todo := bit :: rest } :=
        ⟨chosen.accounted.note _ _, chosen.taken, chosen.others⟩
      rw [order, List.forall_mem_cons]
      refine ⟨noted.onlyBy offered declared, ?_⟩
      rw [← tagname]
      exact ih (noted.take offered declared) done

/-- Midway through a parse a group has given no bit to any alternative. -/
structure Unused (o : Options) (captured : Leaf → Prop) (a : Argument) (s : ParseState) : Prop where
  accounted : Accounted o captured s
  free : ∀ l ∈ a.leaves, ¬captured l

/-- The first bit that a group takes goes to the first alternative that accepts it. -/
theorem Unused.choose (unused : Unused o captured (group h alternatives) s)
    (done : s.handleArgument bit = .done t) (declared : (group h alternatives).DeclaredIn o)
    (taken : (group h alternatives).offer s.tagname bit s.kwargs = .accepted t.kwargs) :
    ∃ before a after, alternatives = before ++ a :: after ∧
      a.offer s.tagname bit s.kwargs = .accepted t.kwargs ∧
      (∀ b ∈ before, ∀ kwargs, b.offer s.tagname bit s.kwargs ≠ .accepted kwargs) ∧
      Taking.OnlyBy s.tagname ⟨s.kwargs, bit, t.kwargs⟩ h before a after ∧
      Chosen o (fun l => captured l ∨ l.offer s.tagname bit s.kwargs = .accepted t.kwargs) before a
        after t := by
  obtain ⟨l, inner, stored⟩ := Argument.exists_leaf_offer taken
  obtain ⟨_, here⟩ := offer_of_leaf unused.accounted.coherent done declared inner stored
  have absent := absent_of_uncaptured unused.accounted here unused.free
  have unsatisfied : alternatives.find? (·.isSatisfied s.kwargs) = none := by
    rw [List.find?_eq_none]
    intro b member
    have free : b.isSatisfied s.kwargs = false :=
      Argument.isSatisfied_of_absent fun n own => absent n (Argument.storedNames_subset member own)
    simp [free]
  rw [Argument.offer_group, unsatisfied] at taken
  dsimp only at taken
  split at taken
  · cases taken
  · rename_i found
    obtain ⟨before, a, after, rfl, answer, earlier⟩ := List.findSome?_eq_some_iff.mp found
    split at taken
    · cases taken
    · cases taken
      have answer := Offer.kwargs?_eq_some answer
      have only : Taking.OnlyBy s.tagname ⟨s.kwargs, bit, t.kwargs⟩ h before a after := by
        apply onlyBy unused.accounted.coherent done declared
        refine fun _ => ⟨answer, fun b other n own => absent n ?_⟩
        exact Argument.storedNames_subset (Argument.mem_of_mem_others other) own
      refine ⟨before, a, after, rfl, answer, ?_, only, ?_⟩
      · intro b member kwargs accepted
        have refused := earlier b member
        rw [accepted] at refused
        cases refused
      · obtain ⟨l, inner, stored⟩ := Argument.exists_leaf_offer answer
        refine ⟨unused.accounted.take done, ⟨l, inner, .inr stored⟩, ?_⟩
        intro b other l inner either
        rcases either with got | stored
        · exact unused.free l (Argument.leaves_subset (Argument.mem_of_mem_others other) inner) got
        · exact only.others b other l inner (by rwa [Taking.By, Argument.offer])

theorem Unused.take (unused : Unused o captured (group h alternatives) s)
    (done : s.handleArgument bit = .done t)
    (untaken : ∀ l ∈ (group h alternatives).leaves,
      l.offer s.tagname bit s.kwargs ≠ .accepted t.kwargs) :
    Unused o (fun l => captured l ∨ l.offer s.tagname bit s.kwargs = .accepted t.kwargs)
      (group h alternatives) t :=
  ⟨unused.accounted.take done, fun l inner either =>
    either.elim (unused.free l inner) (untaken l inner)⟩

theorem Unused.takings (unused : Unused o captured (group h alternatives) s)
    (done : Parser.breakpoints bits s = .done t) (declared : (group h alternatives).DeclaredIn o) :
    Argument.Commits s.tagname h alternatives (takings bits s) := by
  induction bits generalizing s captured with
  | nil => exact .never
  | cons bit rest ih =>
    obtain ⟨u, done, tagname, ⟨order, accounted⟩ | ⟨order, offered⟩⟩ :=
      unused.accounted.next_taking done
    · rw [order, ← tagname]
      exact ih ⟨accounted, unused.free⟩ done
    have noted : Unused o captured (group h alternatives) { s with todo := bit :: rest } :=
      ⟨unused.accounted.note _ _, unused.free⟩
    rw [order]
    by_cases taken : (group h alternatives).offer s.tagname bit s.kwargs = .accepted u.kwargs
    · obtain ⟨before, a, after, rfl, answer, refused, only, chosen⟩ :=
        noted.choose offered declared taken
      have later := chosen.takings done declared
      rw [tagname] at later
      exact .choose answer refused (List.forall_mem_cons.mpr ⟨only, later⟩)
    · have untaken : ∀ l ∈ (group h alternatives).leaves,
          l.offer s.tagname bit s.kwargs ≠ .accepted u.kwargs := fun l inner stored =>
        taken (offer_of_leaf noted.accounted.coherent offered declared inner stored).1
      have later := ih (noted.take offered untaken) done
      rw [tagname] at later
      refine .wait (fun l inner stored => untaken l inner ?_) later
      rwa [Taking.By, Argument.offer] at stored

end ParseState

namespace Argument

variable {o : Options} {tagname : String} {h : Header} {alternatives : List Argument}
  {trace : List Taking} {final : Kwargs}

theorem Commits.split (commits : Commits tagname h alternatives trace) :
    (∀ x ∈ trace, ∀ l ∈ (group h alternatives).leaves, ¬x.By tagname (leaf l)) ∨
    ∃ before a after earlier first later, alternatives = before ++ a :: after ∧
      trace = earlier ++ first :: later ∧
      (∀ x ∈ earlier, ∀ l ∈ (group h alternatives).leaves, ¬x.By tagname (leaf l)) ∧
      first.By tagname a ∧
      (∀ b ∈ before, ∀ kwargs, b.offer tagname first.bit first.before ≠ .accepted kwargs) ∧
      ∀ x ∈ first :: later, x.OnlyBy tagname h before a after := by
  induction commits with
  | never => exact .inl fun x member => nomatch member
  | wait untaken _ ih =>
    rcases ih with never | ⟨before, a, after, earlier, first, later, rfl, rfl, free, chosen⟩
    · exact .inl (List.forall_mem_cons.mpr ⟨untaken, never⟩)
    · exact .inr ⟨before, a, after, _ :: earlier, first, later, rfl, rfl,
        List.forall_mem_cons.mpr ⟨untaken, free⟩, chosen⟩
  | choose taken refused only =>
    exact .inr ⟨_, _, _, [], _, _, rfl, rfl, fun x member => (nomatch member), taken, refused, only⟩

/-- The group takes no bit of the parse, or gives the first one that it takes to the first alternative
that accepts it by itself, and all later ones to the same. Other alternatives leave no trace. -/
def SpendsOnOne (tagname : String) (trace : List Taking) (final : Kwargs) (h : Header)
    (alternatives : List Argument) : Prop :=
  (∀ a ∈ group h alternatives :: alternatives, a.Idle tagname trace final) ∨
  ∃ before a after earlier first later, alternatives = before ++ a :: after ∧
    trace = earlier ++ first :: later ∧ (∀ x ∈ earlier, ¬x.By tagname (group h alternatives)) ∧
    first.By tagname a ∧
    (∀ b ∈ before, ∀ kwargs, b.offer tagname first.bit first.before ≠ .accepted kwargs) ∧
    (∀ x ∈ trace, x.By tagname (group h alternatives) ↔ x.By tagname a) ∧
    ∀ b ∈ before ++ after, b.Idle tagname trace final ∧
      ∀ x ∈ trace, x.By tagname a → ∀ n ∈ b.storedNames,
        x.before.get? n = none ∧ x.after.get? n = none

end Argument

namespace ParseState

/-- In a parse that ends, each group, at any depth, leaves all of its bits to one alternative. -/
theorem spends_on_one (o : Options) (tagname : String) (bits : List String) (t : ParseState)
    (done : Parser.breakpoints bits (.start o.grammar tagname) = .done t) (h : Header)
    (alternatives : List Argument) (declared : (group h alternatives).DeclaredIn o) :
    Argument.SpendsOnOne tagname (takings bits (.start o.grammar tagname)) t.kwargs h alternatives := by
  have unused : Unused o (fun _ => False) (group h alternatives) (.start o.grammar tagname) :=
    ⟨.start o tagname, fun _ _ never => never⟩
  have commits : Argument.Commits tagname h alternatives (takings bits (.start o.grammar tagname)) :=
    unused.takings done declared
  rcases commits.split with
    never | ⟨before, a, after, earlier, first, later, rfl, order, free, taken, refused, only⟩
  · refine .inl (List.forall_mem_cons.mpr ⟨?_, fun a member => ?_⟩)
    · exact idle_of_leaves done declared fun l inner x member => never x member l inner
    · apply idle_of_leaves done (declared.alternative member)
      exact fun l inner x taken => never x taken l (Argument.leaves_subset member inner)
  · have each : ∀ x ∈ takings bits (.start o.grammar tagname), x.OnlyBy tagname h before a after := by
      rw [order]
      exact List.forall_mem_append.mpr ⟨fun x member => .of_untaken (free x member), only⟩
    refine .inr ⟨before, a, after, earlier, first, later, rfl, order, ?_, taken, refused,
      fun x member => (each x member).same, fun b other => ⟨?_, fun x member taken => ?_⟩⟩
    · intro x member taken
      obtain ⟨l, inner, stored⟩ := taken.exists_leaf
      exact free x member l inner stored
    · apply idle_of_leaves done (declared.alternative (Argument.mem_of_mem_others other))
      exact fun l inner x member => (each x member).others b other l inner
    · exact (each x member).traceless taken b other

/-- The flag refuses the first bit with an error, and the list gets both. -/
theorem spends_on_items :
    let inner : List Argument := [.leaf ⟨.ofName "on", .flag ⟨["yes"], ["no"], true⟩⟩,
      .leaf ⟨.ofName "items", .multi .string none .list⟩]
    let outer : List Argument := [.leaf ⟨.ofName "size", .keyword .string (some 1)⟩,
      .group (.ofName "rest") inner]
    let o : Options :=
      ⟨⟨[.group (.ofName "any") outer], [⟨"as", []⟩], []⟩, .breakpoints, by decide⟩
    ∃ t, Parser.breakpoints ["a", "b", "as"] (.start o.grammar "tag") = .done t ∧
      (group (.ofName "rest") inner).DeclaredIn o ∧
      Argument.SpendsOnOne "tag" (takings ["a", "b", "as"] (.start o.grammar "tag")) t.kwargs
        (.ofName "rest") inner := by
  intro inner outer o
  have declared : (group (.ofName "rest") inner).DeclaredIn o :=
    ⟨_, List.mem_cons_self, .inside (List.mem_cons_of_mem _ List.mem_cons_self) .self⟩
  exact ⟨_, rfl, declared, spends_on_one o "tag" ["a", "b", "as"] _ rfl _ _ declared⟩

end ParseState

end TagGrammar
