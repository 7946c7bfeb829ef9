import TagGrammar.Proofs.Parse.Beside

namespace TagGrammar

open Argument (namesIn leavesIn)
open Kwargs (AgreeOn)

namespace ParseState

/-- The parse hands this bit to the arguments of the open scope, and nothing of what follows. -/
def StopsAt (bits : List String) (s : ParseState) (bit : String) (after : List String) : Prop :=
  ∃ before, bits = before ++ bit :: after ∧ handed bits s = s.cursor.routed (before ++ [bit])

/-- The error of a scope parsed on its own, then the error of the whole parse that it leads to. -/
inductive Blames (g : Grammar) (bits : List String) (s : ParseState) (k : Nat) :
    ParseError → ParseError → Prop
  | same {e : ParseError} (own : ∀ tagname extra, e ≠ .tooManyArguments tagname extra) :
    Blames g bits s k e e
  | surplus {bit : String} {after more : List String} (stops : s.StopsAt bits bit after)
      (last : g.breakpoints.drop k = []) :
    Blames g bits s k (.tooManyArguments s.tagname (bit :: more))
      (.tooManyArguments s.tagname (bit :: after))
  | expected {bit : String} {after more : List String} (stops : s.StopsAt bits bit after)
      (ahead : g.breakpoints.drop k ≠ []) :
    Blames g bits s k (.tooManyArguments s.tagname (bit :: more))
      (.breakpointExpected s.tagname (g.breakpoints.drop k) bit)

variable {o : Options} {s t u : ParseState} {bit word : String} {bits rest : List String}
  {alone : Nat → Step} {blames : Nat → ParseError → ParseError → Prop}

theorem StopsAt.cons {first : String} {after : List String}
    (done : { s with todo := first :: rest }.handleBit first = .done t)
    (stops : t.StopsAt rest bit after) : s.StopsAt (first :: rest) bit after := by
  obtain ⟨before, split, stopped⟩ := stops
  refine ⟨first :: before, congrArg (first :: ·) split, ?_⟩
  rw [handed_of_done done, List.cons_append, routed_of_done (before ++ [bit]) done, stopped]

theorem Blames.cons {g : Grammar} {k : Nat} {e e' : ParseError}
    (done : { s with todo := bit :: rest }.handleBit bit = .done t)
    (blames : Blames g rest t k e' e) : Blames g (bit :: rest) s k e' e := by
  have moves : Moves { s with todo := bit :: rest } t := (handleBit_moves bit _).of_done done
  have tagname : t.tagname = s.tagname := moves.tagname
  cases blames with
  | same own => exact .same own
  | surplus stops last =>
    rw [tagname]
    exact .surplus (stops.cons done) last
  | expected stops ahead =>
    rw [tagname]
    exact .expected (stops.cons done) ahead

/-- What the parses of single scopes, from the `k`th on, say about the parse of all of them. -/
inductive Verdict (o : Options) (blames : Nat → ParseError → ParseError → Prop) (k : Nat)
    (alone : Nat → Step) : Step → Prop
  | done {t : ParseState} (each : ∀ j, k ≤ j → j ≤ o.grammar.later.length →
      ∃ v, alone j = .done v ∧ AgreeOn (namesIn (o.grammar.scopeArguments j)) t.kwargs v.kwargs) :
    Verdict o blames k alone (.done t)
  | failed {j : Nat} {e e' : ParseError} {t v : ParseState} (from_here : k ≤ j)
      (bound : j ≤ o.grammar.later.length) (earlier : ∀ i, k ≤ i → i < j → ∃ v, alone i = .done v)
      (first : alone j = .failed e' v) (blame : blames j e' e) :
    Verdict o blames k alone (.failed e t)

theorem Verdict.imp {k : Nat} {whole : Step} {blames' : Nat → ParseError → ParseError → Prop}
    (verdict : Verdict o blames k alone whole) (weaker : ∀ j e' e, blames j e' e → blames' j e' e) :
    Verdict o blames' k alone whole := by
  cases verdict with
  | done each => exact .done each
  | failed from_here bound earlier first blame =>
    exact .failed from_here bound earlier first (weaker _ _ _ blame)

theorem Verdict.error?_eq_none_iff {whole : Step} (verdict : Verdict o blames 0 alone whole) :
    whole.error? = none ↔ ∀ k ≤ o.grammar.later.length, (alone k).error? = none := by
  cases verdict with
  | done each =>
    refine ⟨fun _ k bound => ?_, fun _ => rfl⟩
    obtain ⟨v, here, _⟩ := each k (Nat.zero_le k) bound
    rw [here]
    rfl
  | failed from_here bound earlier first blame =>
    rename_i j e e' t v
    refine ⟨fun done => (nomatch done), fun all => ?_⟩
    have here := all j bound
    rw [first] at here
    cases here

theorem Verdict.agree {whole : Step} {k : Nat} (verdict : Verdict o blames 0 alone whole)
    (done : whole.error? = none) (bound : k ≤ o.grammar.later.length) :
    AgreeOn (namesIn (o.grammar.scopeArguments k)) whole.state.kwargs (alone k).state.kwargs := by
  cases verdict with
  | done each =>
    obtain ⟨v, here, agree⟩ := each k (Nat.zero_le k) bound
    rw [here]
    exact agree
  | failed => cases done

theorem Verdict.first_failed {whole : Step} {e : ParseError} (verdict : Verdict o blames 0 alone whole)
    (failed : whole.error? = some e) :
    ∃ k ≤ o.grammar.later.length, (∀ j < k, (alone j).error? = none) ∧
      ∃ e', (alone k).error? = some e' ∧ blames k e' e := by
  cases verdict with
  | done each => cases failed
  | failed from_here bound earlier first blame =>
    rename_i k e'' e' t v
    cases failed
    refine ⟨k, bound, fun j before => ?_, e', by rw [first]; rfl, blame⟩
    obtain ⟨w, here⟩ := earlier j (Nat.zero_le j) before
    rw [here]
    rfl

/-- Midway through the bits: the open scope is also parsed on its own, and the scopes ahead are
still to be parsed. -/
structure Apart (o : Options) (alone : Nat → Step) (bits : List String) (s u : ParseState) :
    Prop where
  coherent : Coherent o s
  beside : s.Beside u
  here : alone s.cursor.index =
    Parser.breakpoints (routedTo s.cursor.index (s.cursor.routed bits)) u
  later : ∀ j, s.cursor.index < j → alone j =
    Parser.breakpoints (routedTo j (s.cursor.routed bits)) (.start (o.scope j).grammar s.tagname)

theorem Apart.note (apart : Apart o alone bits s u) (todo : List String) (events : List Event) :
    Apart o alone bits { s with todo, events } u where
  coherent := apart.coherent.move (.note s todo events)
  beside := apart.beside.note_left todo events
  here := apart.here
  later := apart.later

theorem Apart.logEntered (apart : Apart o alone bits s u) : Apart o alone bits s.logEntered u :=
  apart.note _ _

theorem Apart.enter (apart : Apart o alone bits s u) {scope : Scope} {scopes : List Scope}
    (left : s.cursor.ahead = scope :: scopes)
    (shifted : s.cursor.routed bits = s.cursor.shift.routed rest)
    (checked : s.checkRequired = .done t) :
    Apart o alone rest t.enterNext (.start (o.scope (s.cursor.index + 1)).grammar s.tagname) := by
  have moves : Moves s t := s.checkRequired_moves.of_done checked
  have coherent : Coherent o t := apart.coherent.moves moves
  have kept := checkRequired_cursor checked
  have tagname : t.tagname = s.tagname := Moves.tagname moves
  have entered : t.enterNext.cursor = s.cursor.shift := by rw [← kept]; rfl
  have index : t.enterNext.cursor.index = s.cursor.index + 1 := by
    rw [entered, Cursor.shift_cons left]
  have next := apart.later (s.cursor.index + 1) (Nat.lt_succ_self _)
  rw [shifted, ← entered] at next
  constructor
  · exact coherent.enter (closed_of_checkRequired checked)
  · rw [← kept, ← tagname]
    exact coherent.beside_enterNext (kept ▸ left)
  · rw [index]
    exact next
  · intro j ahead
    rw [entered, ← shifted, show t.enterNext.tagname = s.tagname from tagname]
    apply apart.later
    omega

theorem Apart.here_of_notMem (apart : Apart o alone (bit :: bits) s u)
    (content : bit ∉ s.cursor.remaining) {own : List String}
    (routed : routedTo s.cursor.index (s.cursor.routed bits) = own) :
    alone s.cursor.index =
      ({ u with todo := bit :: own }.handleArgument bit).andThen (Parser.breakpoints own) := by
  have foreign : bit ∉ u.cursor.remaining := by
    rw [apart.beside.remaining]
    exact List.not_mem_nil
  have handled := handleBit_of_notMem (s := { u with todo := bit :: own }) foreign
  rw [apart.here, Cursor.routed_of_notMem content, routedTo_cons_self, routed, Parser.breakpoints,
    handled]

theorem Apart.content (apart : Apart o alone (bit :: bits) s u) (content : bit ∉ s.cursor.remaining)
    {own todo : List String} (routed : routedTo s.cursor.index (s.cursor.routed bits) = own)
    {s' u' : ParseState} (beside : s'.Beside u')
    (taken : { s with todo }.handleArgument bit = .done s')
    (taken' : { u with todo := bit :: own }.handleArgument bit = .done u') :
    Apart o alone bits s' u' := by
  have moves : Moves { s with todo } s' := (handleArgument_moves bit _).of_done taken
  have kept : s'.cursor = s.cursor := handleArgument_cursor (s := { s with todo }) taken
  have tagname : s'.tagname = s.tagname := moves.tagname
  constructor
  · exact (apart.note todo s.events).coherent.moves moves
  · exact beside
  · rw [kept, apart.here_of_notMem content routed, taken', Step.andThen_done, routed]
  · intro j ahead
    rw [kept] at ahead ⊢
    rw [tagname, apart.later j ahead, Cursor.routed_of_notMem content,
      routedTo_cons_of_ne (Nat.ne_of_lt ahead)]

theorem Apart.repeated (apart : Apart o alone (word :: rest) s u) (expected : word ∈ s.cursor.remaining)
    (passed : s.cursor.breakpoint = some word ∧ s.cursor.next? ≠ some word) :
    Apart o alone rest s u := by
  have routed : s.cursor.routed (word :: rest) = s.cursor.routed rest :=
    Cursor.routed_of_repeated expected passed
  constructor
  · exact apart.coherent
  · exact apart.beside
  · rw [← routed]
    exact apart.here
  · rw [← routed]
    exact apart.later

theorem Apart.fails_here (apart : Apart o alone bits s u) {e e' : ParseError} {t v : ParseState}
    (here : alone s.cursor.index = .failed e' v) (blame : blames s.cursor.index e' e) :
    Verdict o blames s.cursor.index alone (.failed e t) := by
  refine .failed (Nat.le_refl _) apart.coherent.cursor.bound ?_ here blame
  intro i from_here before
  omega

theorem Apart.close_here (apart : Apart o alone bits s u)
    (no_more : routedTo s.cursor.index (s.cursor.routed bits) = []) :
    (∃ t v, s.checkRequired = .done t ∧ alone s.cursor.index = .done v ∧
      AgreeOn (namesIn (o.grammar.scopeArguments s.cursor.index)) t.kwargs v.kwargs) ∨
    ∃ argument t v, s.checkRequired = .failed (.argumentRequired s.tagname argument) t ∧
      alone s.cursor.index = .failed (.argumentRequired s.tagname argument) v := by
  have beside : s.Beside { u with todo := [] } := apart.beside.note_right []
  have here : alone s.cursor.index = { u with todo := [] }.checkRequired := by
    rw [apart.here, no_more, Parser.breakpoints]
    exact finish_of_last apart.beside.last
  rw [here, ← apart.coherent.cursor.arguments]
  rcases checkRequired_beside beside with ⟨t, v, done, done', agree⟩ | ⟨argument, t, v, failed, failed'⟩
  · exact .inl ⟨t, v, done, done', agree⟩
  · exact .inr ⟨argument, t, v, failed, failed'⟩

theorem Apart.close (apart : Apart o alone bits s u) {scope : Scope} {scopes : List Scope}
    (left : s.cursor.ahead = scope :: scopes)
    (shifted : s.cursor.routed bits = s.cursor.shift.routed rest)
    (blame : ∀ j e, (∀ tagname extra, e ≠ .tooManyArguments tagname extra) → blames j e e)
    {f : ParseState → Step}
    (next : ∀ t, s.checkRequired = .done t → Moves t.enterNext (f t).state ∧
      (Apart o alone rest t.enterNext (.start (o.scope (s.cursor.index + 1)).grammar s.tagname) →
        Verdict o blames t.enterNext.cursor.index alone (f t))) :
    Verdict o blames s.cursor.index alone (s.checkRequired.andThen f) := by
  have index : s.cursor.shift.index = s.cursor.index + 1 := by rw [Cursor.shift_cons left]
  have no_more : routedTo s.cursor.index (s.cursor.routed bits) = [] := by
    rw [shifted]
    apply routedTo_route_of_lt
    omega
  rcases apart.close_here no_more with ⟨t, v, checked, here, agree⟩ | ⟨argument, t, v, failed, here⟩
  · obtain ⟨moves, verdict⟩ := next t checked
    have apart' := apart.enter left shifted checked
    have entered : t.enterNext.cursor.index = s.cursor.index + 1 := by
      rw [← index, ← checkRequired_cursor checked]
      rfl
    have verdict := verdict apart'
    rw [checked, Step.andThen_done]
    rw [entered] at verdict
    generalize f t = whole at moves verdict
    cases verdict with
    | done each =>
      apply Verdict.done
      intro j from_here bound
      by_cases own : j = s.cursor.index
      · subst own
        have behind : s.cursor.index < t.enterNext.cursor.index := by omega
        have kept := apart'.coherent.agree_behind moves behind
        exact ⟨v, here, fun n member => (kept n member).symm.trans (agree n member)⟩
      · exact each j (by omega) bound
    | failed from_here bound earlier first blame =>
      refine .failed (Nat.le_of_succ_le from_here) bound ?_ first blame
      intro i from_here before
      by_cases own : i = s.cursor.index
      · subst own
        exact ⟨v, here⟩
      · exact earlier i (by omega) before
  · rw [failed, Step.andThen_failed]
    exact apart.fails_here here (blame _ _ fun _ _ => ParseError.noConfusion)

theorem Apart.finish (apart : Apart o alone [] s u)
    (blame : ∀ j e, (∀ tagname extra, e ≠ .tooManyArguments tagname extra) → blames j e e) :
    Verdict o blames s.cursor.index alone s.finish := by
  generalize left : s.cursor.ahead = scopes
  induction scopes generalizing s u with
  | nil =>
    have last := apart.coherent.cursor.index_of_ahead_nil left
    rw [finish_of_last left]
    rcases apart.close_here rfl with ⟨t, v, checked, here, agree⟩ | ⟨argument, t, v, failed, here⟩
    · rw [checked]
      apply Verdict.done
      intro j from_here bound
      have own : j = s.cursor.index := by omega
      subst own
      exact ⟨v, here, agree⟩
    · rw [failed]
      exact apart.fails_here here (blame _ _ fun _ _ => ParseError.noConfusion)
  | cons scope scopes ih =>
    rw [finish_of_more left]
    have shifted : s.cursor.routed [] = s.cursor.shift.routed [] := rfl
    apply apart.close left shifted blame
    intro t checked
    refine ⟨finish_moves _, fun apart' => ih apart' ?_⟩
    change t.cursor.shift.ahead = scopes
    rw [checkRequired_cursor checked]
    rw [Cursor.shift_cons left]

/-- A breakpoint closes the scopes that it skips, each as it would be on its own. -/
theorem Apart.breakpoint (apart : Apart o alone (word :: rest) s u)
    (expected : word ∈ s.cursor.remaining)
    (blame : ∀ j e, (∀ tagname extra, e ≠ .tooManyArguments tagname extra) → blames j e e)
    (next : ∀ t v, s.handleBit word = .done t → Apart o alone rest t v →
      Verdict o blames t.cursor.index alone (Parser.breakpoints rest t)) :
    Verdict o blames s.cursor.index alone ((s.handleBit word).andThen (Parser.breakpoints rest)) := by
  generalize left : s.cursor.ahead = scopes
  induction scopes generalizing s u with
  | nil => simp [Cursor.remaining, left] at expected
  | cons scope scopes ih =>
    by_cases first : s.cursor.next? = some word
    · have shifted : s.cursor.routed (word :: rest) = s.cursor.shift.routed rest :=
        Cursor.routed_of_opened expected (fun passed => passed.2 first) (.shift first)
      rw [handleBit_of_next first, handleNextBreakpoint, Step.andThen_assoc]
      apply apart.close left shifted blame
      intro t checked
      have entered : s.handleBit word = .done t.enterNext.logEntered := by
        rw [handleBit_of_next first, handleNextBreakpoint, checked]
        rfl
      refine ⟨?_, fun apart' => next _ _ entered apart'.logEntered⟩
      exact .head (.note t.enterNext _ _) (breakpoints_moves rest _)
    by_cases here : s.cursor.breakpoint = some word
    · have passed : s.handleBit word = .done s := by
        rw [handleBit_of_later expected first]
        exact closeUntil_of_opened _ here
      rw [passed, Step.andThen_done]
      exact next s u passed (apart.repeated expected ⟨here, first⟩)
    · have skipping := handleBit_skipping expected first here
      rw [skipping, handleNextBreakpoint, Step.andThen_assoc, Step.andThen_assoc]
      apply apart.close left (Cursor.routed_shift expected first here) blame
      intro t checked
      have closed : s.handleBit word = t.enterNext.logEntered.handleBit word := by
        rw [skipping, handleNextBreakpoint, checked]
        rfl
      have moved : t.enterNext.cursor = s.cursor.shift := by
        rw [← checkRequired_cursor checked]
        rfl
      have inside : word ∈ t.enterNext.cursor.remaining := by
        rw [moved]
        exact Cursor.mem_remaining_shift expected first
      constructor
      · have handled := andThen_moves (handleBit_moves word t.enterNext.logEntered)
          fun v _ => breakpoints_moves rest v
        exact .head (.note t.enterNext _ _) handled
      · intro apart'
        have ahead : t.enterNext.cursor.ahead = scopes := by rw [moved, Cursor.shift_cons left]
        rw [Step.andThen_done]
        exact ih apart'.logEntered inside (fun v w handled => next v w (closed.trans handled)) ahead

theorem StopsAt.of_failed {e : ParseError} (content : bit ∉ s.cursor.remaining)
    (failed : { s with todo := bit :: rest }.handleBit bit = .failed e t) :
    s.StopsAt (bit :: rest) bit rest := by
  refine ⟨[], rfl, ?_⟩
  rw [handed_of_failed failed, if_neg content, List.nil_append, Cursor.routed_of_notMem content]
  rfl

theorem Apart.blames_unexpected (apart : Apart o alone (bit :: rest) s u)
    (stops : s.StopsAt (bit :: rest) bit rest) (more : List String) :
    Blames o.grammar (bit :: rest) s s.cursor.index
      ({ u with todo := bit :: more }.unexpectedBit bit)
      ({ s with todo := bit :: rest }.unexpectedBit bit) := by
  have ahead := apart.coherent.cursor.remaining
  unfold unexpectedBit
  dsimp only
  rw [apart.beside.last, apart.beside.tagname]
  cases left : s.cursor.ahead with
  | nil =>
    rw [Cursor.remaining, left] at ahead
    exact .surplus stops ahead.symm
  | cons scope scopes =>
    rw [ahead]
    rw [Cursor.remaining_cons left] at ahead
    exact .expected stops (ahead ▸ List.cons_ne_nil _ _)

theorem Apart.verdict (apart : Apart o alone bits s u) :
    Verdict o (Blames o.grammar bits s) s.cursor.index alone (Parser.breakpoints bits s) := by
  induction bits generalizing s u with
  | nil => exact (apart.note [] s.events).finish fun _ _ own => .same own
  | cons bit rest ih =>
    rw [Parser.breakpoints]
    by_cases expected : bit ∈ s.cursor.remaining
    · apply (apart.note (bit :: rest) s.events).breakpoint expected fun _ _ own => .same own
      intro t v handled apart'
      exact (ih apart').imp fun _ _ _ => Blames.cons handled
    · -- the bit is content, for the open scope as for the same scope on its own
      generalize routed : routedTo s.cursor.index (s.cursor.routed rest) = own
      have here := apart.here_of_notMem expected routed
      have noted := apart.note (bit :: rest) s.events
      have beside : { s with todo := bit :: rest }.Beside { u with todo := bit :: own } :=
        noted.beside.note_right (bit :: own)
      have paired : Paired bit { s with todo := bit :: rest } { u with todo := bit :: own }
          ({ s with todo := bit :: rest }.handleArgument bit)
          ({ u with todo := bit :: own }.handleArgument bit) := handleArgument_paired beside noted.coherent
      have handled := handleBit_of_notMem (s := { s with todo := bit :: rest }) expected
      rw [handled]
      generalize first : { s with todo := bit :: rest }.handleArgument bit = step,
        second : { u with todo := bit :: own }.handleArgument bit = step' at paired here
      cases paired with
      | done beside =>
        have kept := handleArgument_cursor first
        have verdict := ih (apart.content expected routed beside first second)
        rw [kept] at verdict
        exact verdict.imp fun _ _ _ => Blames.cons (handled.trans first)
      | refused own => exact apart.fails_here here (.same own.ne_tooManyArguments)
      | unexpected =>
        have stops := StopsAt.of_failed expected (handled.trans first)
        exact apart.fails_here here (apart.blames_unexpected stops _)

/-- The parse of one scope on its own, from what the breakpoints leave to it of all bits. -/
def parseAlone (o : Options) (tagname : String) (bits : List String) (k : Nat) : Step :=
  (o.scope k).parseKwargs tagname (routedTo k (route 0 none o.grammar.breakpoints bits))

theorem Apart.start (o : Options) (tagname : String) (bits : List String) :
    Apart o (parseAlone o tagname bits) bits (.start o.grammar tagname)
      (.start (o.scope 0).grammar tagname) where
  coherent := .start o tagname
  beside := .start o tagname
  here := rfl
  later := fun _ _ => rfl

theorem mem_names_of_parseAlone {tagname n : String} {k : Nat}
    (present : (parseAlone o tagname bits k).state.kwargs.contains n = true) :
    n ∈ namesIn (o.grammar.scopeArguments k) := by
  have reached : Coherent (o.scope k) (parseAlone o tagname bits k).state :=
    (Coherent.start (o.scope k) tagname).moves (breakpoints_moves _ _)
  have member := reached.mem_names present
  rwa [Grammar.arguments, show (o.scope k).grammar.later = [] from rfl, List.flatMap_nil,
    List.append_nil] at member

/-- The scopes of a grammar are parsed independently: the bits that a scope gets depend on the
breakpoints only, and a parse comes out as those of the single scopes, failing with the first. -/
theorem scopes_independent (o : Options) (tagname : String) (bits : List String) :
    let start := ParseState.start o.grammar tagname
    let whole := Parser.breakpoints bits start
    let alone := parseAlone o tagname bits
    let last := o.grammar.later.length
    (handed bits start <+: route 0 none o.grammar.breakpoints bits ∧
      (whole.error? = none → handed bits start = route 0 none o.grammar.breakpoints bits)) ∧
    (whole.error? = none ↔ ∀ k ≤ last, (alone k).error? = none) ∧
    (whole.error? = none → ∀ n v, whole.state.kwargs.get? n = some v ↔
      ∃ k ≤ last, (alone k).state.kwargs.get? n = some v) ∧
    (∀ j k n, (alone j).state.kwargs.contains n = true →
      (alone k).state.kwargs.contains n = true → j = k) ∧
    ∀ e, whole.error? = some e → ∃ k ≤ last, (∀ j < k, (alone j).error? = none) ∧
      ∃ e', (alone k).error? = some e' ∧ Blames o.grammar bits start k e' e := by
  intro start whole alone last
  have verdict : Verdict o (Blames o.grammar bits start) 0 alone whole :=
    (Apart.start o tagname bits).verdict
  have coherent : Coherent o whole.state := (Coherent.start o tagname).moves (breakpoints_moves bits _)
  refine ⟨⟨handed_isPrefix_routed bits start, fun done => ?_⟩, verdict.error?_eq_none_iff, ?_, ?_,
    fun e => verdict.first_failed⟩
  · obtain ⟨t, ended⟩ := Step.error?_eq_none_iff.mp done
    exact handed_eq_routed ended
  · intro done n v
    constructor
    · intro held
      have member := coherent.mem_names (Table.contains_iff.mpr ⟨v, held⟩)
      obtain ⟨k, bound, own⟩ := Grammar.mem_namesIn_arguments.mp member
      exact ⟨k, bound, (verdict.agree done bound n own).symm.trans held⟩
    · intro single
      obtain ⟨k, bound, held⟩ := single
      have own := mem_names_of_parseAlone (Table.contains_iff.mpr ⟨v, held⟩)
      exact (verdict.agree done bound n own).trans held
  · intro j k n left right
    by_contra different
    exact Options.scope_names_disjoint different (mem_names_of_parseAlone left)
      (mem_names_of_parseAlone right)

end ParseState

end TagGrammar
