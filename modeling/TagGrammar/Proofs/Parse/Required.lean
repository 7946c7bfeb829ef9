import TagGrammar.Proofs.Parse.Beside

namespace TagGrammar

open Argument (namesIn leavesIn)

/-- In the parse of the bits from a state on, the argument takes one that is no breakpoint ahead. -/
inductive Leaf.Captures (l : Leaf) : List String → ParseState → Prop
  | here {bit : String} {rest : List String} {s t : ParseState}
      (content : bit ∉ s.cursor.remaining)
      (handled : { s with todo := bit :: rest }.handleBit bit = .done t)
      (taken : l.offer s.tagname bit s.kwargs = .accepted t.kwargs) : l.Captures (bit :: rest) s
  | later {bit : String} {rest : List String} {s t : ParseState}
      (handled : { s with todo := bit :: rest }.handleBit bit = .done t)
      (next : l.Captures rest t) : l.Captures (bit :: rest) s

namespace Leaf

variable {l : Leaf} {bit : String} {rest : List String} {s t : ParseState}

theorem captures_cons_of_mem (expected : bit ∈ s.cursor.remaining)
    (handled : { s with todo := bit :: rest }.handleBit bit = .done t) :
    l.Captures (bit :: rest) s ↔ l.Captures rest t := by
  constructor
  · intro captured
    cases captured with
    | here content _ _ => exact absurd expected content
    | later handled' next =>
      cases handled.symm.trans handled'
      exact next
  · exact .later handled

theorem captures_cons_of_notMem (content : bit ∉ s.cursor.remaining)
    (handled : { s with todo := bit :: rest }.handleBit bit = .done t) :
    l.Captures (bit :: rest) s ↔
      l.offer s.tagname bit s.kwargs = .accepted t.kwargs ∨ l.Captures rest t := by
  constructor
  · intro captured
    cases captured with
    | here _ handled' taken =>
      cases handled.symm.trans handled'
      exact .inl taken
    | later handled' next =>
      cases handled.symm.trans handled'
      exact .inr next
  · intro either
    rcases either with taken | next
    · exact .here content handled taken
    · exact .later handled next

theorem not_captures_of_failed {e : ParseError}
    (failed : { s with todo := bit :: rest }.handleBit bit = .failed e t) :
    ¬l.Captures (bit :: rest) s := by
  intro captured
  cases captured with
  | here _ handled _ => cases failed.symm.trans handled
  | later handled _ => cases failed.symm.trans handled

theorem contains_offer {tagname : String} {kwargs kwargs' : Kwargs}
    (taken : l.offer tagname bit kwargs = .accepted kwargs') (n : String) :
    kwargs'.contains n = true ↔ l.name = n ∨ kwargs.contains n = true := by
  have taken' : (Argument.leaf l).offer tagname bit kwargs = .accepted kwargs' := by
    rwa [Argument.offer]
  obtain ⟨name, own, value, rfl⟩ := Argument.offer_stored taken'
  rw [Argument.storedNames_leaf, List.mem_singleton] at own
  rw [Table.contains_insert, own]

end Leaf

namespace Argument

/-- Where the argument is required, it or one of its alternatives has captured a bit. -/
def Met (captured : Leaf → Prop) (a : Argument) : Prop :=
  a.header.required = true → ∃ l ∈ a.leaves, captured l

/-- The name of the first of the arguments that is required and has not captured a bit. -/
inductive FirstUnmet (captured : Leaf → Prop) : List Argument → String → Prop
  | here {a : Argument} {rest : List Argument} (required : a.header.required = true)
      (missing : ∀ l ∈ a.leaves, ¬captured l) : FirstUnmet captured (a :: rest) a.name
  | there {a : Argument} {rest : List Argument} {name : String} (met : a.Met captured)
      (next : FirstUnmet captured rest name) : FirstUnmet captured (a :: rest) name

variable {a : Argument} {captured captured' : Leaf → Prop} {kwargs : Kwargs}

theorem Met.imp (met : a.Met captured) (more : ∀ l ∈ a.leaves, captured l → captured' l) :
    a.Met captured' := by
  intro required
  obtain ⟨l, below, got⟩ := met required
  exact ⟨l, below, more l below got⟩

theorem FirstUnmet.congr {arguments : List Argument} {name : String}
    (unmet : FirstUnmet captured arguments name)
    (same : ∀ l ∈ leavesIn arguments, captured l ↔ captured' l) :
    FirstUnmet captured' arguments name := by
  induction unmet with
  | here required missing =>
    refine .here required fun l below got => missing l below ((same l ?_).mpr got)
    exact List.mem_append_left _ below
  | there met next ih =>
    refine .there (met.imp fun l below => (same l ?_).mp) (ih fun l below => same l ?_)
    · exact List.mem_append_left _ below
    · exact List.mem_append_right _ below

theorem isSatisfied_iff_leaf :
    a.isSatisfied kwargs = true ↔ ∃ l ∈ a.leaves, kwargs.contains l.name = true := by
  rw [isSatisfied, List.any_eq_true]

end Argument

open Argument (FirstUnmet)

namespace ParseState

variable {o : Options} {captured : Leaf → Prop} {s t : ParseState} {bit word : String}
  {bits : List String}

/-- No default makes a later argument of the scope look satisfied. -/
theorem settle_verdict (tagname : String) (kwargs : Kwargs) {arguments : List Argument}
    (distinct : (namesIn arguments).Nodup) :
    let held (l : Leaf) : Prop := kwargs.contains l.name = true
    ((settle tagname kwargs arguments).2 = none ∧ ∀ a ∈ arguments, a.Met held) ∨
      ∃ name, (settle tagname kwargs arguments).2 = some (.argumentRequired tagname name) ∧
        FirstUnmet held arguments name := by
  intro held
  induction arguments generalizing kwargs with
  | nil => exact .inl ⟨rfl, fun a member => nomatch member⟩
  | cons a rest ih =>
    rw [Argument.namesIn_cons] at distinct
    obtain ⟨_, distinct', different⟩ := List.nodup_append.mp distinct
    have kept : ∀ l ∈ leavesIn rest, (a.fillDefaults kwargs).contains l.name = true ↔ held l := by
      intro l below
      have foreign : l.name ∉ a.storedNames := fun here =>
        different l.name here l.name (Argument.mem_namesIn_iff_leaf.mpr ⟨l, below, rfl⟩) rfl
      unfold held Table.contains
      rw [show (a.fillDefaults kwargs).get? l.name = kwargs.get? l.name from
        Kwargs.get?_fill_of_notMem foreign]
    have of_rest : ∀ b ∈ rest, b.leaves ⊆ leavesIn rest := by
      intro b member l below
      rw [Argument.leavesIn_eq_flatMap]
      exact List.mem_flatMap.mpr ⟨b, member, below⟩
    rw [settle]
    by_cases missing : (a.header.required && !a.isSatisfied kwargs) = true
    · rw [if_pos missing]
      rw [Bool.and_eq_true, Bool.not_eq_true'] at missing
      obtain ⟨required, unsatisfied⟩ := missing
      refine .inr ⟨a.name, rfl, .here required fun l below present => ?_⟩
      rw [Argument.isSatisfied_iff_leaf.mpr ⟨l, below, present⟩] at unsatisfied
      cases unsatisfied
    · rw [if_neg missing]
      have met : a.Met held := by
        intro required
        exact Argument.isSatisfied_iff_leaf.mp (by simpa [required] using missing)
      rcases ih (a.fillDefaults kwargs) distinct' with ⟨settled, all⟩ | ⟨name, failed, unmet⟩
      · refine .inl ⟨settled, fun b member => ?_⟩
        rcases List.mem_cons.mp member with rfl | member
        · exact met
        · exact (all b member).imp fun l below => (kept l (of_rest b member below)).mp
      · exact .inr ⟨name, failed, .there met (unmet.congr kept)⟩

/-- Midway through a parse, what the open scope holds was captured, and so was a bit for each required
argument of the scopes behind it. -/
structure Accounted (o : Options) (captured : Leaf → Prop) (s : ParseState) : Prop where
  coherent : Coherent o s
  held : ∀ l, captured l → s.kwargs.contains l.name = true
  earned : ∀ l ∈ leavesIn s.cursor.arguments, s.kwargs.contains l.name = true → captured l
  behind : ∀ k < s.cursor.index, ∀ a ∈ o.grammar.scopeArguments k, a.Met captured

/-- What comes of a part of a parse: it goes on, or it stops at the first required argument without a
bit, or at another error. -/
inductive Fair (o : Options) (tagname : String) (captured : Leaf → Prop) (goal : ParseState → Prop) :
    Step → Prop
  | done {t : ParseState} (reached : goal t) : Fair o tagname captured goal (.done t)
  | unmet {name : String} {t : ParseState}
      (first : FirstUnmet captured (o.grammar.scopeArguments t.cursor.index) name)
      (behind : ∀ k < t.cursor.index, ∀ a ∈ o.grammar.scopeArguments k, a.Met captured) :
    Fair o tagname captured goal (.failed (.argumentRequired tagname name) t)
  | other {e : ParseError} {t : ParseState}
      (different : ∀ tagname' name, e ≠ .argumentRequired tagname' name) :
    Fair o tagname captured goal (.failed e t)

theorem Fair.andThen {tagname : String} {goal goal' : ParseState → Prop} {step : Step}
    {f : ParseState → Step} (first : Fair o tagname captured goal step)
    (second : ∀ t, step = .done t → goal t → Fair o tagname captured goal' (f t)) :
    Fair o tagname captured goal' (step.andThen f) := by
  cases first with
  | done reached => exact second _ rfl reached
  | unmet first behind => exact .unmet first behind
  | other different => exact .other different

theorem Accounted.start (o : Options) (tagname : String) :
    Accounted o (fun _ => False) (.start o.grammar tagname) where
  coherent := .start o tagname
  held := fun _ never => never.elim
  earned := fun _ _ present => nomatch present
  behind := fun k before => absurd before (Nat.not_lt_zero k)

theorem Accounted.note (accounted : Accounted o captured s) (todo : List String) (events : List Event) :
    Accounted o captured { s with todo, events } :=
  ⟨accounted.coherent.move (.note s todo events), accounted.held, accounted.earned, accounted.behind⟩

theorem Accounted.checkRequired (accounted : Accounted o captured s) :
    Fair o s.tagname captured
      (fun _ => ∀ a ∈ o.grammar.scopeArguments s.cursor.index, a.Met captured) s.checkRequired := by
  have here := accounted.coherent.cursor.arguments
  have distinct : (namesIn s.cursor.arguments).Nodup := here ▸ Options.nodup_scope _
  have same : ∀ l ∈ leavesIn s.cursor.arguments, s.kwargs.contains l.name = true ↔ captured l :=
    fun l below => ⟨accounted.earned l below, accounted.held l⟩
  have verdict := settle_verdict s.tagname s.kwargs distinct
  unfold ParseState.checkRequired
  cases settled : settle s.tagname s.kwargs s.cursor.arguments with
  | mk kwargs e =>
    rw [settled] at verdict
    rcases verdict with ⟨rfl, met⟩ | ⟨name, rfl, unmet⟩
    · refine .done fun a member => ?_
      rw [← here] at member
      refine (met a member).imp fun l below => (same l ?_).mp
      rw [Argument.leavesIn_eq_flatMap]
      exact List.mem_flatMap.mpr ⟨a, member, below⟩
    · refine .unmet ?_ accounted.behind
      rw [← here]
      exact unmet.congr same

/-- Nothing of the scope that is entered has been captured, and nothing of it is held yet. -/
theorem Accounted.enter (accounted : Accounted o captured s) {scope : Scope} {scopes : List Scope}
    (left : s.cursor.ahead = scope :: scopes) (checked : s.checkRequired = .done t)
    (met : ∀ a ∈ o.grammar.scopeArguments s.cursor.index, a.Met captured) :
    Accounted o captured t.enterNext := by
  have moves := s.checkRequired_moves
  rw [checked] at moves
  have coherent : Coherent o t := accounted.coherent.moves moves
  have kept := checkRequired_cursor checked
  have index : t.enterNext.cursor.index = s.cursor.index + 1 := by
    change t.cursor.shift.index = _
    rw [kept, Cursor.shift_cons left]
  have entered : Coherent o t.enterNext := coherent.enter (closed_of_checkRequired checked)
  constructor
  · exact entered
  · intro l got
    change t.kwargs.contains l.name = true
    rw [checkRequired_done checked]
    exact Kwargs.contains_fill.mpr (.inl (accounted.held l got))
  · intro l below present
    rw [entered.cursor.arguments, index, ← kept] at below
    have absent := coherent.get?_ahead (Nat.lt_succ_self _)
      (Argument.mem_namesIn_iff_leaf.mpr ⟨l, below, rfl⟩)
    have nothing := Table.contains_eq_false_iff.mpr absent
    rw [show t.enterNext.kwargs = t.kwargs from rfl, nothing] at present
    cases present
  · intro k before a member
    rw [index] at before
    rcases Nat.lt_succ_iff_lt_or_eq.mp before with earlier | rfl
    · exact accounted.behind k earlier a member
    · exact met a member

theorem Accounted.handleNextBreakpoint (accounted : Accounted o captured s) {scope : Scope}
    {scopes : List Scope} (left : s.cursor.ahead = scope :: scopes) :
    Fair o s.tagname captured (Accounted o captured) s.handleNextBreakpoint :=
  accounted.checkRequired.andThen fun _ checked met =>
    .done ((accounted.enter left checked met).note _ _)

theorem Accounted.closeUntil (accounted : Accounted o captured s) {scopes : List Scope}
    (left : s.cursor.ahead = scopes) :
    Fair o s.tagname captured (Accounted o captured) (closeUntil word scopes s) := by
  induction scopes generalizing s with
  | nil => exact .done accounted
  | cons scope rest ih =>
    rw [ParseState.closeUntil]
    split
    · exact .done accounted
    · refine (accounted.handleNextBreakpoint left).andThen fun t handled accounted' => ?_
      have moves := s.handleNextBreakpoint_moves
      rw [handled] at moves
      have tagname : t.tagname = s.tagname := Moves.tagname moves
      have ahead : t.cursor.ahead = rest := by
        rw [handleNextBreakpoint_cursor handled, Cursor.shift_cons left]
      rw [← tagname]
      exact ih accounted' ahead

theorem Accounted.handleBit (accounted : Accounted o captured s) (expected : bit ∈ s.cursor.remaining) :
    Fair o s.tagname captured (Accounted o captured) (s.handleBit bit) := by
  by_cases next : s.cursor.next? = some bit
  · rw [handleBit_of_next next]
    cases left : s.cursor.ahead with
    | nil => simp [Cursor.remaining, left] at expected
    | cons scope scopes => exact accounted.handleNextBreakpoint left
  · rw [handleBit_of_later expected next]
    exact accounted.closeUntil rfl

theorem Accounted.take (accounted : Accounted o captured s) (done : s.handleArgument bit = .done t) :
    Accounted o (fun l => captured l ∨ l.offer s.tagname bit s.kwargs = .accepted t.kwargs) t := by
  have moves := s.handleArgument_moves bit
  rw [done] at moves
  have coherent : Coherent o t := accounted.coherent.moves moves
  obtain ⟨a, waiting, kwargs, rest, taken, rfl⟩ := offerIn_done done
  obtain ⟨taker, inside, answer⟩ := Argument.exists_leaf_offer taken
  have here : a ∈ s.cursor.arguments :=
    (rest.trans accounted.coherent.queue).subset List.mem_cons_self
  have below : taker ∈ leavesIn s.cursor.arguments := by
    rw [Argument.leavesIn_eq_flatMap]
    exact List.mem_flatMap.mpr ⟨a, here, inside⟩
  constructor
  · exact coherent
  · intro l got
    rcases got with got | own
    · exact (Leaf.contains_offer answer _).mpr (.inr (accounted.held l got))
    · exact (Leaf.contains_offer own _).mpr (.inl rfl)
  · intro l member present
    rcases (Leaf.contains_offer answer _).mp present with same | before
    · have declared : ∀ l ∈ leavesIn s.cursor.arguments, l ∈ leavesIn o.grammar.arguments := by
        intro l member
        rw [accounted.coherent.cursor.arguments] at member
        exact accounted.coherent.mem_arguments (Nat.le_refl _) member
      rw [← Options.leaf_unique (declared taker below) (declared l member) same]
      exact .inr answer
    · exact .inl (accounted.earned l member before)
  · intro k before b member
    exact (accounted.behind k before b member).imp fun _ _ => .inl

/-- What is left once the bits are handled: every scope still has to account for its own. -/
theorem Accounted.finish (accounted : Accounted o captured s) :
    Fair o s.tagname captured (fun _ => ∀ a ∈ o.grammar.arguments, a.Met captured) s.finish := by
  generalize left : s.cursor.ahead = scopes
  induction scopes generalizing s with
  | nil =>
    rw [finish_of_last left]
    have last := accounted.coherent.cursor.index_of_ahead_nil left
    have checked := accounted.checkRequired
    generalize s.checkRequired = step at checked
    cases checked with
    | done met =>
      refine .done fun a member => ?_
      obtain ⟨k, bound, member⟩ := Grammar.mem_arguments_iff.mp member
      rcases Nat.lt_or_ge k s.cursor.index with before | here
      · exact accounted.behind k before a member
      · have same : k = s.cursor.index := by omega
        subst same
        exact met a member
    | unmet first behind => exact .unmet first behind
    | other different => exact .other different
  | cons scope scopes ih =>
    rw [finish_of_more left]
    refine accounted.checkRequired.andThen fun t checked met => ?_
    have moves := s.checkRequired_moves
    rw [checked] at moves
    have tagname : t.enterNext.tagname = s.tagname := (Moves.tagname moves :)
    rw [← tagname]
    apply ih (accounted.enter left checked met)
    change t.cursor.shift.ahead = scopes
    rw [checkRequired_cursor checked, Cursor.shift_cons left]

theorem Accounted.breakpoints (accounted : Accounted o captured s) {total : Leaf → Prop}
    (sum : ∀ l, total l ↔ captured l ∨ l.Captures bits s) :
    Fair o s.tagname total (fun _ => ∀ a ∈ o.grammar.arguments, a.Met total)
      (Parser.breakpoints bits s) := by
  induction bits generalizing s captured with
  | nil =>
    have same : total = captured := by
      funext l
      exact propext ((sum l).trans (or_iff_left fun never => nomatch never))
    rw [same]
    exact (accounted.note [] s.events).finish
  | cons bit rest ih =>
    have noted := accounted.note (bit :: rest) s.events
    have moves := handleBit_moves bit { s with todo := bit :: rest }
    rw [Parser.breakpoints]
    cases handled : { s with todo := bit :: rest }.handleBit bit with
    | done t =>
      rw [handled] at moves
      have tagname : t.tagname = s.tagname := (Moves.tagname moves :)
      rw [Step.andThen_done, ← tagname]
      by_cases expected : bit ∈ s.cursor.remaining
      · have fair := Accounted.handleBit noted expected
        rw [handled] at fair
        cases fair with
        | done accounted' =>
          refine ih accounted' fun l => (sum l).trans ?_
          rw [Leaf.captures_cons_of_mem expected handled]
      · have offered := handled
        rw [handleBit_of_notMem (s := { s with todo := bit :: rest }) expected] at offered
        refine ih (noted.take offered) fun l => (sum l).trans ?_
        rw [Leaf.captures_cons_of_notMem expected handled, or_assoc]
    | failed e t =>
      have same : total = captured := by
        funext l
        exact propext ((sum l).trans (or_iff_left (Leaf.not_captures_of_failed handled)))
      rw [Step.andThen_failed, same]
      by_cases expected : bit ∈ s.cursor.remaining
      · have fair := Accounted.handleBit noted expected
        rw [handled] at fair
        cases fair with
        | unmet first behind => exact .unmet first behind
        | other different => exact .other different
      · rw [handleBit_of_notMem (s := { s with todo := bit :: rest }) expected] at handled
        refine .other fun tagname' name => ?_
        rcases offerIn_failed handled with own | rfl
        · exact own.ne_argumentRequired tagname' name
        · unfold unexpectedBit
          split <;> exact ParseError.noConfusion

/-- A parse ends well only when each required argument has captured a bit, whichever way its scope was
closed. If it stops for a missing argument, that is the first required one without a bit, and it
belongs to the open scope. -/
theorem required_captured (o : Options) (tagname : String) (bits : List String) :
    let start := ParseState.start o.grammar tagname
    let whole := Parser.breakpoints bits start
    let captured (l : Leaf) : Prop := l.Captures bits start
    (whole.error? = none → ∀ a ∈ o.grammar.arguments, a.header.required = true →
      ∃ l ∈ a.leaves, captured l) ∧
    ∀ tagname' name, whole.error? = some (.argumentRequired tagname' name) →
      tagname' = tagname ∧
      FirstUnmet captured (o.grammar.scopeArguments whole.state.cursor.index) name ∧
      ∀ k < whole.state.cursor.index, ∀ a ∈ o.grammar.scopeArguments k, a.Met captured := by
  intro start whole captured
  have fair : Fair o tagname captured (fun _ => ∀ a ∈ o.grammar.arguments, a.Met captured) whole :=
    (Accounted.start o tagname).breakpoints fun l => (false_or _).symm.to_iff
  clear_value whole
  cases fair with
  | done met => exact ⟨fun _ => met, fun _ _ failed => nomatch failed⟩
  | unmet first behind =>
    refine ⟨fun done => (nomatch done), fun tagname' name failed => ?_⟩
    cases failed
    exact ⟨rfl, first, behind⟩
  | other different =>
    refine ⟨fun done => (nomatch done), fun tagname' name failed => ?_⟩
    exact absurd (Option.some.inj failed) (different tagname' name)

end ParseState

end TagGrammar
