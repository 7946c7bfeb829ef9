import TagGrammar.Proofs.Parse.Beside

namespace TagGrammar

open ParseError (OfArgument)

/-- The same error, with other bits in it where it lists those that are left. -/
def ParseError.withExtra (extra : List String) : ParseError → ParseError
  | .tooManyArguments tagname _ => .tooManyArguments tagname extra
  | e => e

theorem ParseError.OfArgument.withExtra {tagname : String} {e : ParseError}
    (own : OfArgument tagname e) (extra : List String) : e.withExtra extra = e := by
  cases own <;> rfl

def Step.withTodo (todo : List String) : Step → Step
  | done s => done { s with todo }
  | failed e s => failed (e.withExtra todo) { s with todo }

theorem Step.withTodo_andThen {todo : List String} {step : Step} {f : ParseState → Step}
    (same : ∀ s, f { s with todo } = (f s).withTodo todo) :
    (step.withTodo todo).andThen f = (step.andThen f).withTodo todo := by
  cases step with
  | done s => exact same s
  | failed e s => rfl

theorem Step.error?_withTodo (todo : List String) (step : Step) :
    (step.withTodo todo).error? = step.error?.map (·.withExtra todo) := by
  cases step <;> rfl

namespace ParseState

variable {o : Options} {s t : ParseState} {bit word : String} {before after bits : List String}
  {e : ParseError}

/-- A step goes on, or stops for a required argument. -/
inductive Closing (tagname : String) : Step → Prop
  | done {t : ParseState} (same : t.tagname = tagname) : Closing tagname (.done t)
  | required (name : String) (t : ParseState) :
    Closing tagname (.failed (.argumentRequired tagname name) t)

theorem Closing.andThen {tagname : String} {step : Step} {f : ParseState → Step}
    (first : Closing tagname step) (second : ∀ t, Closing t.tagname (f t)) :
    Closing tagname (step.andThen f) := by
  cases first with
  | done same => exact same ▸ second _
  | required name t => exact .required name t

theorem Closing.error {tagname : String} {step : Step} (closing : Closing tagname step) :
    step.error? = none ∨ ∃ name, step.error? = some (.argumentRequired tagname name) := by
  cases closing with
  | done same => exact .inl rfl
  | required name t => exact .inr ⟨name, rfl⟩

theorem checkRequired_closing (s : ParseState) : Closing s.tagname s.checkRequired := by
  unfold checkRequired
  split
  · exact .done rfl
  · rename_i failed
    obtain ⟨name, rfl⟩ := settle_failed failed
    exact .required name _

theorem handleNextBreakpoint_closing (s : ParseState) : Closing s.tagname s.handleNextBreakpoint :=
  s.checkRequired_closing.andThen fun _ => .done rfl

theorem closeUntil_closing (word : String) (scopes : List Scope) (s : ParseState) :
    Closing s.tagname (closeUntil word scopes s) := by
  induction scopes generalizing s with
  | nil => exact .done rfl
  | cons scope rest ih =>
    rw [closeUntil]
    split
    · exact .done rfl
    · exact s.handleNextBreakpoint_closing.andThen ih

theorem handleBit_closing (expected : bit ∈ s.cursor.remaining) :
    Closing s.tagname (s.handleBit bit) := by
  by_cases next : s.cursor.next? = some bit
  · rw [handleBit_of_next next]
    exact s.handleNextBreakpoint_closing
  · rw [handleBit_of_later expected next]
    exact closeUntil_closing bit _ s

theorem closeAll_closing (scopes : List Scope) (s : ParseState) :
    Closing s.tagname (closeAll scopes s) := by
  induction scopes generalizing s with
  | nil => exact .done rfl
  | cons scope rest ih => exact s.enterNext.checkRequired_closing.andThen ih

theorem finish_closing (s : ParseState) : Closing s.tagname s.finish :=
  s.checkRequired_closing.andThen fun t => closeAll_closing _ t

theorem checkRequired_todo (s : ParseState) (todo : List String) :
    { s with todo }.checkRequired = s.checkRequired.withTodo todo := by
  unfold checkRequired
  cases settled : settle s.tagname s.kwargs s.cursor.arguments with
  | mk kwargs e =>
    cases e with
    | none => rfl
    | some e =>
      obtain ⟨name, rfl⟩ := settle_failed settled
      rfl

theorem handleNextBreakpoint_todo (s : ParseState) (todo : List String) :
    { s with todo }.handleNextBreakpoint = s.handleNextBreakpoint.withTodo todo := by
  rw [handleNextBreakpoint, checkRequired_todo]
  exact Step.withTodo_andThen fun _ => rfl

theorem closeUntil_todo (word : String) (scopes : List Scope) (s : ParseState) (todo : List String) :
    closeUntil word scopes { s with todo } = (closeUntil word scopes s).withTodo todo := by
  induction scopes generalizing s with
  | nil => rfl
  | cons scope rest ih =>
    rw [closeUntil, closeUntil]
    split
    · rfl
    · rw [handleNextBreakpoint_todo]
      exact Step.withTodo_andThen ih

theorem offerIn_todo {todo : List String} (more : todo ≠ []) (s : ParseState)
    (arguments : List Argument) :
    offerIn bit { s with todo } arguments = (offerIn bit s arguments).withTodo todo := by
  induction arguments with
  | nil =>
    rw [offerIn, offerIn, Step.withTodo]
    congr 1
    unfold unexpectedBit
    dsimp only
    split
    · rw [if_neg (by simpa using more)]
      rfl
    · rfl
  | cons a rest ih =>
    rw [offerIn, offerIn]
    dsimp only
    cases answer : a.offer s.tagname bit s.kwargs with
    | accepted kwargs => rfl
    | declined => exact ih
    | failed e =>
      dsimp only [Step.withTodo]
      rw [(Argument.offer_failed answer).withExtra]

/-- The bits that are left are only looked at to name them in an error. -/
theorem handleBit_todo {todo : List String} (more : todo ≠ []) (s : ParseState) (bit : String) :
    { s with todo }.handleBit bit = (s.handleBit bit).withTodo todo := by
  unfold handleBit
  dsimp only
  split
  · exact handleNextBreakpoint_todo s todo
  · split
    · exact closeUntil_todo bit _ s todo
    · exact offerIn_todo more s _

/-- The parse up to where the bits in `after` come next. -/
def handleBits (after : List String) : List String → ParseState → Step
  | [], s => .done s
  | bit :: rest, s =>
    ({ s with todo := bit :: rest ++ after }.handleBit bit).andThen (handleBits after rest)

theorem breakpoints_append (before after : List String) (s : ParseState) :
    Parser.breakpoints (before ++ after) s =
      (handleBits after before s).andThen (Parser.breakpoints after) := by
  induction before generalizing s with
  | nil => rfl
  | cons bit rest ih =>
    rw [List.cons_append, Parser.breakpoints, handleBits, Step.andThen_assoc]
    congr 1
    funext t
    exact ih t

theorem handleBits_todo (done : handleBits after before s = .done t) (after' todo : List String) :
    ∃ todo', handleBits after' before { s with todo } = .done { t with todo := todo' } := by
  induction before generalizing s todo with
  | nil =>
    cases done
    exact ⟨todo, rfl⟩
  | cons bit rest ih =>
    obtain ⟨u, handled, done⟩ := Step.andThen_eq_done.mp done
    have more : bit :: rest ++ after' ≠ [] := List.cons_ne_nil _ _
    have again := handleBit_todo more
      { s with todo := bit :: rest ++ after } bit
    rw [handled] at again
    rw [handleBits, again]
    exact ih done (bit :: rest ++ after')

/-- The parse fails at this bit, in a state that the bits before it lead to. -/
structure FailsAt (start : ParseState) (before : List String) (bit : String) (after : List String)
    (s : ParseState) (e : ParseError) : Prop where
  reached : handleBits (bit :: after) before start = .done s
  failed : ({ s with todo := bit :: after }.handleBit bit).error? = some e

theorem FailsAt.error {start : ParseState} (fails : FailsAt start before bit after s e) :
    (Parser.breakpoints (before ++ bit :: after) start).error? = some e := by
  have failed := fails.failed
  rw [breakpoints_append, fails.reached, Step.andThen_done, Parser.breakpoints]
  cases handled : { s with todo := bit :: after }.handleBit bit with
  | done t =>
    rw [handled] at failed
    cases failed
  | failed e' t =>
    rw [handled] at failed
    exact failed

/-- A parse fails at one of the bits, or when it closes the scopes behind the last one. -/
theorem failsAt_or_finish (failed : (Parser.breakpoints bits s).error? = some e) :
    (∃ before bit after u, bits = before ++ bit :: after ∧ FailsAt s before bit after u e) ∨
      ∃ u, handleBits [] bits s = .done u ∧ { u with todo := [] }.finish.error? = some e := by
  induction bits generalizing s with
  | nil => exact .inr ⟨s, rfl, failed⟩
  | cons bit rest ih =>
    rw [Parser.breakpoints] at failed
    cases handled : { s with todo := bit :: rest }.handleBit bit with
    | failed e' t =>
      rw [handled] at failed
      refine .inl ⟨[], bit, rest, s, rfl, rfl, ?_⟩
      rw [handled]
      exact failed
    | done t =>
      rw [handled] at failed
      rcases ih failed with ⟨before, bit', after, u, rfl, fails⟩ | ⟨u, reached, unfinished⟩
      · refine .inl ⟨bit :: before, bit', after, u, rfl, ?_, fails.failed⟩
        rw [handleBits, List.cons_append, handled]
        exact fails.reached
      · refine .inr ⟨u, ?_, unfinished⟩
        rw [handleBits, List.append_nil, handled]
        exact reached

theorem FailsAt.change_after {start : ParseState} (fails : FailsAt start before bit after s e)
    (more : List String) : ∃ s', FailsAt start before bit more s' (e.withExtra (bit :: more)) := by
  obtain ⟨todo, reached⟩ := handleBits_todo fails.reached (bit :: more) start.todo
  refine ⟨_, reached, ?_⟩
  have again := handleBit_todo (List.cons_ne_nil bit more) { s with todo := bit :: after } bit
  rw [again, Step.error?_withTodo, fails.failed]
  rfl

theorem handleBits_moves (after bits : List String) (s : ParseState) :
    Moves s (handleBits after bits s).state := by
  induction bits generalizing s with
  | nil => exact .refl
  | cons bit rest ih =>
    have noted : Moves s { s with todo := bit :: rest ++ after } := .single (.note s _ s.events)
    exact andThen_moves (noted.trans (handleBit_moves bit _)) fun t _ => ih t

theorem unexpectedBit_cases (s : ParseState) (bit : String) :
    (s.cursor.remaining = [] ∧
      s.unexpectedBit bit = .tooManyArguments s.tagname (if s.todo.isEmpty then [bit] else s.todo)) ∨
    (s.cursor.remaining ≠ [] ∧
      s.unexpectedBit bit = .breakpointExpected s.tagname s.cursor.remaining bit) := by
  unfold unexpectedBit Cursor.remaining
  cases s.cursor.ahead with
  | nil => exact .inl ⟨rfl, rfl⟩
  | cons scope rest => exact .inr ⟨List.cons_ne_nil _ _, rfl⟩

/-- All ways in which a bit can fail. -/
theorem handleBit_failed (failed : s.handleBit bit = .failed e t) :
    (∃ name, e = .argumentRequired s.tagname name) ∨ OfArgument s.tagname e ∨
      (s.cursor.remaining = [] ∧
        e = .tooManyArguments s.tagname (if s.todo.isEmpty then [bit] else s.todo)) ∨
      (s.cursor.remaining ≠ [] ∧ e = .breakpointExpected s.tagname s.cursor.remaining bit) := by
  by_cases expected : bit ∈ s.cursor.remaining
  · have closing := handleBit_closing expected
    rw [failed] at closing
    cases closing with
    | required name t => exact .inl ⟨name, rfl⟩
  · rw [handleBit_of_notMem expected] at failed
    rcases offerIn_failed failed with own | rfl
    · exact .inr (.inl own)
    · exact .inr (.inr (s.unexpectedBit_cases bit))

theorem FailsAt.prefix_finish {start : ParseState} (fails : FailsAt start before bit after s e) :
    Parser.breakpoints before start = { s with todo := [] }.finish := by
  obtain ⟨todo, reached⟩ := handleBits_todo fails.reached [] start.todo
  have whole := breakpoints_append before [] start
  rw [List.append_nil] at whole
  rw [whole, show handleBits [] before start = _ from reached]
  rfl

/-- Any word ahead instead of the bit could only have failed for a required argument. -/
theorem FailsAt.replace {start : ParseState} (fails : FailsAt start before bit after s e)
    (expected : word ∈ s.cursor.remaining) :
    ∃ s', handleBits (word :: after) before start = .done s' ∧
      let handled := { s' with todo := word :: after }.handleBit word
      (handled.error? = none ∨ ∃ name, handled.error? = some (.argumentRequired s.tagname name)) := by
  obtain ⟨todo, reached⟩ := handleBits_todo fails.reached (word :: after) start.todo
  have closing : Closing s.tagname ({ s with todo := word :: after }.handleBit word) :=
    handleBit_closing (s := { s with todo := word :: after }) expected
  exact ⟨_, reached, closing.error⟩

/-- A parse fails at one of the bits or when it is finished. Where it fails at a bit, it does so
whatever follows, and without this bit and those behind it only a required argument could be missing.
An error on breakpoints is about this bit and those that are ahead of it, none of which could have
failed here but for a required argument, and bits are too many only where no breakpoint is ahead. -/
theorem fails_at_first_bad_bit (o : Options) (tagname : String) :
    let start := ParseState.start o.grammar tagname
    (∀ bits e, (Parser.breakpoints bits start).error? = some e →
      (∃ before bit after s, bits = before ++ bit :: after ∧ FailsAt start before bit after s e) ∨
        ∃ s, handleBits [] bits start = .done s ∧ { s with todo := [] }.finish.error? = some e) ∧
    ∀ before bit after s e, FailsAt start before bit after s e →
      (∀ more, (Parser.breakpoints (before ++ bit :: more) start).error? =
        some (e.withExtra (bit :: more))) ∧
      (Parser.breakpoints before start = { s with todo := [] }.finish ∧
        ((Parser.breakpoints before start).error? = none ∨
          ∃ name, (Parser.breakpoints before start).error? = some (.argumentRequired tagname name))) ∧
      (∀ tagname' words got, e = .breakpointExpected tagname' words got →
        tagname' = tagname ∧ got = bit ∧ words ≠ [] ∧
        words = o.grammar.breakpoints.drop s.cursor.index ∧
        ∀ word ∈ words, ∃ s', handleBits (word :: after) before start = .done s' ∧
          let handled := { s' with todo := word :: after }.handleBit word
          (handled.error? = none ∨ ∃ name, handled.error? = some (.argumentRequired tagname name))) ∧
      ∀ tagname' extra, e = .tooManyArguments tagname' extra →
        tagname' = tagname ∧ extra = bit :: after ∧
        o.grammar.breakpoints.drop s.cursor.index = [] := by
  intro start
  refine ⟨fun bits e failed => failsAt_or_finish failed, ?_⟩
  intro before bit after s e fails
  have moves : Moves start s := by
    have moves := handleBits_moves (bit :: after) before start
    rwa [fails.reached] at moves
  have tagname_kept : s.tagname = tagname := moves.tagname
  have remaining : s.cursor.remaining = o.grammar.breakpoints.drop s.cursor.index :=
    ((Coherent.start o tagname).moves moves).cursor.remaining
  have failed := fails.failed
  cases handled : { s with todo := bit :: after }.handleBit bit with
  | done t =>
    rw [handled] at failed
    cases failed
  | failed e' t =>
    rw [handled] at failed
    cases failed
    have kinds := handleBit_failed handled
    refine ⟨fun more => ?_, ⟨fails.prefix_finish, ?_⟩, ?_, ?_⟩
    · obtain ⟨s', fails'⟩ := fails.change_after more
      exact fails'.error
    · rw [fails.prefix_finish, ← tagname_kept]
      exact (finish_closing { s with todo := [] }).error
    · rintro tagname' words got rfl
      rcases kinds with ⟨name, absurd_kind⟩ | own | ⟨_, absurd_kind⟩ | ⟨ahead, kind⟩
      · cases absurd_kind
      · cases own
      · cases absurd_kind
      · cases kind
        refine ⟨tagname_kept, rfl, ahead, remaining, fun word expected => ?_⟩
        rw [← tagname_kept]
        exact fails.replace expected
    · rintro tagname' extra rfl
      rcases kinds with ⟨name, absurd_kind⟩ | own | ⟨last, kind⟩ | ⟨_, absurd_kind⟩
      · cases absurd_kind
      · cases own
      · cases kind
        exact ⟨tagname_kept, rfl, remaining ▸ last⟩
      · cases absurd_kind

/-- The same bit too many fails for the breakpoint that is ahead or, in the last scope, together with
all that follows it. -/
theorem fails_at_second_name :
    let o : Options := ⟨⟨[.leaf ⟨.ofName "source", .single .string⟩],
      [⟨"as", [.leaf ⟨.ofName "varname", .single .string⟩]⟩], []⟩, .breakpoints, by decide⟩
    let start := ParseState.start o.grammar "tag"
    (∃ s s', FailsAt start ["a"] "b" ["c"] s (.breakpointExpected "tag" ["as"] "b") ∧
      (∀ more, (Parser.breakpoints ("a" :: "b" :: more) start).error? =
        some (.breakpointExpected "tag" ["as"] "b")) ∧
      handleBits ["as", "c"] ["a"] start = .done s' ∧
      ({ s' with todo := ["as", "c"] }.handleBit "as").error? = none) ∧
    ∃ s, FailsAt start ["a", "as", "v"] "b" ["c"] s (.tooManyArguments "tag" ["b", "c"]) ∧
      ∀ more, (Parser.breakpoints ("a" :: "as" :: "v" :: "b" :: more) start).error? =
        some (.tooManyArguments "tag" ("b" :: more)) := by
  intro o start
  obtain ⟨-, at_bit⟩ := fails_at_first_bad_bit o "tag"
  refine ⟨?_, ?_⟩
  · obtain ⟨s, fails⟩ : ∃ s, FailsAt start ["a"] "b" ["c"] s (.breakpointExpected "tag" ["as"] "b") :=
      ⟨_, rfl, rfl⟩
    obtain ⟨suffix, -, expected, -⟩ := at_bit _ _ _ _ _ fails
    obtain ⟨-, -, -, -, replaced⟩ := expected _ _ _ rfl
    obtain ⟨s', reached, handled⟩ := replaced "as" List.mem_cons_self
    refine ⟨s, s', fails, suffix, reached, ?_⟩
    cases reached
    rfl
  · obtain ⟨s, fails⟩ : ∃ s, FailsAt start ["a", "as", "v"] "b" ["c"] s
        (.tooManyArguments "tag" ["b", "c"]) := ⟨_, rfl, rfl⟩
    obtain ⟨suffix, -, -, -⟩ := at_bit _ _ _ _ _ fails
    exact ⟨s, fails, suffix⟩

end ParseState

end TagGrammar
