import TagGrammar.Proofs.Parse.Moves

namespace TagGrammar

open Argument (namesIn leavesIn)
open Kwargs (AgreeOn)

namespace Leaf

/-- A list or a dictionary holds no more than its limit, and a dictionary has an identifier of its
own for each entry, unless the argument holds the default it declares. -/
def WithinLimit (l : Leaf) (v : Value) : Prop :=
  match l.kind with
  | .multi _ max _ =>
    (∃ d, l.header.default = some d ∧ v = .fixed d) ∨
      ∃ items sequence, v = .list items sequence ∧ ∀ m ∈ max, items.length ≤ m
  | .keyword _ max =>
    (∃ d, l.header.default = some d ∧ v = .fixed d) ∨
      ∃ entries, v = .dict entries ∧ (∀ m ∈ max, entries.length ≤ m) ∧
        (entries.map (·.1)).Nodup ∧ ∀ e ∈ entries, Bit.isIdentifier e.1.toList = true
  | .single _ | .flag _ => True

theorem Holds.withinLimit {l : Leaf} {bits : List String} {v : Value} (holds : l.Holds bits v) :
    l.WithinLimit v := by
  unfold WithinLimit
  cases holds with
  | default =>
    unfold defaultValue
    cases l.header.default with
    | some d =>
      cases l.kind with
      | single kind => trivial
      | multi item max sequence => exact .inl ⟨d, rfl, rfl⟩
      | keyword item max => exact .inl ⟨d, rfl, rfl⟩
      | flag w => trivial
    | none =>
      cases l.kind with
      | single kind => trivial
      | multi item max sequence => exact .inr ⟨[], sequence, rfl, fun m _ => Nat.zero_le m⟩
      | keyword item max =>
        exact .inr ⟨[], rfl, fun m _ => Nat.zero_le m, List.nodup_nil, fun _ absent => nomatch absent⟩
      | flag w => trivial
  | single bit shape => rw [shape]; trivial
  | multi shape _ room =>
    rw [shape]
    exact .inr ⟨_, _, rfl, by simpa using room⟩
  | keyword shape _ room identifiers distinct =>
    rw [shape]
    refine .inr ⟨_, rfl, by simpa using room, ?_, ?_⟩
    · rw [List.map_map]
      exact distinct
    · intro e member
      obtain ⟨p, inside, rfl⟩ := List.mem_map.mp member
      exact identifiers p inside
  | flag bit shape _ => rw [shape]; trivial

end Leaf

namespace ParseState

variable {o : Options} {s t : ParseState}

/-- What holds of a parse in every state, whichever steps led to it. -/
structure Coherent (o : Options) (s : ParseState) : Prop where
  cursor : s.cursor.At o.grammar
  queue : s.queue <:+ s.cursor.arguments
  /-- Nothing is held but what some bits amount to for an argument of a scope opened so far. -/
  held : ∀ n v, s.kwargs.get? n = some v → ∃ k ≤ s.cursor.index,
    ∃ l ∈ leavesIn (o.grammar.scopeArguments k), l.name = n ∧ ∃ bits, l.Holds bits v
  closed : ∀ k < s.cursor.index, ∀ n ∈ namesIn (o.grammar.scopeArguments k),
    s.kwargs.contains n = true

theorem Coherent.start (o : Options) (tagname : String) :
    Coherent o (ParseState.start o.grammar tagname) where
  cursor := .start o.grammar
  queue := List.suffix_refl _
  held := fun _ _ held => nomatch held
  closed := fun k behind => absurd behind (Nat.not_lt_zero k)

theorem Coherent.mem_arguments (coherent : Coherent o s) {k : Nat} (opened : k ≤ s.cursor.index)
    {l : Leaf} (member : l ∈ leavesIn (o.grammar.scopeArguments k)) :
    l ∈ leavesIn o.grammar.arguments :=
  Grammar.mem_leavesIn_arguments.mpr ⟨k, Nat.le_trans opened coherent.cursor.bound, member⟩

theorem Coherent.heldIn (coherent : Coherent o s) {l : Leaf}
    (member : l ∈ leavesIn o.grammar.arguments) : ∃ bits, l.HeldIn s.kwargs bits := by
  cases found : s.kwargs.get? l.name with
  | none => exact ⟨[], .inl ⟨found, rfl⟩⟩
  | some v =>
    obtain ⟨k, opened, l', member', same, bits, holds⟩ := coherent.held l.name v found
    have unique := Options.leaf_unique (coherent.mem_arguments opened member') member same
    subst unique
    exact ⟨bits, .inr ⟨v, found, holds⟩⟩

theorem Coherent.take (coherent : Coherent o s) {bit : String} {a : Argument}
    {waiting : List Argument} {kwargs : Kwargs} (rest : a :: waiting <:+ s.queue)
    (taken : a.offer s.tagname bit s.kwargs = .accepted kwargs) :
    Coherent o { s with kwargs, current := some a, waiting } := by
  have here : a ∈ s.cursor.arguments := (rest.trans coherent.queue).subset List.mem_cons_self
  obtain ⟨l, below, taken⟩ := Argument.exists_leaf_offer taken
  have member : l ∈ leavesIn (o.grammar.scopeArguments s.cursor.index) := by
    rw [← coherent.cursor.arguments, Argument.leavesIn_eq_flatMap]
    exact List.mem_flatMap.mpr ⟨a, here, below⟩
  obtain ⟨bits, held⟩ := coherent.heldIn (coherent.mem_arguments (Nat.le_refl _) member)
  obtain ⟨value, takes⟩ := Leaf.offer_takes held taken
  have stored := takes.stored
  subst stored
  constructor
  · exact coherent.cursor
  · exact rest.trans coherent.queue
  · intro n v found
    rw [Table.get?_insert] at found
    split at found
    · rename_i own
      cases found
      exact ⟨s.cursor.index, Nat.le_refl _, l, member, own, bits ++ [bit], takes.holds⟩
    · exact coherent.held n v found
  · intro k behind n own
    exact (Table.contains_insert _ _ _ _).mpr (.inr (coherent.closed k behind n own))

theorem Coherent.fill (coherent : Coherent o s) {a : Argument} (member : a ∈ s.cursor.arguments) :
    Coherent o { s with kwargs := a.fillDefaults s.kwargs } := by
  constructor
  · exact coherent.cursor
  · exact coherent.queue
  · intro n v found
    change (s.kwargs.fill a.leaves).get? n = some v at found
    rw [Kwargs.get?_fill] at found
    cases before : s.kwargs.get? n with
    | some w =>
      rw [before] at found
      cases found
      exact coherent.held n v before
    | none =>
      rw [before, Option.none_or] at found
      obtain ⟨l, first, default⟩ := Option.map_eq_some_iff.mp found
      have below := List.mem_of_find?_eq_some first
      have own : l.name = n := by simpa using List.find?_some first
      refine ⟨s.cursor.index, Nat.le_refl _, l, ?_, own, [], ?_⟩
      · rw [← coherent.cursor.arguments, Argument.leavesIn_eq_flatMap]
        exact List.mem_flatMap.mpr ⟨a, member, below⟩
      · rw [← default]
        exact .default
  · intro k behind n own
    exact Kwargs.contains_fill.mpr (.inl (coherent.closed k behind n own))

theorem Coherent.enter (coherent : Coherent o s) (closed : s.Closed) :
    Coherent o s.enterNext := by
  have later := Cursor.index_shift_le s.cursor
  constructor
  · exact coherent.cursor.shift
  · exact List.suffix_refl _
  · intro n v found
    obtain ⟨k, opened, rest⟩ := coherent.held n v found
    exact ⟨k, Nat.le_trans opened later, rest⟩
  · intro k behind n own
    rcases Nat.lt_or_ge k s.cursor.index with earlier | here
    · exact coherent.closed k earlier n own
    · -- only the scope that the move closes is left
      have same : k = s.cursor.index := by
        have step := Cursor.index_shift_le_succ s.cursor
        have : k < s.cursor.shift.index := behind
        omega
      subst same
      rw [← coherent.cursor.arguments] at own
      exact closed n own

theorem Coherent.move (coherent : Coherent o s) (move : Move s t) : Coherent o t := by
  cases move with
  | note todo events => exact ⟨coherent.cursor, coherent.queue, coherent.held, coherent.closed⟩
  | pass current waiting rest =>
    exact ⟨coherent.cursor, rest.trans coherent.queue, coherent.held, coherent.closed⟩
  | take rest taken => exact coherent.take rest taken
  | fill member allowed => exact coherent.fill member
  | enter closed => exact coherent.enter closed

theorem Coherent.moves (coherent : Coherent o s) (moves : Moves s t) : Coherent o t := by
  induction moves with
  | refl => exact coherent
  | tail _ move ih => exact ih.move move

theorem Move.index_le (move : Move s t) : s.cursor.index ≤ t.cursor.index := by
  cases move with
  | enter closed => exact Cursor.index_shift_le s.cursor
  | _ => exact Nat.le_refl _

theorem Moves.index_le (moves : Moves s t) : s.cursor.index ≤ t.cursor.index := by
  induction moves with
  | refl => exact Nat.le_refl _
  | tail _ move ih => exact Nat.le_trans ih move.index_le

theorem Coherent.get?_ahead (coherent : Coherent o s) {k : Nat} (ahead : s.cursor.index < k)
    {n : String} (own : n ∈ namesIn (o.grammar.scopeArguments k)) : s.kwargs.get? n = none := by
  cases found : s.kwargs.get? n with
  | none => rfl
  | some v =>
    obtain ⟨j, opened, l, member, same, _⟩ := coherent.held n v found
    have own' : n ∈ namesIn (o.grammar.scopeArguments j) :=
      Argument.mem_namesIn_iff_leaf.mpr ⟨l, member, same⟩
    have different : j ≠ k := by omega
    exact absurd own (Options.scope_names_disjoint different own')

theorem Coherent.agree_behind_move (coherent : Coherent o s) (move : Move s t) {k : Nat}
    (behind : k < s.cursor.index) :
    AgreeOn (namesIn (o.grammar.scopeArguments k)) s.kwargs t.kwargs := by
  intro n own
  cases move with
  | take rest taken =>
    rename_i bit a waiting kwargs
    have here : a ∈ s.cursor.arguments := (rest.trans coherent.queue).subset List.mem_cons_self
    rw [coherent.cursor.arguments] at here
    refine (Argument.get?_offer_of_notMem taken fun inside => ?_).symm
    have different : k ≠ s.cursor.index := Nat.ne_of_lt behind
    exact Options.scope_names_disjoint different own (Argument.mem_namesIn.mpr ⟨a, here, inside⟩)
  | fill member allowed =>
    obtain ⟨v, held⟩ := Table.contains_iff.mp (coherent.closed k behind n own)
    rw [held]
    exact (Kwargs.get?_fill_of_some held).symm
  | _ => rfl

theorem Coherent.agree_behind (coherent : Coherent o s) (moves : Moves s t) {k : Nat}
    (behind : k < s.cursor.index) :
    AgreeOn (namesIn (o.grammar.scopeArguments k)) s.kwargs t.kwargs := by
  induction moves with
  | refl => exact fun _ _ => rfl
  | tail moves move ih =>
    have reached := coherent.moves moves
    have behind' := Nat.lt_of_lt_of_le behind (Moves.index_le moves)
    exact fun n own => (ih n own).trans (reached.agree_behind_move move behind' n own)

theorem closeAll_done {ahead : List Scope} {s t : ParseState} (left : s.cursor.ahead = ahead)
    (closed : s.Closed) (done : closeAll ahead s = .done t) : t.cursor.ahead = [] ∧ t.Closed := by
  induction ahead generalizing s with
  | nil =>
    cases done
    exact ⟨left, closed⟩
  | cons scope rest ih =>
    rw [closeAll] at done
    obtain ⟨u, checked, done⟩ := Step.andThen_eq_done.mp done
    refine ih ?_ (closed_of_checkRequired checked) done
    rw [checkRequired_cursor checked]
    change s.cursor.shift.ahead = rest
    rw [Cursor.shift_cons left]

theorem finish_done {s t : ParseState} (done : s.finish = .done t) :
    t.cursor.ahead = [] ∧ t.Closed := by
  obtain ⟨u, checked, done⟩ := Step.andThen_eq_done.mp done
  exact closeAll_done rfl (closed_of_checkRequired checked) done

theorem Coherent.mem_names (coherent : Coherent o s) {n : String}
    (present : s.kwargs.contains n = true) : n ∈ namesIn o.grammar.arguments := by
  obtain ⟨v, found⟩ := Table.contains_iff.mp present
  obtain ⟨k, opened, l, member, own, _⟩ := coherent.held n v found
  exact Argument.mem_namesIn_iff_leaf.mpr ⟨l, coherent.mem_arguments opened member, own⟩

theorem Coherent.contains_iff (coherent : Coherent o s) (last : s.cursor.ahead = [])
    (closed : s.Closed) (n : String) :
    s.kwargs.contains n = true ↔ n ∈ namesIn o.grammar.arguments := by
  have index := coherent.cursor.index_of_ahead_nil last
  constructor
  · exact coherent.mem_names
  · intro declared
    obtain ⟨k, bound, own⟩ := Grammar.mem_namesIn_arguments.mp declared
    rcases Nat.lt_or_ge k s.cursor.index with behind | here
    · exact coherent.closed k behind n own
    · have same : k = s.cursor.index := by omega
      subst same
      rw [← coherent.cursor.arguments] at own
      exact closed n own

theorem exists_play_of_breakpoints {bits : List String} {s t : ParseState}
    (done : Parser.breakpoints bits s = .done t) : ∃ actions, (s.play actions).finish = .done t := by
  induction bits generalizing s with
  | nil => exact ⟨[.setTodo []], done⟩
  | cons bit rest ih =>
    obtain ⟨u, handled, done⟩ := Step.andThen_eq_done.mp done
    obtain ⟨actions, finished⟩ := ih done
    refine ⟨[.setTodo (bit :: rest), .bit bit] ++ actions, ?_⟩
    have reached : s.play [.setTodo (bit :: rest), .bit bit] = u := by
      change ({ s with todo := bit :: rest }.handleBit bit).state = u
      rw [handled]
      rfl
    rw [play_append, reached]
    exact finished

theorem Coherent.play (o : Options) (tagname : String) (actions : List Action) :
    Coherent o ((ParseState.start o.grammar tagname).play actions) :=
  (Coherent.start o tagname).moves (play_moves _ actions)

/-- A parse that is finished has the names in its table that the grammar declares. -/
theorem breakpoints_contains_iff {tagname : String} {bits : List String} {t : ParseState}
    (done : Parser.breakpoints bits (.start o.grammar tagname) = .done t) (n : String) :
    t.kwargs.contains n = true ↔ n ∈ namesIn o.grammar.arguments := by
  obtain ⟨actions, finished⟩ := exists_play_of_breakpoints done
  have reached := (Coherent.play o tagname actions).moves (finish_moves _)
  rw [finished] at reached
  obtain ⟨last, closed⟩ := finish_done finished
  exact Coherent.contains_iff reached last closed n

/-- In every state that some actions lead to, in any order and whether or not they fail, the cursor
has only moved forward, the queue is the end of the open scope, the table holds names of the scopes
up to the open one, all those of the scopes behind it, and what it holds keeps to the limits. A
parse that is finished holds exactly the names that the grammar declares. -/
theorem play_sound (o : Options) (tagname : String) (before after : List Action) :
    let s := (ParseState.start o.grammar tagname).play before
    let t := s.play after
    (s.cursor.index ≤ t.cursor.index ∧ t.cursor.index ≤ o.grammar.breakpoints.length) ∧
    t.current.toList ++ t.waiting <:+ o.grammar.scopeArguments t.cursor.index ∧
    (∀ n, t.kwargs.contains n = true →
      ∃ k ≤ t.cursor.index, ∃ a ∈ o.grammar.scopeArguments k, n ∈ a.storedNames) ∧
    (∀ k < t.cursor.index, ∀ a ∈ o.grammar.scopeArguments k, ∀ n ∈ a.storedNames,
      t.kwargs.contains n = true) ∧
    (∀ l ∈ leavesIn o.grammar.arguments, ∀ v, t.kwargs.get? l.name = some v → l.WithinLimit v) ∧
    (∀ u, t.finish = .done u →
      ∀ n, u.kwargs.contains n = true ↔ ∃ a ∈ o.grammar.arguments, n ∈ a.storedNames) ∧
    (∀ bits u, Parser.breakpoints bits (.start o.grammar tagname) = .done u →
      ∀ n, u.kwargs.contains n = true ↔ ∃ a ∈ o.grammar.arguments, n ∈ a.storedNames) := by
  intro s t
  have coherent : Coherent o t := (Coherent.play o tagname before).moves (play_moves s after)
  have finished : ∀ (actions : List Action) (u : ParseState),
      ((ParseState.start o.grammar tagname).play actions).finish = .done u →
      ∀ n, u.kwargs.contains n = true ↔ ∃ a ∈ o.grammar.arguments, n ∈ a.storedNames := by
    intro actions u done n
    have reached := (Coherent.play o tagname actions).moves (finish_moves _)
    rw [done] at reached
    obtain ⟨last, closed⟩ := finish_done done
    rw [← Argument.mem_namesIn]
    exact Coherent.contains_iff reached last closed n
  refine ⟨⟨Moves.index_le (play_moves s after), ?_⟩, ?_, ?_, ?_, ?_, ?_, ?_⟩
  · have bound := coherent.cursor.bound
    rwa [Grammar.breakpoints, List.length_map]
  · rw [← coherent.cursor.arguments]
    exact coherent.queue
  · intro n present
    obtain ⟨v, found⟩ := Table.contains_iff.mp present
    obtain ⟨k, opened, l, member, own, _⟩ := coherent.held n v found
    exact ⟨k, opened, Argument.mem_namesIn.mp (Argument.mem_namesIn_iff_leaf.mpr ⟨l, member, own⟩)⟩
  · intro k behind a member n own
    exact coherent.closed k behind n (Argument.mem_namesIn.mpr ⟨a, member, own⟩)
  · intro l member v found
    obtain ⟨bits, ⟨nothing, _⟩ | ⟨w, held, holds⟩⟩ := coherent.heldIn member
    · cases nothing.symm.trans found
    · cases held.symm.trans found
      exact holds.withinLimit
  · intro u done
    refine finished (before ++ after) u ?_
    rw [play_append]
    exact done
  · intro bits u done
    obtain ⟨actions, done⟩ := exists_play_of_breakpoints done
    exact finished actions u done

end ParseState

end TagGrammar
