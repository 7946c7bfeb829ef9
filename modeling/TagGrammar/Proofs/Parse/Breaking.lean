import TagGrammar.Proofs.Parse.Coherence
import TagGrammar.Proofs.Parse.Routing

namespace TagGrammar

open Argument (namesIn leavesIn)
open Kwargs (AgreeOn)

/-- The arguments of the scopes from one index on, up to another that is left out. -/
def Grammar.argumentsBetween (g : Grammar) (i j : Nat) : List Argument :=
  (List.range' i (j - i)).flatMap g.scopeArguments

namespace Grammar

variable {g : Grammar} {i j : Nat}

theorem argumentsBetween_self : g.argumentsBetween i i = [] := by
  simp [argumentsBetween]

theorem argumentsBetween_of_lt (less : i < j) :
    g.argumentsBetween i j = g.scopeArguments i ++ g.argumentsBetween (i + 1) j := by
  have count : j - i = j - (i + 1) + 1 := by omega
  rw [argumentsBetween, argumentsBetween, count, List.range'_succ, List.flatMap_cons]

theorem argumentsBetween_subset : g.argumentsBetween i j ⊆ g.arguments := by
  intro a member
  obtain ⟨k, _, inside⟩ := List.mem_flatMap.mp member
  exact mem_arguments_of_mem inside

end Grammar

/-- The defaults of these arguments are written where nothing was, and nothing else is changed. -/
structure Kwargs.DefaultsAdded (leaves : List Leaf) (before after : Kwargs) : Prop where
  kept : ∀ n v, before.get? n = some v → after.get? n = some v
  added : ∀ l ∈ leaves, before.get? l.name = none → after.get? l.name = some l.defaultValue
  absent : ∀ n, before.get? n = none → n ∉ leaves.map Leaf.name → after.get? n = none

variable {o : Options}

theorem Kwargs.defaultsAdded_fill {leaves : List Leaf} (kwargs : Kwargs)
    (declared : leaves ⊆ leavesIn o.grammar.arguments) :
    DefaultsAdded leaves kwargs (kwargs.fill leaves) := by
  constructor
  · exact fun n v held => get?_fill_of_some held
  · intro l member nothing
    have found : (leaves.find? (·.name = l.name)).isSome = true := by
      rw [List.find?_isSome]
      exact ⟨l, member, by simp⟩
    obtain ⟨l', first⟩ := Option.isSome_iff_exists.mp found
    have named : l'.name = l.name := by simpa using List.find?_some first
    have same : l' = l :=
      Options.leaf_unique (declared (List.mem_of_find?_eq_some first)) (declared member) named
    rw [get?_fill, nothing, first, same]
    rfl
  · intro n nothing foreign
    rw [get?_fill_of_notMem foreign, nothing]

namespace ParseState

variable {s t : ParseState} {word tagname : String} {kwargs kwargs' : Kwargs}
  {arguments settled unsettled : List Argument} {missing : Argument} {e : ParseError}

/-- The first required argument without a value, behind those that are settled. -/
structure Misses (kwargs : Kwargs) (arguments settled : List Argument) (missing : Argument)
    (unsettled : List Argument) : Prop where
  order : arguments = settled ++ missing :: unsettled
  required : missing.header.required = true
  unsatisfied : missing.isSatisfied kwargs = false
  first : ∀ a ∈ settled, a.header.required = true → a.isSatisfied kwargs = true

theorem Misses.congr (misses : Misses kwargs arguments settled missing unsettled)
    (same : ∀ a ∈ arguments, a.isSatisfied kwargs' = a.isSatisfied kwargs) :
    Misses kwargs' arguments settled missing unsettled := by
  obtain ⟨rfl, required, unsatisfied, first⟩ := misses
  refine ⟨rfl, required, ?_, fun a member needed => ?_⟩
  · rw [same missing (by simp), unsatisfied]
  · rw [same a (by simp [member]), first a member needed]

theorem isSatisfied_fill_of_disjoint {a : Argument} {leaves : List Leaf}
    (apart : ∀ n ∈ a.storedNames, n ∉ leaves.map Leaf.name) :
    a.isSatisfied (kwargs.fill leaves) = a.isSatisfied kwargs :=
  Argument.isSatisfied_congr fun n own => Kwargs.get?_fill_of_notMem (apart n own)

theorem isSatisfied_fill_of_satisfied {a : Argument} {leaves : List Leaf}
    (satisfied : a.isSatisfied kwargs = true) : a.isSatisfied (kwargs.fill leaves) = true := by
  obtain ⟨n, own, present⟩ := Argument.isSatisfied_iff.mp satisfied
  exact Argument.isSatisfied_iff.mpr ⟨n, own, Kwargs.contains_fill.mpr (.inl present)⟩

/-- Defaults go to the arguments before the missing one, and none of them counts as its value. -/
theorem settle_misses (distinct : (namesIn arguments).Nodup)
    (failed : settle tagname kwargs arguments = (kwargs', some e)) :
    ∃ settled missing unsettled, Misses kwargs arguments settled missing unsettled ∧
      Misses kwargs' arguments settled missing unsettled ∧
      e = .argumentRequired tagname missing.name ∧ kwargs' = kwargs.fill (leavesIn settled) := by
  induction arguments generalizing kwargs with
  | nil => cases failed
  | cons a rest ih =>
    rw [Argument.namesIn_cons] at distinct
    obtain ⟨_, distinct', apart⟩ := List.nodup_append.mp distinct
    rw [settle] at failed
    split at failed
    · rename_i missing
      cases failed
      rw [Bool.and_eq_true, Bool.not_eq_true'] at missing
      have misses : Misses kwargs' (a :: rest) [] a rest :=
        ⟨rfl, missing.1, missing.2, fun _ absent => absurd absent List.not_mem_nil⟩
      exact ⟨[], a, rest, misses, misses, rfl, rfl⟩
    · rename_i allowed
      obtain ⟨settled, missing, unsettled, before, after, rfl, rfl⟩ := ih distinct' failed
      have satisfied : a.header.required = true → a.isSatisfied kwargs = true := by
        intro required
        simpa [required] using allowed
      have before' : Misses kwargs rest settled missing unsettled := by
        refine before.congr fun b member => (isSatisfied_fill_of_disjoint ?_).symm
        intro n own here
        exact apart n here n (Argument.mem_namesIn.mpr ⟨b, member, own⟩) rfl
      refine ⟨a :: settled, missing, unsettled, ?_, ?_, rfl, ?_⟩
      · refine ⟨congrArg (a :: ·) before'.order, before'.required, before'.unsatisfied, ?_⟩
        exact List.forall_mem_cons.mpr ⟨satisfied, before'.first⟩
      · refine ⟨congrArg (a :: ·) after.order, after.required, after.unsatisfied, ?_⟩
        refine List.forall_mem_cons.mpr ⟨fun required => ?_, after.first⟩
        exact isSatisfied_fill_of_satisfied (isSatisfied_fill_of_satisfied (satisfied required))
      · rw [leavesIn, Kwargs.fill_append]
        rfl

/-- A breakpoint stops at a scope that it cannot close, short of the one that it names: it leaves the
cursor there, and of what it did on the way only defaults are left. -/
structure Breaks (g : Grammar) (word : String) (s t : ParseState) (settled : List Argument)
    (missing : Argument) (unsettled : List Argument) : Prop where
  forward : s.cursor.index ≤ t.cursor.index
  short : ∀ k, s.cursor.index < k → g.opener k = some word → t.cursor.index < k
  stands : t.cursor.At g
  before : Misses s.kwargs (g.scopeArguments t.cursor.index) settled missing unsettled
  after : Misses t.kwargs (g.scopeArguments t.cursor.index) settled missing unsettled
  filled : t.kwargs = s.kwargs.fill
    (leavesIn (g.argumentsBetween s.cursor.index t.cursor.index ++ settled))
  unmoved : t.cursor.index = s.cursor.index → t.current = s.current ∧ t.waiting = s.waiting
  moved : s.cursor.index < t.cursor.index →
    t.current = none ∧ t.waiting = g.scopeArguments t.cursor.index

theorem handleNextBreakpoint_breaks (position : s.cursor.At o.grammar)
    (failed : s.handleNextBreakpoint = .failed e t) :
    ∃ settled missing unsettled, e = .argumentRequired s.tagname missing.name ∧
      Breaks o.grammar word s t settled missing unsettled := by
  have here := position.arguments
  have distinct : (namesIn s.cursor.arguments).Nodup := here ▸ Options.nodup_scope _
  unfold handleNextBreakpoint checkRequired at failed
  split at failed
  · cases failed
  · rename_i kwargs e' stopped
    cases failed
    obtain ⟨settled, missing, unsettled, before, after, rfl, rfl⟩ := settle_misses distinct stopped
    rw [here] at before after
    refine ⟨settled, missing, unsettled, rfl, ?_⟩
    constructor
    · exact Nat.le_refl _
    · exact fun k ahead _ => ahead
    · exact position
    · exact before
    · exact after
    · rw [Grammar.argumentsBetween_self]
      rfl
    · exact fun _ => ⟨rfl, rfl⟩
    · exact fun moved => absurd moved (Nat.lt_irrefl _)

/-- The scope that is closed on the way has no part in what is missing behind it. -/
theorem Breaks.of_entered {u : ParseState} {scope : Scope} {rest : List Scope}
    (position : s.cursor.At o.grammar) (left : s.cursor.ahead = scope :: rest)
    (next : s.cursor.next? ≠ some word) (handled : s.handleNextBreakpoint = .done u)
    (breaks : Breaks o.grammar word u t settled missing unsettled) :
    Breaks o.grammar word s t settled missing unsettled := by
  have entered := handleNextBreakpoint_done handled
  have index : u.cursor.index = s.cursor.index + 1 := by
    rw [handleNextBreakpoint_cursor handled, Cursor.shift_cons left]
  have closed : u.kwargs = s.kwargs.fill (leavesIn (o.grammar.scopeArguments s.cursor.index)) := by
    rw [entered, ← position.arguments]
    rfl
  have forward := breaks.forward
  have behind : s.cursor.index < t.cursor.index := by omega
  constructor
  · exact Nat.le_of_lt behind
  · intro k ahead named
    rcases Nat.lt_or_ge u.cursor.index k with later | here
    · exact breaks.short k later named
    · have same : k = s.cursor.index + 1 := by omega
      subst same
      refine absurd ?_ next
      rw [Cursor.next?, position.remaining, List.head?_drop]
      exact named
  · exact breaks.stands
  · refine breaks.before.congr fun a member => ?_
    rw [closed]
    refine (isSatisfied_fill_of_disjoint fun n own => ?_).symm
    rw [← Argument.namesIn_eq_map]
    have different : t.cursor.index ≠ s.cursor.index := Nat.ne_of_gt behind
    exact Options.scope_names_disjoint different (Argument.mem_namesIn.mpr ⟨a, member, own⟩)
  · exact breaks.after
  · rw [breaks.filled, closed, ← Kwargs.fill_append, index, Grammar.argumentsBetween_of_lt behind]
    simp only [Argument.leavesIn_eq_flatMap, List.flatMap_append, List.append_assoc]
  · exact fun same => absurd same (Nat.ne_of_gt behind)
  · intro _
    rcases Nat.eq_or_lt_of_le forward with same | later
    · obtain ⟨current, waiting⟩ := breaks.unmoved same.symm
      have reached : u.cursor.At o.grammar := handleNextBreakpoint_cursor handled ▸ position.shift
      rw [current, waiting, ← same, ← reached.arguments, entered]
      exact ⟨rfl, rfl⟩
    · exact breaks.moved later

theorem handleBit_breaks (position : s.cursor.At o.grammar) (expected : word ∈ s.cursor.remaining)
    (failed : s.handleBit word = .failed e t) :
    ∃ settled missing unsettled, e = .argumentRequired s.tagname missing.name ∧
      Breaks o.grammar word s t settled missing unsettled := by
  generalize left : s.cursor.ahead = ahead
  induction ahead generalizing s with
  | nil => simp [Cursor.remaining, left] at expected
  | cons scope rest ih =>
    by_cases next : s.cursor.next? = some word
    · rw [handleBit_of_next next] at failed
      exact handleNextBreakpoint_breaks position failed
    by_cases opened : s.cursor.breakpoint = some word
    · rw [handleBit_of_later expected next, handleBreakpoints, closeUntil_of_opened _ opened] at failed
      cases failed
    rw [handleBit_skipping expected next opened] at failed
    cases handled : s.handleNextBreakpoint with
    | failed e' u =>
      rw [handled] at failed
      cases failed
      exact handleNextBreakpoint_breaks position handled
    | done u =>
      rw [handled, Step.andThen_done] at failed
      have moved := handleNextBreakpoint_cursor handled
      have inside : word ∈ u.cursor.remaining := by
        rw [moved]
        exact Cursor.mem_remaining_shift expected next
      have ahead : u.cursor.ahead = rest := by rw [moved, Cursor.shift_cons left]
      have tagname : u.tagname = s.tagname := by
        rw [handleNextBreakpoint_done handled]
        rfl
      obtain ⟨settled, missing, unsettled, rfl, breaks⟩ :=
        ih (moved ▸ position.shift) inside failed ahead
      rw [tagname]
      exact ⟨settled, missing, unsettled, rfl, breaks.of_entered position left next handled⟩

/-- A breakpoint that fails in any state that some actions lead to says which argument is the first
that misses a value where it stopped. It has changed nothing but the defaults it put, on the way and
before that argument, under names without a value. -/
theorem breaks_at_missing (o : Options) (tagname : String) (actions : List Action) (word : String)
    (e : ParseError) (t : ParseState) :
    let s := (start o.grammar tagname).play actions
    word ∈ s.cursor.remaining → s.handleBit word = .failed e t →
      ∃ settled missing unsettled, e = .argumentRequired tagname missing.name ∧
        Breaks o.grammar word s t settled missing unsettled ∧
        Kwargs.DefaultsAdded
          (leavesIn (o.grammar.argumentsBetween s.cursor.index t.cursor.index ++ settled))
          s.kwargs t.kwargs := by
  intro s expected failed
  have coherent : Coherent o s := .play o tagname actions
  have named : s.tagname = tagname := Moves.tagname (play_moves _ actions)
  obtain ⟨settled, missing, unsettled, rfl, breaks⟩ :=
    handleBit_breaks coherent.cursor expected failed
  refine ⟨settled, missing, unsettled, by rw [named], breaks, ?_⟩
  rw [breaks.filled]
  apply Kwargs.defaultsAdded_fill
  intro l member
  rw [Argument.leavesIn_eq_flatMap] at member ⊢
  obtain ⟨a, inside, below⟩ := List.mem_flatMap.mp member
  refine List.mem_flatMap.mpr ⟨a, ?_, below⟩
  rcases List.mem_append.mp inside with between | here
  · exact Grammar.argumentsBetween_subset between
  · apply Grammar.mem_arguments_of_mem
    rw [breaks.before.order]
    exact List.mem_append_left _ here

/-- Two scopes are closed before the one that misses its name. -/
theorem breaks_at_name :
    let o : Options := ⟨⟨[.leaf ⟨.ofName "item", .single .string⟩],
      [⟨"in", [.leaf ⟨⟨"style", none, false, true, []⟩, .single .string⟩]⟩,
        ⟨"as", [.leaf ⟨.ofName "name", .single .string⟩]⟩,
        ⟨"with", []⟩], []⟩, .breakpoints, by decide⟩
    let s := (start o.grammar "tag").play [.bit "a"]
    "with" ∈ s.cursor.remaining ∧
      ∃ t settled missing unsettled, s.handleBit "with" = .failed (.argumentRequired "tag" "name") t ∧
        missing.name = "name" ∧ Breaks o.grammar "with" s t settled missing unsettled := by
  intro o s
  have expected : "with" ∈ s.cursor.remaining := by decide
  obtain ⟨settled, missing, unsettled, same, breaks, _⟩ :=
    breaks_at_missing o "tag" [.bit "a"] "with" _ _ expected rfl
  exact ⟨expected, _, settled, missing, unsettled, rfl,
    (ParseError.argumentRequired.inj same).2.symm, breaks⟩

end ParseState

end TagGrammar
