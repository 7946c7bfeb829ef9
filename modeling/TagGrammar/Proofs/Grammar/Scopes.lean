import Mathlib.Data.List.Nodup
import Mathlib.Data.List.Pairwise
import TagGrammar.Grammar.Cursor
import TagGrammar.Options.Basic
import TagGrammar.Proofs.Argument.Locality

namespace TagGrammar

namespace Argument

def namesIn (arguments : List Argument) : List String := arguments.flatMap storedNames

theorem namesIn_cons (a : Argument) (rest : List Argument) :
    namesIn (a :: rest) = a.storedNames ++ namesIn rest := List.flatMap_cons

theorem mem_namesIn {n : String} {arguments : List Argument} :
    n ∈ namesIn arguments ↔ ∃ a ∈ arguments, n ∈ a.storedNames := List.mem_flatMap

theorem mem_namesIn_iff_leaf {n : String} {arguments : List Argument} :
    n ∈ namesIn arguments ↔ ∃ l ∈ leavesIn arguments, l.name = n := by
  simp only [mem_namesIn, leavesIn_eq_flatMap, storedNames, List.mem_map, List.mem_flatMap]
  constructor
  · intro given
    obtain ⟨a, member, l, below, rfl⟩ := given
    exact ⟨l, ⟨a, member, below⟩, rfl⟩
  · intro given
    obtain ⟨l, ⟨a, member, below⟩, rfl⟩ := given
    exact ⟨a, member, l, below, rfl⟩

theorem namesIn_eq_map (arguments : List Argument) :
    namesIn arguments = (leavesIn arguments).map Leaf.name := by
  rw [leavesIn_eq_flatMap, List.map_flatMap]
  rfl

theorem namesIn_flatten (scopes : List (List Argument)) :
    namesIn scopes.flatten = (scopes.map namesIn).flatten := by
  induction scopes with
  | nil => rfl
  | cons arguments rest ih =>
    rw [List.flatten_cons, List.map_cons, List.flatten_cons, ← ih]
    exact List.flatMap_append

theorem eq_of_shared_name {a b : Argument} {arguments : List Argument}
    (distinct : (namesIn arguments).Nodup) (first : a ∈ arguments) (second : b ∈ arguments)
    {n : String} (own : n ∈ a.storedNames) (own' : n ∈ b.storedNames) :
    a = b := by
  by_contra different
  obtain ⟨_, apart⟩ := List.nodup_flatMap.mp distinct
  have symmetric : Std.Symm (Function.onFun List.Disjoint storedNames) :=
    ⟨fun _ _ disjoint _ left right => disjoint right left⟩
  exact apart.forall first second different own own'

end Argument

namespace Grammar

open Argument (namesIn leavesIn)

variable {g : Grammar}

/-- The arguments of each scope, the leading one first. -/
def scopes (g : Grammar) : List (List Argument) := g.leading :: g.later.map Scope.arguments

def scopeArguments (g : Grammar) (k : Nat) : List Argument := (g.scopes[k]?).getD []

/-- The breakpoint that opens a scope; the leading one has none. -/
def opener (g : Grammar) : Nat → Option String
  | 0 => none
  | k + 1 => g.breakpoints[k]?

theorem scopeArguments_succ {k : Nat} {s : Scope} {rest : List Scope}
    (ahead : g.later.drop k = s :: rest) : g.scopeArguments (k + 1) = s.arguments := by
  have here : g.later[k]? = some s := by rw [← List.head?_drop, ahead, List.head?_cons]
  simp [scopeArguments, scopes, here]

theorem arguments_eq_flatten (g : Grammar) : g.arguments = g.scopes.flatten := by
  simp [arguments, scopes, List.flatMap]

theorem mem_arguments_iff {a : Argument} :
    a ∈ g.arguments ↔ ∃ k ≤ g.later.length, a ∈ g.scopeArguments k := by
  rw [arguments_eq_flatten, List.mem_flatten]
  constructor
  · intro given
    obtain ⟨arguments, member, inside⟩ := given
    obtain ⟨k, bound, rfl⟩ := List.mem_iff_getElem.mp member
    refine ⟨k, ?_, ?_⟩
    · simp only [scopes, List.length_cons, List.length_map] at bound
      omega
    · rw [scopeArguments, List.getElem?_eq_getElem bound]
      exact inside
  · intro given
    obtain ⟨k, bound, inside⟩ := given
    have bound' : k < g.scopes.length := by
      simp only [scopes, List.length_cons, List.length_map]
      omega
    rw [scopeArguments, List.getElem?_eq_getElem bound'] at inside
    exact ⟨_, List.getElem_mem bound', inside⟩

theorem mem_arguments_of_mem {a : Argument} {k : Nat} (member : a ∈ g.scopeArguments k) :
    a ∈ g.arguments := by
  rw [scopeArguments] at member
  cases found : g.scopes[k]? with
  | none => simp [found] at member
  | some arguments =>
    rw [found] at member
    rw [arguments_eq_flatten]
    exact List.mem_flatten_of_mem (List.mem_of_getElem? found) member

theorem mem_leavesIn_arguments {l : Leaf} :
    l ∈ leavesIn g.arguments ↔ ∃ k ≤ g.later.length, l ∈ leavesIn (g.scopeArguments k) := by
  simp only [Argument.leavesIn_eq_flatMap, List.mem_flatMap, mem_arguments_iff]
  constructor
  · intro given
    obtain ⟨a, ⟨k, bound, member⟩, below⟩ := given
    exact ⟨k, bound, a, member, below⟩
  · intro given
    obtain ⟨k, bound, a, member, below⟩ := given
    exact ⟨a, ⟨k, bound, member⟩, below⟩

theorem mem_namesIn_arguments {n : String} :
    n ∈ namesIn g.arguments ↔ ∃ k ≤ g.later.length, n ∈ namesIn (g.scopeArguments k) := by
  simp only [Argument.mem_namesIn_iff_leaf, mem_leavesIn_arguments]
  constructor
  · intro given
    obtain ⟨l, ⟨k, bound, member⟩, own⟩ := given
    exact ⟨k, bound, l, member, own⟩
  · intro given
    obtain ⟨k, bound, l, member, own⟩ := given
    exact ⟨l, ⟨k, bound, member⟩, own⟩

theorem firstRepeated?_eq_none_iff {seen names : List String} :
    firstRepeated? seen names = none ↔ names.Nodup ∧ ∀ n ∈ names, n ∉ seen := by
  induction names generalizing seen with
  | nil => simp [firstRepeated?]
  | cons n rest ih =>
    rw [firstRepeated?, List.nodup_cons, List.forall_mem_cons]
    by_cases repeated : n ∈ seen
    · rw [if_pos (List.contains_iff_mem.mpr repeated)]
      exact ⟨fun unrepeated => (nomatch unrepeated), fun fresh => absurd repeated fresh.2.1⟩
    · rw [if_neg fun present => repeated (List.contains_iff_mem.mp present), ih]
      constructor
      · intro given
        obtain ⟨distinct, unseen⟩ := given
        refine ⟨⟨fun again => unseen n again List.mem_cons_self, distinct⟩, repeated, ?_⟩
        exact fun m member earlier => unseen m member (List.mem_cons_of_mem n earlier)
      · intro given
        obtain ⟨⟨once, distinct⟩, _, unseen⟩ := given
        refine ⟨distinct, fun m member earlier => ?_⟩
        rcases List.mem_cons.mp earlier with rfl | earlier
        · exact once member
        · exact unseen m member earlier

theorem argumentDefect?_eq_none_iff {seen : List String} {arguments : List Argument} :
    argumentDefect? seen arguments = none ↔
      (∀ a ∈ arguments, a.defect? = none) ∧ (namesIn arguments).Nodup ∧
        ∀ n ∈ namesIn arguments, n ∉ seen := by
  induction arguments generalizing seen with
  | nil => simp [argumentDefect?, namesIn]
  | cons a rest ih =>
    rw [argumentDefect?, List.forall_mem_cons, Argument.namesIn_cons, List.nodup_append]
    cases own : a.defect? with
    | some e => simp
    | none =>
      dsimp only
      cases repeated : firstRepeated? seen a.storedNames with
      | some n =>
        refine ⟨fun sound => (nomatch sound), fun ⟨_, ⟨distinct, _⟩, unseen⟩ => ?_⟩
        have fresh : firstRepeated? seen a.storedNames = none :=
          firstRepeated?_eq_none_iff.mpr
            ⟨distinct, fun m member => unseen m (List.mem_append_left _ member)⟩
        rw [repeated] at fresh
        cases fresh
      | none =>
        obtain ⟨distinct, unseen⟩ := firstRepeated?_eq_none_iff.mp repeated
        rw [ih]
        constructor
        · intro given
          obtain ⟨usable, distinct', unseen'⟩ := given
          refine ⟨⟨rfl, usable⟩, ⟨distinct, distinct', ?_⟩, ?_⟩
          · rintro n own _ later rfl
            exact unseen' n later (List.mem_append_left _ (List.mem_reverse.mpr own))
          · intro n member
            rcases List.mem_append.mp member with own | later
            · exact unseen n own
            · exact fun earlier => unseen' n later (List.mem_append_right _ earlier)
        · intro given
          obtain ⟨⟨_, usable⟩, ⟨_, distinct', apart⟩, unseen'⟩ := given
          refine ⟨usable, distinct', fun n later earlier => ?_⟩
          rcases List.mem_append.mp earlier with own | earlier
          · exact apart n (List.mem_reverse.mp own) n later rfl
          · exact unseen' n (List.mem_append_right _ later) earlier

end Grammar

namespace Options

open Argument (namesIn leavesIn)

variable (o : Options)

theorem argumentDefect?_eq_none : Grammar.argumentDefect? [] o.grammar.arguments = none := by
  have usable := o.usable
  unfold Grammar.defect? at usable
  cases first : Grammar.argumentDefect? [] o.grammar.arguments with
  | none => rfl
  | some e =>
    rw [first] at usable
    cases usable

theorem nodup_storedNames : (namesIn o.grammar.arguments).Nodup :=
  (Grammar.argumentDefect?_eq_none_iff.mp o.argumentDefect?_eq_none).2.1

variable {o}

theorem nodup_identifiers : (o.grammar.blocks.map BlockSpec.identifier).Nodup := by
  have usable := o.usable
  unfold Grammar.defect? at usable
  rw [o.argumentDefect?_eq_none, Option.orElse_eq_orElse, Option.orElse_none,
    Option.map_eq_none_iff] at usable
  exact (Grammar.firstRepeated?_eq_none_iff.mp usable).1

theorem leaf_unique {l l' : Leaf} (member : l ∈ leavesIn o.grammar.arguments)
    (member' : l' ∈ leavesIn o.grammar.arguments) (same : l.name = l'.name) : l = l' := by
  have distinct := o.nodup_storedNames
  rw [Argument.namesIn_eq_map] at distinct
  exact List.inj_on_of_nodup_map distinct member member' same

theorem nodup_scopes : (o.grammar.scopes.map namesIn).flatten.Nodup := by
  have distinct := o.nodup_storedNames
  rwa [Grammar.arguments_eq_flatten, Argument.namesIn_flatten] at distinct

theorem nodup_scope (k : Nat) : (namesIn (o.grammar.scopeArguments k)).Nodup := by
  have distinct := (List.nodup_flatten.mp (nodup_scopes (o := o))).1
  rw [Grammar.scopeArguments]
  cases found : o.grammar.scopes[k]? with
  | none => exact List.nodup_nil
  | some arguments =>
    exact distinct _ (List.mem_map.mpr ⟨arguments, List.mem_of_getElem? found, rfl⟩)

theorem scope_names_disjoint {j k : Nat} (different : j ≠ k) {n : String}
    (left : n ∈ namesIn (o.grammar.scopeArguments j)) :
    n ∉ namesIn (o.grammar.scopeArguments k) := by
  have disjoint := (List.nodup_flatten.mp (nodup_scopes (o := o))).2
  have apart : ∀ i i', i < i' → n ∈ namesIn (o.grammar.scopeArguments i) →
      n ∉ namesIn (o.grammar.scopeArguments i') := by
    intro i i' less first second
    rw [Grammar.scopeArguments] at first second
    cases found : o.grammar.scopes[i]? with
    | none => simp [found, namesIn] at first
    | some arguments =>
      cases found' : o.grammar.scopes[i']? with
      | none => simp [found', namesIn] at second
      | some arguments' =>
        rw [found] at first
        rw [found'] at second
        obtain ⟨bound, rfl⟩ := List.getElem?_eq_some_iff.mp found
        obtain ⟨bound', rfl⟩ := List.getElem?_eq_some_iff.mp found'
        have clash := List.pairwise_iff_getElem.mp disjoint i i' (by simpa using bound)
          (by simpa using bound') less
        simp only [List.getElem_map] at clash
        exact clash first second
  rcases Nat.lt_or_gt_of_ne different with less | greater
  · exact apart j k less left
  · exact fun right => apart k j greater right left

/-- One scope with its arguments, as all there is. -/
def scope (o : Options) (k : Nat) : Options where
  grammar := ⟨o.grammar.scopeArguments k, [], []⟩
  parser := .breakpoints
  usable := by
    have sound : Grammar.argumentDefect? [] (o.grammar.scopeArguments k) = none := by
      refine Grammar.argumentDefect?_eq_none_iff.mpr ⟨?_, nodup_scope k, fun _ _ => List.not_mem_nil⟩
      intro a member
      have usable := (Grammar.argumentDefect?_eq_none_iff.mp o.argumentDefect?_eq_none).1
      exact usable a (Grammar.mem_arguments_of_mem member)
    simp [Grammar.defect?, Grammar.arguments, sound, Grammar.firstRepeated?]

end Options

/-- The cursor stands at the scope that its index says. -/
structure Cursor.At (g : Grammar) (c : Cursor) : Prop where
  bound : c.index ≤ g.later.length
  ahead : c.ahead = g.later.drop c.index
  arguments : c.arguments = g.scopeArguments c.index
  breakpoint : c.breakpoint = g.opener c.index

namespace Cursor

variable {g : Grammar} {c : Cursor}

theorem At.start (g : Grammar) : (Cursor.start g).At g := ⟨Nat.zero_le _, rfl, rfl, rfl⟩

theorem At.remaining (position : c.At g) : c.remaining = g.breakpoints.drop c.index := by
  rw [Cursor.remaining, position.ahead, List.map_drop]
  rfl

theorem At.index_of_ahead_nil (position : c.At g) (last : c.ahead = []) :
    c.index = g.later.length := by
  have none_left := position.ahead
  rw [last] at none_left
  have := List.drop_eq_nil_iff.mp none_left.symm
  have := position.bound
  omega

theorem shift_cons {s : Scope} {rest : List Scope} (ahead : c.ahead = s :: rest) :
    c.shift = ⟨c.index + 1, some s.breakpoint, s.arguments, rest⟩ := by
  unfold shift
  rw [ahead]

theorem At.shift (position : c.At g) : c.shift.At g := by
  cases ahead : c.ahead with
  | nil => rwa [shift_nil ahead]
  | cons s rest =>
    rw [shift_cons ahead]
    have here := position.ahead
    rw [ahead] at here
    have nonempty : c.index < g.later.length := by
      have := congrArg List.length here
      simp only [List.length_cons, List.length_drop] at this
      omega
    have opening : g.later[c.index]? = some s := by
      rw [← List.head?_drop, ← here, List.head?_cons]
    constructor
    · exact nonempty
    · have := congrArg List.tail here
      simpa using this
    · exact (Grammar.scopeArguments_succ here.symm).symm
    · simp [Grammar.opener, Grammar.breakpoints, opening]

theorem index_shift_le (c : Cursor) : c.index ≤ c.shift.index := by
  unfold Cursor.shift
  split
  · exact Nat.le_refl _
  · exact Nat.le_succ _

theorem index_shift_le_succ (c : Cursor) : c.shift.index ≤ c.index + 1 := by
  unfold Cursor.shift
  split
  · exact Nat.le_succ _
  · exact Nat.le_refl _

end Cursor

end TagGrammar
