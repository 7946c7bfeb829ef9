import TagGrammar.Proofs.Parse.Captured
import TagGrammar.Proofs.Tag.Arguments
import TagGrammar.Proofs.Value.Modes

namespace TagGrammar

open Argument (leavesIn)

variable {left right : String → Option Json} {mode : ErrorMode} {path : String}

def Variable.reads : Variable → List String
  | .literal _ => []
  | .lookup path => [path]

theorem Variable.resolve_congr {token : Variable} (same : ∀ path ∈ token.reads, left path = right path) :
    token.resolve left = token.resolve right := by
  cases token with
  | literal value => rfl
  | lookup path => exact same path (List.mem_singleton.mpr rfl)

theorem Variable.mem_reads_ofToken {token : String} (read : path ∈ (ofToken token).reads) :
    path = token ∧ ofToken token = .lookup token := by
  unfold ofToken at read ⊢
  split at read
  · cases read
  · exact ⟨List.mem_singleton.mp read, rfl⟩

namespace Value

mutual

/-- The paths that are looked up when the value is resolved. -/
def reads : Value → List String
  | .fixed _ => []
  | .constant _ _ => []
  | .resolving _ token => token.reads
  | .list items _ => readsIn items
  | .dict entries => readsOf entries

def readsIn : List Value → List String
  | [] => []
  | v :: rest => reads v ++ readsIn rest

def readsOf : List (String × Value) → List String
  | [] => []
  | (_, v) :: rest => reads v ++ readsOf rest

end

theorem readsIn_eq_flatMap (items : List Value) : readsIn items = items.flatMap reads := by
  induction items with
  | nil => rfl
  | cons v rest ih => rw [readsIn, ih, List.flatMap_cons]

theorem readsOf_eq_flatMap (entries : List (String × Value)) :
    readsOf entries = entries.flatMap (·.2.reads) := by
  induction entries with
  | nil => rfl
  | cons e rest ih => rw [readsOf, ih, List.flatMap_cons]

theorem resolveItems_congr {items : List Value}
    (each : ∀ v ∈ items, v.resolve left mode = v.resolve right mode) :
    resolveItems left mode items = resolveItems right mode items := by
  induction items with
  | nil => rfl
  | cons v rest ih =>
    rw [List.forall_mem_cons] at each
    rw [resolveItems, resolveItems, each.1, ih each.2]

theorem resolveEntries_congr {entries : List (String × Value)}
    (each : ∀ e ∈ entries, e.2.resolve left mode = e.2.resolve right mode) :
    resolveEntries left mode entries = resolveEntries right mode entries := by
  rw [resolveEntries_eq, resolveEntries_eq, resolveItems_congr (List.forall_mem_map.mpr each)]

/-- Resolving consults nothing but the paths that the value reads. -/
theorem resolve_congr {v : Value} (same : ∀ path ∈ v.reads, left path = right path) :
    v.resolve left mode = v.resolve right mode := by
  induction v using induction with
  | fixed value => rfl
  | constant kind value => rfl
  | resolving kind token =>
    rw [reads] at same
    rw [resolve, resolve, Variable.resolve_congr same]
  | list items sequence ih =>
    rw [reads, readsIn_eq_flatMap] at same
    rw [resolve, resolve, resolveItems_congr]
    intro v member
    exact ih v member fun path read => same path (List.mem_flatMap.mpr ⟨v, member, read⟩)
  | dict entries ih =>
    rw [reads, readsOf_eq_flatMap] at same
    rw [resolve, resolve, resolveEntries_congr]
    intro e member
    exact ih e member fun path read => same path (List.mem_flatMap.mpr ⟨e, member, read⟩)

end Value

/-- The text is looked up where an argument with this header captures it: it is not quoted and no
literal. -/
structure Header.Reads (h : Header) (text : String) : Prop where
  resolves : h.resolve = true
  bare : Bit.unquote? text = none
  named : Variable.ofToken text = .lookup text

theorem Header.mem_reads_capture {h : Header} {kind : ValueKind} {bit : String}
    (read : path ∈ (h.capture kind bit).reads) : path = bit ∧ h.Reads bit := by
  unfold capture at read
  split at read
  · cases read
  · rename_i bare
    split at read
    · rename_i resolves
      rw [Value.reads] at read
      obtain ⟨rfl, named⟩ := Variable.mem_reads_ofToken read
      exact ⟨rfl, resolves, bare, named⟩
    · cases read

/-- What is not looked up has one value, whatever the context. -/
theorem Header.resolve_capture_congr {h : Header} {bit : String} (unread : ¬h.Reads bit)
    (kind : ValueKind) :
    (h.capture kind bit).resolve left mode = (h.capture kind bit).resolve right mode :=
  Value.resolve_congr fun _ read => absurd (mem_reads_capture read).2 unread

namespace Leaf

variable {l : Leaf} {captured : List String} {v : Value}

/-- The paths that the argument looks up for the bits that it captured: a bit itself, or what follows
the first sign of a keyword bit. A flag looks up nothing. -/
def Reads (l : Leaf) (captured : List String) (path : String) : Prop :=
  l.header.Reads path ∧
    match l.kind with
    | .single _ => path ∈ captured
    | .multi _ _ _ => path ∈ captured
    | .keyword _ _ => ∃ key, Bit.isIdentifier key.toList = true ∧ key ++ "=" ++ path ∈ captured
    | .flag _ => False

theorem reads_defaultValue (l : Leaf) : l.defaultValue.reads = [] := by
  unfold defaultValue
  split <;> rfl

theorem Holds.reads (holds : l.Holds captured v) (read : path ∈ v.reads) : l.Reads captured path := by
  cases holds with
  | default =>
    rw [reads_defaultValue] at read
    cases read
  | single bit shape =>
    obtain ⟨rfl, own⟩ := Header.mem_reads_capture read
    rw [Reads, shape]
    exact ⟨own, List.mem_singleton.mpr rfl⟩
  | multi shape _ _ =>
    rw [Value.reads, Value.readsIn_eq_flatMap, List.flatMap_map, List.mem_flatMap] at read
    obtain ⟨bit, member, read⟩ := read
    obtain ⟨rfl, own⟩ := Header.mem_reads_capture read
    rw [Reads, shape]
    exact ⟨own, member⟩
  | keyword shape _ _ identifiers _ =>
    rw [Value.reads, Value.readsOf_eq_flatMap, List.flatMap_map, List.mem_flatMap] at read
    obtain ⟨p, member, read⟩ := read
    obtain ⟨rfl, own⟩ := Header.mem_reads_capture read
    rw [Reads, shape]
    exact ⟨own, p.1, identifiers p member, List.mem_map.mpr ⟨p, member, rfl⟩⟩
  | flag bit shape reading => cases read

end Leaf

namespace Kwargs

/-- Of a context, a parse that ended reads for each argument what the argument captured unquoted, to be
resolved and as no literal. Two contexts that agree there, whatever else they hold, give the argument
the same value and warnings in both modes; if they do so for all arguments, all is resolved the same.
Each captured text that is not read, and with it a default or a flag, has one value in all contexts. -/
theorem resolveAll_reads_only (o : Options) (tagname : String) (bits : List String) (t : ParseState)
    (done : Parser.breakpoints bits (.start o.grammar tagname) = .done t) :
    (∀ l ∈ leavesIn o.grammar.arguments, ∃ captured v,
      (∀ log, l.CapturesAll bits (.start o.grammar tagname) log ↔ log = captured) ∧
      t.kwargs.get? l.name = some v ∧ l.Holds captured v ∧
      ∀ left right, (∀ path, l.Reads captured path → left path = right path) →
        ∀ mode, v.resolve left mode = v.resolve right mode) ∧
    (∀ left right, (∀ l ∈ leavesIn o.grammar.arguments, ∀ captured,
        l.CapturesAll bits (.start o.grammar tagname) captured →
        ∀ path, l.Reads captured path → left path = right path) →
      ∀ mode, t.kwargs.resolveAll left mode = t.kwargs.resolveAll right mode) ∧
    ∀ (h : Header) text, ¬h.Reads text → ∀ kind left right mode,
      (h.capture kind text).resolve left mode = (h.capture kind text).resolve right mode := by
  refine ⟨?_, ?_, ?_⟩
  · intro l member
    obtain ⟨captured, v, log, held, holds⟩ := ParseState.exists_captured done member
    refine ⟨captured, v, fun log' => ⟨fun log' => log'.unique log, ?_⟩, held, holds, ?_⟩
    · rintro rfl
      exact log
    · intro left right same mode
      exact Value.resolve_congr fun path read => same path (holds.reads read)
  · intro left right same mode
    have names := ParseState.breakpoints_contains_iff done
    rw [resolveAll, resolveAll, resolveAlong, resolveAlong, Value.resolveEntries_congr]
    intro e inside
    have stored : t.kwargs.get? e.1 = some e.2 := Table.get?In_of_mem t.kwargs.nodup_names inside
    obtain ⟨l, member, own⟩ :=
      Argument.mem_namesIn_iff_leaf.mp ((names e.1).mp (Table.contains_iff.mpr ⟨_, stored⟩))
    obtain ⟨captured, v, log, held, holds⟩ := ParseState.exists_captured done member
    rw [own] at held
    cases stored.symm.trans held
    exact Value.resolve_congr fun path read => same l member captured log path (holds.reads read)
  · intro h text unread kind left right mode
    exact Header.resolve_capture_congr unread kind

theorem resolveAll_reads_size :
    let o : Options := ⟨⟨[.leaf ⟨.ofName "title", .single .string⟩,
      .leaf ⟨.ofName "sizes", .multi .integer none .list⟩], [], []⟩, .breakpoints, by decide⟩
    ∃ t, Parser.breakpoints ["'user'", "3", "user.size"] (.start o.grammar "tag") = .done t ∧
      ∀ left right : String → Option Json, left "user.size" = right "user.size" →
        ∀ mode, t.kwargs.resolveAll left mode = t.kwargs.resolveAll right mode := by
  intro o
  refine ⟨_, rfl, fun left right same => ?_⟩
  refine (resolveAll_reads_only o "tag" ["'user'", "3", "user.size"] _ rfl).2.1 left right ?_
  intro l member captured log path read
  have inside : path ∈ ["'user'", "3", "user.size"] := by
    rcases List.mem_cons.mp member with rfl | member
    · exact log.sublist.subset read.2
    · cases List.mem_singleton.mp member
      exact log.sublist.subset read.2
  have bare := read.1.bare
  have named := read.1.named
  simp only [List.mem_cons, List.not_mem_nil, or_false] at inside
  rcases inside with rfl | rfl | rfl
  · cases bare
  · cases named
  · exact same

end Kwargs

end TagGrammar
