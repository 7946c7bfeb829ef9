import TagGrammar.Proofs.Parse.Captured
import TagGrammar.Proofs.Tag.Arguments
import TagGrammar.Proofs.Value.Modes

namespace TagGrammar

open Argument (leavesIn namesIn)

variable {lookup : String → Option Json} {mode : ErrorMode} {j : Json} {ws : List Warning}

/-- A list written with commas comes apart at each of them, and no part is empty. -/
theorem SequenceKind.clean_commaSeparated (items : List Json) :
    ∃ parts : List String, commaSeparated.clean items = .arr (parts.map .str) ∧
      ∀ part ∈ parts, part ≠ "" ∧ ',' ∉ part.toList := by
  refine ⟨(entries items).map String.ofList, ?_, ?_⟩
  · rw [clean, List.map_map]
    rfl
  · rw [List.forall_mem_map]
    intro part member
    obtain ⟨piece, filled⟩ := List.mem_filter.mp member
    rw [String.toList_ofList]
    refine ⟨?_, Text.notMem_of_mem_pieces piece⟩
    rintro empty
    rw [String.ofList_eq_empty_iff.mp empty] at filled
    cases filled

namespace Value

/-- What the value is resolved to, whatever the warnings are. -/
def ResolvesTo (lookup : String → Option Json) (mode : ErrorMode) (v : Value) (j : Json) : Prop :=
  ∃ ws, v.resolve lookup mode = .ok (j, ws)

theorem resolveItems_forall₂ {items : List Value} {js : List Json}
    (resolved : resolveItems lookup mode items = .ok (js, ws)) :
    List.Forall₂ (ResolvesTo lookup mode) items js := by
  induction items generalizing js ws with
  | nil =>
    cases resolved
    exact .nil
  | cons v rest ih =>
    rw [resolveItems] at resolved
    split at resolved
    · cases resolved
    · rename_i own
      split at resolved
      · cases resolved
      · rename_i later
        cases resolved
        exact .cons ⟨_, own⟩ (ih later)

theorem resolve_list {items : List Value} {sequence : SequenceKind}
    (resolved : (list items sequence).resolve lookup mode = .ok (j, ws)) :
    ∃ js, j = sequence.clean js ∧
      List.Forall₂ (ResolvesTo lookup mode) items js := by
  rw [resolve] at resolved
  split at resolved
  · rename_i each
    cases resolved
    exact ⟨_, rfl, resolveItems_forall₂ each⟩
  · cases resolved

/-- Entries under keys of their own all become members of the object, which has no others. -/
theorem resolve_dict {entries : List (String × Value)} (distinct : (entries.map (·.1)).Nodup)
    (resolved : (dict entries).resolve lookup mode = .ok (j, ws)) :
    ∃ fields : Table Json, j = .obj fields ∧ fields.names.Perm (entries.map (·.1)) ∧
      ∀ e ∈ entries, ∃ value, fields.get? e.1 = some value ∧ ResolvesTo lookup mode e.2 value := by
  rw [resolve] at resolved
  split at resolved
  · rename_i fields _ each
    cases resolved
    have names := resolveEntries_names each
    refine ⟨.ofList fields, rfl, names ▸ Table.names_ofList_perm (by rwa [names]), ?_⟩
    intro e member
    obtain ⟨value, ws', own, found⟩ :=
      get?_ofList_resolveEntries distinct each (Table.get?In_of_mem distinct member)
    exact ⟨value, found, ws', own⟩
  · cases resolved

end Value

/-- A captured bit is resolved by the check of its kind. -/
theorem Header.exists_check (h : Header) (kind : ValueKind) (bit : String)
    (lookup : String → Option Json) :
    ∃ raw constant,
      (∀ mode, (h.capture kind bit).resolve lookup mode = kind.check raw constant mode) ∧
      (h.capture kind bit).faults lookup = (kind.fault? raw constant).toList := by
  unfold Header.capture
  split
  · exact ⟨_, _, fun mode => by rw [Value.resolve], by rw [Value.faults]⟩
  · split
    · exact ⟨_, _, fun mode => by rw [Value.resolve], by rw [Value.faults]⟩
    · exact ⟨_, _, fun mode => by rw [Value.resolve], by rw [Value.faults]⟩

namespace Leaf

variable {l : Leaf} {captured : List String} {v : Value}

/-- The result for one captured bit. Where integers are declared it is one, or null. A bit that is
refused has the fallback, which is empty text, and only in lenient mode. -/
structure Yields (l : Leaf) (lookup : String → Option Json) (mode : ErrorMode) (kind : ValueKind)
    (bit : String) (j : Json) : Prop where
  resolved : (l.header.capture kind bit).ResolvesTo lookup mode j
  integer : kind = .integer → (l.header.capture kind bit).faults lookup = [] →
    j = .null ∨ ∃ n, j = .int n
  refused : (l.header.capture kind bit).faults lookup ≠ [] → mode = .lenient ∧ j = .str ""

/-- The result that an argument without a default declares for the bits it captured. -/
def Shaped (l : Leaf) (lookup : String → Option Json) (mode : ErrorMode) (captured : List String)
    (j : Json) : Prop :=
  match l.kind with
  | .single kind =>
    (captured = [] ∧ j = .null) ∨ ∃ bit, captured = [bit] ∧ l.Yields lookup mode kind bit j
  | .multi item max .list =>
    (∀ m ∈ max, captured.length ≤ m) ∧
      ∃ items, j = .arr items ∧ List.Forall₂ (l.Yields lookup mode item) captured items
  | .multi _ max .commaSeparated =>
    (∀ m ∈ max, captured.length ≤ m) ∧
      ∃ parts : List String, j = .arr (parts.map .str) ∧
        ∀ part ∈ parts, part ≠ "" ∧ ',' ∉ part.toList
  | .keyword item max =>
    (∀ m ∈ max, captured.length ≤ m) ∧
      ∃ (pairs : List (String × String)) (fields : Table Json),
        captured = pairs.map (fun p => p.1 ++ "=" ++ p.2) ∧
        (∀ p ∈ pairs, Bit.isIdentifier p.1.toList = true) ∧
        j = .obj fields ∧ fields.names.Perm (pairs.map (·.1)) ∧
        ∀ p ∈ pairs, ∃ value, fields.get? p.1 = some value ∧ l.Yields lookup mode item p.2 value
  | .flag _ =>
    (captured = [] ∧ j = .null) ∨ ∃ (bit : String) (truth : Bool), captured = [bit] ∧ j = .bool truth

theorem yields_of_resolvesTo {kind : ValueKind} {bit : String}
    (resolved : (l.header.capture kind bit).ResolvesTo lookup mode j) :
    l.Yields lookup mode kind bit j := by
  obtain ⟨raw, constant, check, faults⟩ := l.header.exists_check kind bit lookup
  obtain ⟨ws, done⟩ := resolved
  have checked : kind.check raw constant mode = .ok (j, ws) := (check mode).symm.trans done
  refine ⟨⟨ws, done⟩, ?_, ?_⟩
  · rintro rfl sound
    rw [faults, Option.toList_eq_nil_iff] at sound
    rcases ValueKind.check_ok checked with ⟨_, cleaned⟩ | ⟨faulty, _⟩
    · exact ValueKind.clean_integer cleaned
    · exact absurd sound faulty
  · intro faulty
    rw [faults, ne_eq, Option.toList_eq_nil_iff] at faulty
    rcases ValueKind.check_ok checked with ⟨sound, _⟩ | ⟨_, lenient, fallback⟩
    · exact absurd sound faulty
    · refine ⟨lenient, ?_⟩
      rw [fallback]
      cases kind <;> rfl

theorem shaped_of_list {item : ValueKind} {max : Option Nat} {sequence : SequenceKind}
    (shape : l.kind = .multi item max sequence) (room : ∀ m ∈ max, captured.length ≤ m)
    (resolved : (Value.list (captured.map (l.header.capture item)) sequence).resolve lookup mode =
      .ok (j, ws)) : l.Shaped lookup mode captured j := by
  obtain ⟨js, rfl, each⟩ := Value.resolve_list resolved
  rw [List.forall₂_map_left_iff] at each
  cases sequence with
  | list =>
    rw [Shaped, shape]
    exact ⟨room, js, rfl, each.imp fun _ _ => yields_of_resolvesTo⟩
  | commaSeparated =>
    rw [Shaped, shape]
    exact ⟨room, SequenceKind.clean_commaSeparated js⟩

theorem shaped_of_dict {item : ValueKind} {max : Option Nat} {pairs : List (String × String)}
    (shape : l.kind = .keyword item max) (room : ∀ m ∈ max, pairs.length ≤ m)
    (identifiers : ∀ p ∈ pairs, Bit.isIdentifier p.1.toList = true)
    (distinct : (pairs.map (·.1)).Nodup)
    (resolved : (Value.dict (pairs.map fun p => (p.1, l.header.capture item p.2))).resolve lookup
      mode = .ok (j, ws)) :
    l.Shaped lookup mode (pairs.map fun p => p.1 ++ "=" ++ p.2) j := by
  have keys : (pairs.map fun p => (p.1, l.header.capture item p.2)).map (·.1) = pairs.map (·.1) := by
    rw [List.map_map]
    rfl
  obtain ⟨fields, rfl, names, members⟩ := Value.resolve_dict (keys ▸ distinct) resolved
  rw [Shaped, shape]
  refine ⟨by simpa using room, pairs, fields, rfl, identifiers, rfl, keys ▸ names, ?_⟩
  intro p member
  obtain ⟨value, found, own⟩ := members _ (List.mem_map_of_mem member)
  exact ⟨value, found, yields_of_resolvesTo own⟩

/-- A default that is not declared has the shape for no bit at all. -/
theorem shaped_default (undeclared : l.header.default = none)
    (resolved : l.defaultValue.resolve lookup mode = .ok (j, ws)) : l.Shaped lookup mode [] j := by
  rw [defaultValue, undeclared] at resolved
  cases shape : l.kind with
  | single kind =>
    rw [shape] at resolved
    cases resolved
    rw [Shaped, shape]
    exact .inl ⟨rfl, rfl⟩
  | multi item max sequence =>
    rw [shape] at resolved
    exact shaped_of_list shape (fun m _ => Nat.zero_le m) resolved
  | keyword item max =>
    rw [shape] at resolved
    have room : ∀ m ∈ max, ([] : List (String × String)).length ≤ m := fun m _ => Nat.zero_le m
    exact shaped_of_dict shape room (List.forall_mem_nil _) .nil resolved
  | flag words =>
    rw [shape] at resolved
    cases resolved
    rw [Shaped, shape]
    exact .inl ⟨rfl, rfl⟩

theorem Holds.shaped (holds : l.Holds captured v) (undeclared : l.header.default = none)
    (resolved : v.resolve lookup mode = .ok (j, ws)) : l.Shaped lookup mode captured j := by
  cases holds with
  | default => exact shaped_default undeclared resolved
  | single bit shape =>
    rw [Shaped, shape]
    exact .inr ⟨bit, rfl, yields_of_resolvesTo ⟨ws, resolved⟩⟩
  | multi shape _ room => exact shaped_of_list shape room resolved
  | keyword shape _ room identifiers distinct =>
    exact shaped_of_dict shape room identifiers distinct resolved
  | flag bit shape reading =>
    rename_i truth
    cases resolved
    rw [Shaped, shape]
    exact .inr ⟨bit, truth, rfl, rfl⟩

end Leaf

/-- What a grammar declares of the arguments that its tag is handed: a value for each of the names, and
for each argument without a default one of its shape for the bits that the argument captured. -/
structure Grammar.Declares (g : Grammar) (tagname : String) (bits : List String)
    (lookup : String → Option Json) (mode : ErrorMode) (arguments : Table Json) : Prop where
  names : ∀ n, arguments.contains n = true ↔ n ∈ namesIn g.arguments
  shapes : ∀ l ∈ leavesIn g.arguments, l.header.default = none → ∃ captured j,
    (∀ log, l.CapturesAll bits (.start g tagname) log ↔ log = captured) ∧
    arguments.get? l.name = some j ∧ l.Shaped lookup mode captured j

namespace Kwargs

theorem exists_resolveAll (kwargs : Kwargs) (lookup : String → Option Json) :
    ∃ arguments ws, kwargs.resolveAll lookup .lenient = .ok (arguments, ws) := by
  obtain ⟨fields, ws, each⟩ := Value.exists_resolveEntries lookup kwargs.entries
  rw [resolveAll, resolveAlong, each]
  exact ⟨_, _, rfl⟩

/-- Where a parse ends, lenient resolving always has arguments for the tag, and whatever arguments
either mode has are as the grammar declares them. -/
theorem resolveAll_declared (o : Options) (tagname : String) (bits : List String) (t : ParseState)
    (done : Parser.breakpoints bits (.start o.grammar tagname) = .done t)
    (lookup : String → Option Json) :
    (∃ arguments ws, t.kwargs.resolveAll lookup .lenient = .ok (arguments, ws)) ∧
    ∀ mode arguments ws, t.kwargs.resolveAll lookup mode = .ok (arguments, ws) →
      o.grammar.Declares tagname bits lookup mode arguments := by
  refine ⟨t.kwargs.exists_resolveAll lookup, ?_⟩
  intro mode arguments ws resolved
  have names := ParseState.breakpoints_contains_iff done
  refine ⟨fun n => by rw [contains_resolveAll resolved, names], ?_⟩
  intro l member undeclared
  obtain ⟨captured, v, captures, held, holds⟩ := ParseState.exists_captured done member
  obtain ⟨j, ws', own, found⟩ := get?_resolveAll resolved held
  refine ⟨captured, j, fun log => ⟨fun captures' => captures'.unique captures, ?_⟩, found,
    holds.shaped undeclared own⟩
  rintro rfl
  exact captures

theorem resolveAll_sizes_declared :
    let o : Options := ⟨⟨[.leaf ⟨.ofName "sizes", .multi .integer (some 2) .list⟩,
      .leaf ⟨.ofName "style", .keyword .string none⟩], [], []⟩, .breakpoints, by decide⟩
    let bits := ["'3'", "wide", "color=red"]
    ∃ t arguments ws, Parser.breakpoints bits (.start o.grammar "tag") = .done t ∧
      t.kwargs.resolveAll (fun _ => none) .lenient = .ok (arguments, ws) ∧
      o.grammar.Declares "tag" bits (fun _ => none) .lenient arguments := by
  intro o bits
  obtain ⟨⟨arguments, ws, resolved⟩, declared⟩ :=
    resolveAll_declared o "tag" bits _ rfl (fun _ => none)
  exact ⟨_, arguments, ws, rfl, resolved, declared _ _ _ resolved⟩

end Kwargs

end TagGrammar
