import TagGrammar.Value.Basic

namespace TagGrammar

/-- A typed value that its kind refuses. -/
structure Fault where
  kind : ValueKind
  raw : Json
  category : String

namespace Fault

def error (f : Fault) : ValueError := ⟨f.category, f.kind.message f.raw f.category⟩

def warning (f : Fault) : Warning := ⟨f.category, f.kind.message f.raw f.category, f.raw.text⟩

/-- Strict resolving stops at the first fault. -/
def stop {α : Type} (result : α) : List Fault → Except ValueError (α × List Warning)
  | [] => .ok (result, [])
  | f :: _ => .error f.error

end Fault

def ValueKind.fault? (kind : ValueKind) (raw : Json) (constant : Bool) : Option Fault :=
  match kind.clean raw constant with
  | .ok _ => none
  | .error category => some ⟨kind, raw, category⟩

theorem ValueKind.cleanInteger?_eq_some {raw j : Json} (cleaned : cleanInteger? raw = some j) :
    j = .null ∨ ∃ n, j = .int n := by
  cases raw with
  | null =>
    cases cleaned
    exact .inl rfl
  | bool b =>
    cases cleaned
    exact .inr ⟨_, rfl⟩
  | int n =>
    cases cleaned
    exact .inr ⟨n, rfl⟩
  | float x =>
    obtain ⟨n, _, rfl⟩ := Option.map_eq_some_iff.mp cleaned
    exact .inr ⟨n, rfl⟩
  | str s =>
    rw [cleanInteger?] at cleaned
    split at cleaned
    · cases cleaned
      exact .inl rfl
    · obtain ⟨n, _, rfl⟩ := Option.map_eq_some_iff.mp cleaned
      exact .inr ⟨n, rfl⟩
  | arr items => cases cleaned
  | obj fields => cases cleaned

theorem ValueKind.clean_integer {raw j : Json} {constant : Bool}
    (cleaned : integer.clean raw constant = .ok j) : j = .null ∨ ∃ n, j = .int n := by
  rw [clean] at cleaned
  split at cleaned
  · rename_i made
    cases cleaned
    exact cleanInteger?_eq_some made
  · cases cleaned

/-- A value that passes its check is clean; one that does not is let pass in lenient mode only. -/
theorem ValueKind.check_ok {kind : ValueKind} {raw j : Json} {constant : Bool} {mode : ErrorMode}
    {ws : List Warning} (checked : kind.check raw constant mode = .ok (j, ws)) :
    (kind.fault? raw constant = none ∧ kind.clean raw constant = .ok j) ∨
      (kind.fault? raw constant ≠ none ∧ mode = .lenient ∧ j = kind.fallback) := by
  rw [check] at checked
  rw [fault?]
  cases cleaned : kind.clean raw constant with
  | ok value =>
    rw [cleaned] at checked
    cases checked
    exact .inl ⟨rfl, rfl⟩
  | error category =>
    rw [cleaned] at checked
    cases mode with
    | strict => cases checked
    | lenient =>
      cases checked
      exact .inr ⟨Option.some_ne_none _, rfl, rfl⟩

namespace Value

variable {lookup : String → Option Json} {mode : ErrorMode}

mutual

/-- The typed values at the leaves that fail, from left to right. -/
def faults (lookup : String → Option Json) : Value → List Fault
  | .fixed _ => []
  | .constant kind value => (kind.fault? value true).toList
  | .resolving kind token => (kind.fault? ((token.resolve lookup).getD .null) false).toList
  | .list items _ => faultsIn lookup items
  | .dict entries => faultsOf lookup entries

def faultsIn (lookup : String → Option Json) : List Value → List Fault
  | [] => []
  | v :: rest => faults lookup v ++ faultsIn lookup rest

def faultsOf (lookup : String → Option Json) : List (String × Value) → List Fault
  | [] => []
  | (_, v) :: rest => faults lookup v ++ faultsOf lookup rest

end

mutual

/-- The value with the fallback of its kind in place of each typed value that fails. -/
def settled (lookup : String → Option Json) : Value → Value
  | .fixed value => .fixed value
  | .constant kind value =>
    match kind.fault? value true with
    | none => .constant kind value
    | some _ => .fixed kind.fallback
  | .resolving kind token =>
    match kind.fault? ((token.resolve lookup).getD .null) false with
    | none => .resolving kind token
    | some _ => .fixed kind.fallback
  | .list items sequence => .list (settledIn lookup items) sequence
  | .dict entries => .dict (settledOf lookup entries)

def settledIn (lookup : String → Option Json) : List Value → List Value
  | [] => []
  | v :: rest => settled lookup v :: settledIn lookup rest

def settledOf (lookup : String → Option Json) : List (String × Value) → List (String × Value)
  | [] => []
  | (k, v) :: rest => (k, settled lookup v) :: settledOf lookup rest

end

@[elab_as_elim]
theorem induction {motive : Value → Prop} (fixed : ∀ value, motive (.fixed value))
    (constant : ∀ kind value, motive (.constant kind value))
    (resolving : ∀ kind token, motive (.resolving kind token))
    (list : ∀ items sequence, (∀ v ∈ items, motive v) → motive (.list items sequence))
    (dict : ∀ entries, (∀ e ∈ entries, motive e.2) → motive (.dict entries)) :
    ∀ v, motive v
  | .fixed value => fixed value
  | .constant kind value => constant kind value
  | .resolving kind token => resolving kind token
  | .list items sequence =>
    list items sequence fun v _ => induction fixed constant resolving list dict v
  | .dict entries => dict entries fun e _ => induction fixed constant resolving list dict e.2
termination_by v => sizeOf v
decreasing_by
  · rename_i member
    have := List.sizeOf_lt_of_mem member
    simp only [Value.list.sizeOf_spec]
    omega
  · obtain ⟨k, v⟩ := e
    rename_i member
    have := List.sizeOf_lt_of_mem member
    simp only [Value.dict.sizeOf_spec, Prod.mk.sizeOf_spec] at this ⊢
    omega

theorem faultsOf_eq_faultsIn (entries : List (String × Value)) :
    faultsOf lookup entries = faultsIn lookup (entries.map Prod.snd) := by
  induction entries with
  | nil => rfl
  | cons e rest ih => rw [faultsOf, ih, List.map_cons, faultsIn]

theorem settledOf_fst (entries : List (String × Value)) :
    (settledOf lookup entries).map Prod.fst = entries.map Prod.fst := by
  induction entries with
  | nil => rfl
  | cons e rest ih => rw [settledOf, List.map_cons, ih, List.map_cons]

theorem settledOf_snd (entries : List (String × Value)) :
    (settledOf lookup entries).map Prod.snd = settledIn lookup (entries.map Prod.snd) := by
  induction entries with
  | nil => rfl
  | cons e rest ih => rw [settledOf, List.map_cons, ih, List.map_cons, settledIn]

/-- The values of a dictionary are resolved as items are, each staying under its key. -/
theorem resolveEntries_eq (entries : List (String × Value)) :
    resolveEntries lookup mode entries =
      (resolveItems lookup mode (entries.map Prod.snd)).map fun (js, ws) =>
        ((entries.map Prod.fst).zip js, ws) := by
  induction entries with
  | nil => rfl
  | cons e rest ih =>
    rw [resolveEntries, ih, List.map_cons, List.map_cons, resolveItems]
    cases resolve lookup mode e.2 with
    | error e => rfl
    | ok r => cases resolveItems lookup mode (rest.map Prod.snd) <;> rfl

/-- What resolving comes to in the two modes, and without the values that fail. -/
structure Settles (lookup : String → Option Json) (v : Value) (j : Json) : Prop where
  lenient : v.resolve lookup .lenient = .ok (j, (v.faults lookup).map Fault.warning)
  strict : v.resolve lookup .strict = Fault.stop j (v.faults lookup)
  settled : (v.settled lookup).resolve lookup .strict = .ok (j, [])

structure SettlesIn (lookup : String → Option Json) (items : List Value) (js : List Json) : Prop where
  lenient : resolveItems lookup .lenient items = .ok (js, (faultsIn lookup items).map Fault.warning)
  strict : resolveItems lookup .strict items = Fault.stop js (faultsIn lookup items)
  settled : resolveItems lookup .strict (settledIn lookup items) = .ok (js, [])

theorem exists_settles_of_check {v : Value} {kind : ValueKind} {raw : Json} {constant : Bool}
    (resolved : ∀ mode, v.resolve lookup mode = kind.check raw constant mode)
    (faulty : v.faults lookup = (kind.fault? raw constant).toList)
    (repaired : v.settled lookup =
      match kind.fault? raw constant with
      | none => v
      | some _ => .fixed kind.fallback) : ∃ j, Settles lookup v j := by
  cases cleaned : kind.clean raw constant with
  | ok j =>
    have sound : kind.fault? raw constant = none := by rw [ValueKind.fault?, cleaned]
    rw [sound] at faulty repaired
    refine ⟨j, ?_, ?_, ?_⟩
    · rw [resolved, ValueKind.check, cleaned, faulty]
      rfl
    · rw [resolved, ValueKind.check, cleaned, faulty]
      rfl
    · rw [repaired, resolved, ValueKind.check, cleaned]
  | error category =>
    have failed : kind.fault? raw constant = some ⟨kind, raw, category⟩ := by
      rw [ValueKind.fault?, cleaned]
    rw [failed] at faulty repaired
    refine ⟨kind.fallback, ?_, ?_, ?_⟩
    · rw [resolved, ValueKind.check, cleaned, faulty]
      rfl
    · rw [resolved, ValueKind.check, cleaned, faulty]
      rfl
    · rw [repaired, resolve]

/-- Lists are settled item by item, and an item that stops strict resolving stops the list. -/
theorem exists_settlesIn {items : List Value} (each : ∀ v ∈ items, ∃ j, Settles lookup v j) :
    ∃ js, SettlesIn lookup items js := by
  induction items with
  | nil => exact ⟨[], rfl, rfl, rfl⟩
  | cons v rest ih =>
    rw [List.forall_mem_cons] at each
    obtain ⟨j, first⟩ := each.1
    obtain ⟨js, later⟩ := ih each.2
    refine ⟨j :: js, ?_, ?_, ?_⟩
    · rw [resolveItems, first.lenient]
      dsimp only
      rw [later.lenient, faultsIn, List.map_append]
    · rw [resolveItems, first.strict, later.strict, faultsIn]
      cases faults lookup v with
      | cons f more => rfl
      | nil => cases faultsIn lookup rest <;> rfl
    · rw [settledIn, resolveItems, first.settled]
      dsimp only
      rw [later.settled]
      rfl

theorem exists_settles (lookup : String → Option Json) (v : Value) : ∃ j, Settles lookup v j := by
  induction v using induction with
  | fixed value => exact ⟨value, rfl, rfl, rfl⟩
  | constant kind value =>
    exact exists_settles_of_check (fun mode => by rw [resolve]) (by rw [faults]) (by rw [settled])
  | resolving kind token =>
    exact exists_settles_of_check (fun mode => by rw [resolve]) (by rw [faults]) (by rw [settled])
  | list items sequence ih =>
    obtain ⟨js, each⟩ := exists_settlesIn ih
    refine ⟨sequence.clean js, ?_, ?_, ?_⟩
    · rw [resolve, each.lenient, faults]
    · rw [resolve, each.strict, faults]
      cases faultsIn lookup items <;> rfl
    · rw [settled, resolve, each.settled]
  | dict entries ih =>
    obtain ⟨js, each⟩ := exists_settlesIn (List.forall_mem_map.mpr ih)
    refine ⟨.obj (.ofList ((entries.map Prod.fst).zip js)), ?_, ?_, ?_⟩
    · rw [resolve, resolveEntries_eq, each.lenient, faults, faultsOf_eq_faultsIn]
      rfl
    · rw [resolve, resolveEntries_eq, each.strict, faults, faultsOf_eq_faultsIn]
      cases faultsIn lookup (entries.map Prod.snd) <;> rfl
    · rw [settled, resolve, resolveEntries_eq, settledOf_fst, settledOf_snd, each.settled]
      rfl

theorem exists_resolveEntries (lookup : String → Option Json) (entries : List (String × Value)) :
    ∃ fields ws, resolveEntries lookup .lenient entries = .ok (fields, ws) := by
  obtain ⟨js, each⟩ := exists_settlesIn
    (List.forall_mem_map.mpr fun e (_ : e ∈ entries) => exists_settles lookup e.2)
  rw [resolveEntries_eq, each.lenient]
  exact ⟨_, _, rfl⟩

/-- Lenient resolving never fails. It comes to what strict resolving makes of the value with fallbacks
in place of the faults, and warns of each fault in turn; strict resolving agrees with it where there
is no fault, and else stops at the first one. -/
theorem lenient_refines_strict (lookup : String → Option Json) (v : Value) :
    ∃ j ws, v.resolve lookup .lenient = .ok (j, ws) ∧
      (v.settled lookup).resolve lookup .strict = .ok (j, []) ∧
      ws = (v.faults lookup).map Fault.warning ∧
      (∀ j' ws', v.resolve lookup .strict = .ok (j', ws') → j' = j ∧ ws = []) ∧
      ∀ e, v.resolve lookup .strict = .error e →
        ∃ w ∈ ws.head?, w.category = e.category ∧ w.message = e.message := by
  obtain ⟨j, settles⟩ := exists_settles lookup v
  refine ⟨j, _, settles.lenient, settles.settled, rfl, ?_, ?_⟩
  · intro j' ws' resolved
    rw [settles.strict] at resolved
    cases found : v.faults lookup with
    | nil =>
      rw [found] at resolved
      cases resolved
      exact ⟨rfl, rfl⟩
    | cons f more =>
      rw [found] at resolved
      cases resolved
  · intro e failed
    rw [settles.strict] at failed
    cases found : v.faults lookup with
    | nil =>
      rw [found] at failed
      cases failed
    | cons f more =>
      rw [found] at failed
      cases failed
      exact ⟨f.warning, rfl, rfl, rfl⟩

end Value

end TagGrammar
