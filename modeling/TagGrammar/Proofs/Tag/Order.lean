import TagGrammar.Proofs.Tag.Arguments

namespace TagGrammar

variable {lookup : String → Option Json} {mode : ErrorMode}

namespace Value

variable {entry : String × Value} {entries order other : List (String × Value)} {n : String} {j : Json}
  {fields : List (String × Json)} {ws : List Warning} {error : ValueError}

/-- What is resolved in one order is resolved in any other, to the same fields. -/
theorem resolveEntries_perm (perm : order.Perm other)
    (resolved : resolveEntries lookup mode order = .ok (fields, ws)) :
    ∃ fields' ws', resolveEntries lookup mode other = .ok (fields', ws') ∧
      fields'.Perm fields ∧ ws'.Perm ws := by
  induction perm generalizing fields ws with
  | nil => exact ⟨fields, ws, resolved, .refl _, .refl _⟩
  | cons entry _ ih =>
    obtain ⟨j, ws₁, rest, ws₂, own, later, rfl, rfl⟩ := resolveEntries_cons_eq_ok_iff.mp resolved
    obtain ⟨rest', ws₂', later', same, warned⟩ := ih later
    exact ⟨_, _, resolveEntries_cons_eq_ok_iff.mpr ⟨j, ws₁, rest', ws₂', own, later', rfl, rfl⟩,
      same.cons _, warned.append_left _⟩
  | swap first second entries =>
    obtain ⟨j, ws₁, _, _, own, later, rfl, rfl⟩ := resolveEntries_cons_eq_ok_iff.mp resolved
    obtain ⟨k, ws₂, rest, ws₃, own', later', rfl, rfl⟩ := resolveEntries_cons_eq_ok_iff.mp later
    have later := resolveEntries_cons_eq_ok_iff.mpr ⟨j, ws₁, rest, ws₃, own, later', rfl, rfl⟩
    refine ⟨_, _, resolveEntries_cons_eq_ok_iff.mpr ⟨k, ws₂, _, _, own', later, rfl, rfl⟩,
      .swap .., ?_⟩
    rw [← List.append_assoc, ← List.append_assoc]
    exact List.perm_append_comm.append_right _
  | trans _ _ ih ih' =>
    obtain ⟨fields', ws', resolved', same, warned⟩ := ih resolved
    obtain ⟨fields'', ws'', resolved'', same', warned'⟩ := ih' resolved'
    exact ⟨fields'', ws'', resolved'', same'.trans same, warned'.trans warned⟩

/-- A field is what the value of an entry comes to on its own. -/
theorem mem_fields_iff (resolved : resolveEntries lookup mode entries = .ok (fields, ws)) :
    (n, j) ∈ fields ↔ ∃ v ws', (n, v) ∈ entries ∧ v.resolve lookup mode = .ok (j, ws') := by
  induction entries generalizing fields ws with
  | nil =>
    cases resolved
    simp
  | cons entry entries ih =>
    obtain ⟨k, ws₁, rest, ws₂, own, later, rfl, rfl⟩ := resolveEntries_cons_eq_ok_iff.mp resolved
    obtain ⟨m, v⟩ := entry
    rw [List.mem_cons, ih later]
    constructor
    · rintro (same | ⟨w, ws', member, own'⟩)
      · cases same
        exact ⟨v, ws₁, List.mem_cons_self, own⟩
      · exact ⟨w, ws', List.mem_cons_of_mem _ member, own'⟩
    · rintro ⟨w, ws', member, own'⟩
      rcases List.mem_cons.mp member with same | member
      · cases same
        rw [own] at own'
        cases own'
        exact .inl rfl
      · exact .inr ⟨w, ws', member, own'⟩

/-- Resolving stops at a value that fails on its own. -/
theorem exists_of_resolveEntries_error (failed : resolveEntries lookup mode entries = .error error) :
    ∃ n v, (n, v) ∈ entries ∧ v.resolve lookup mode = .error error := by
  induction entries with
  | nil => cases failed
  | cons entry entries ih =>
    rcases resolveEntries_cons_eq_error_iff.mp failed with own | ⟨-, later⟩
    · exact ⟨entry.1, entry.2, List.mem_cons_self, own⟩
    · obtain ⟨n, v, member, own⟩ := ih later
      exact ⟨n, v, List.mem_cons_of_mem _ member, own⟩

theorem exists_ok_of_mem (resolved : resolveEntries lookup mode entries = .ok (fields, ws))
    (member : entry ∈ entries) : ∃ r, entry.2.resolve lookup mode = .ok r := by
  induction entries generalizing fields ws with
  | nil => cases member
  | cons first entries ih =>
    obtain ⟨j, ws₁, rest, ws₂, own, later, -, -⟩ := resolveEntries_cons_eq_ok_iff.mp resolved
    rcases List.mem_cons.mp member with rfl | member
    · exact ⟨_, own⟩
    · exact ih later member

end Value

namespace Kwargs

variable {kwargs : Kwargs} {order other : List (String × Value)} {arguments : Table Json}
  {ws : List Warning} {n : String} {error : ValueError}

/-- What the argument under a name comes to on its own. -/
def own (kwargs : Kwargs) (lookup : String → Option Json) (mode : ErrorMode) (n : String) :
    Option (Except ValueError (Json × List Warning)) :=
  (kwargs.get? n).map (·.resolve lookup mode)

theorem own_eq_some_iff {r : Except ValueError (Json × List Warning)} 
    (walk : order.Perm kwargs.entries) :
    kwargs.own lookup mode n = some r ↔ ∃ v, (n, v) ∈ order ∧ v.resolve lookup mode = r := by
  simp only [own, Option.map_eq_some_iff, walk.mem_iff, Table.mem_iff_get?In kwargs.nodup_names]
  rfl

theorem resolveAlong_perm (distinct : (order.map (·.1)).Nodup) (perm : order.Perm other)
    (resolved : resolveAlong order lookup mode = .ok (arguments, ws)) :
    ∃ ws', resolveAlong other lookup mode = .ok (arguments, ws') ∧ ws'.Perm ws := by
  obtain ⟨fields, entries, rfl⟩ := resolveAlong_ok resolved
  obtain ⟨fields', ws', entries', same, warned⟩ := Value.resolveEntries_perm perm entries
  have distinct' : (fields.map (·.1)).Nodup := by rwa [Value.resolveEntries_names entries]
  refine ⟨ws', ?_, warned⟩
  rw [resolveAlong, entries', Table.ofList_eq_of_perm distinct' same.symm]

/-- A resolved argument is what the argument under its name comes to on its own. -/
theorem get?_resolveAlong_iff (walk : order.Perm kwargs.entries)
    (resolved : resolveAlong order lookup mode = .ok (arguments, ws)) (n : String) (j : Json) :
    arguments.get? n = some j ↔ ∃ ws', kwargs.own lookup mode n = some (.ok (j, ws')) := by
  obtain ⟨fields, entries, rfl⟩ := resolveAlong_ok resolved
  have distinct' : (fields.map (·.1)).Nodup := by
    rw [Value.resolveEntries_names entries]
    exact (walk.map _).nodup_iff.mpr kwargs.nodup_names
  simp only [Table.get?_ofList distinct', ← Table.mem_iff_get?In distinct',
    Value.mem_fields_iff entries, own_eq_some_iff walk]
  exact exists_comm

theorem own_of_resolveAlong_error (walk : order.Perm kwargs.entries)
    (failed : resolveAlong order lookup mode = .error error) :
    ∃ n, kwargs.own lookup mode n = some (.error error) := by
  rw [resolveAlong] at failed
  split at failed
  · cases failed
  · rename_i entries
    cases failed
    obtain ⟨n, v, member, own⟩ := Value.exists_of_resolveEntries_error entries
    exact ⟨n, (own_eq_some_iff walk).mpr ⟨v, member, own⟩⟩

theorem resolveAlong_error_of_own (walk : order.Perm kwargs.entries)
    (failing : kwargs.own lookup mode n = some (.error error)) :
    ∃ first, resolveAlong order lookup mode = .error first := by
  obtain ⟨v, member, own⟩ := (own_eq_some_iff walk).mp failing
  cases result : resolveAlong order lookup mode with
  | error first => exact ⟨first, rfl⟩
  | ok resolved =>
    obtain ⟨fields, entries, -⟩ := resolveAlong_ok result
    obtain ⟨r, ok⟩ := Value.exists_ok_of_mem entries member
    cases own.symm.trans ok

/-- Where one argument alone fails, its error is the one reported. -/
theorem resolveAlong_error_of_only (walk : order.Perm kwargs.entries)
    (failing : kwargs.own lookup mode n = some (.error error))
    (only : ∀ m error', kwargs.own lookup mode m = some (.error error') → m = n) :
    resolveAlong order lookup mode = .error error := by
  obtain ⟨first, failed⟩ := resolveAlong_error_of_own walk failing
  obtain ⟨m, failing'⟩ := own_of_resolveAlong_error walk failed
  obtain rfl : m = n := only m first failing'
  cases failing.symm.trans failing'
  exact failed

/-- The order in which the keyword arguments are walked through does not matter. They are all
resolved, to the same arguments, unless one of them fails on its own; each is then what it comes to
on its own, and else the error is that of one that fails, hence of the one where there is only one. -/
theorem resolveAll_in_any_order (walk : order.Perm kwargs.entries)
    (walk' : other.Perm kwargs.entries) (lookup : String → Option Json) (mode : ErrorMode) :
    let result := resolveAlong order lookup mode
    let result' := resolveAlong other lookup mode
    (∀ arguments, (∃ ws, result = .ok (arguments, ws)) ↔ ∃ ws, result' = .ok (arguments, ws)) ∧
    ((∃ r, result = .ok r) ↔ ∀ n error, kwargs.own lookup mode n ≠ some (.error error)) ∧
    (∀ arguments ws, result = .ok (arguments, ws) → ∀ n,
      arguments.contains n = kwargs.contains n ∧
        ∀ j, arguments.get? n = some j ↔ ∃ ws', kwargs.own lookup mode n = some (.ok (j, ws'))) ∧
    (∀ error, result = .error error → ∃ n, kwargs.own lookup mode n = some (.error error)) ∧
    ∀ n error, kwargs.own lookup mode n = some (.error error) →
      (∀ m error', kwargs.own lookup mode m = some (.error error') → m = n) →
        result = .error error ∧ result' = .error error := by
  intro result result'
  have names : (order.map (·.1)).Nodup := (walk.map _).nodup_iff.mpr kwargs.nodup_names
  have names' : (other.map (·.1)).Nodup := (walk'.map _).nodup_iff.mpr kwargs.nodup_names
  have across : order.Perm other := walk.trans walk'.symm
  refine ⟨fun arguments => ⟨?_, ?_⟩, ⟨?_, ?_⟩, ?_, ?_, ?_⟩
  · rintro ⟨ws, resolved⟩
    obtain ⟨ws', resolved', -⟩ := resolveAlong_perm names across resolved
    exact ⟨ws', resolved'⟩
  · rintro ⟨ws, resolved⟩
    obtain ⟨ws', resolved', -⟩ := resolveAlong_perm names' across.symm resolved
    exact ⟨ws', resolved'⟩
  · rintro ⟨r, resolved⟩ n error failing
    obtain ⟨first, failed⟩ := resolveAlong_error_of_own walk failing
    cases resolved.symm.trans failed
  · intro sound
    cases made : result with
    | ok r => exact ⟨r, rfl⟩
    | error error =>
      obtain ⟨n, failing⟩ := own_of_resolveAlong_error walk made
      exact absurd failing (sound n error)
  · intro arguments ws resolved n
    exact ⟨contains_resolveAlong resolved walk n, get?_resolveAlong_iff walk resolved n⟩
  · intro error failed
    exact own_of_resolveAlong_error walk failed
  · intro n error failing only
    exact ⟨resolveAlong_error_of_only walk failing only,
      resolveAlong_error_of_only walk' failing only⟩

theorem resolveAll_in_two_orders :
    let kwargs : Kwargs := .ofList [("a", .fixed .null), ("b", .constant .string (.str "x"))]
    let order := [("b", Value.constant .string (.str "x")), ("a", .fixed .null)]
    order.Perm kwargs.entries ∧ ∃ ws, resolveAlong order (fun _ => none) .strict =
      .ok (.ofList [("a", .null), ("b", .str "x")], ws) := by
  intro kwargs order
  have walk : order.Perm kwargs.entries := .swap ..
  have same := (resolveAll_in_any_order walk (.refl _) (fun _ => none) .strict).1
  exact ⟨walk, (same _).mpr ⟨[], rfl⟩⟩

end Kwargs

end TagGrammar
