import TagGrammar.Proofs.Parse.Coherence
import TagGrammar.Proofs.Table.Entries
import TagGrammar.Tag.Basic

namespace TagGrammar

variable {lookup : String → Option Json} {mode : ErrorMode}

namespace Value

variable {entry : String × Value} {entries : List (String × Value)}
  {fields : List (String × Json)} {ws : List Warning} {error : ValueError}

theorem resolveEntries_cons_eq_ok_iff :
    resolveEntries lookup mode (entry :: entries) = .ok (fields, ws) ↔
      ∃ j ws₁ fields' ws₂, entry.2.resolve lookup mode = .ok (j, ws₁) ∧
        resolveEntries lookup mode entries = .ok (fields', ws₂) ∧
        fields = (entry.1, j) :: fields' ∧ ws = ws₁ ++ ws₂ := by
  rw [resolveEntries]
  cases entry.2.resolve lookup mode with
  | error e => simp
  | ok r =>
    cases resolveEntries lookup mode entries with
    | error e => simp
    | ok rest => simp [eq_comm, Prod.ext_iff, and_assoc]

theorem resolveEntries_cons_eq_error_iff :
    resolveEntries lookup mode (entry :: entries) = .error error ↔
      entry.2.resolve lookup mode = .error error ∨
        (∃ r, entry.2.resolve lookup mode = .ok r) ∧
          resolveEntries lookup mode entries = .error error := by
  rw [resolveEntries]
  cases entry.2.resolve lookup mode with
  | error e => simp
  | ok r => cases resolveEntries lookup mode entries <;> simp

theorem resolveEntries_names (resolved : resolveEntries lookup mode entries = .ok (fields, ws)) :
    fields.map (·.1) = entries.map (·.1) := by
  induction entries generalizing fields ws with
  | nil =>
    cases resolved
    rfl
  | cons entry entries ih =>
    obtain ⟨j, ws₁, rest, ws₂, -, later, rfl, rfl⟩ := resolveEntries_cons_eq_ok_iff.mp resolved
    rw [List.map_cons, List.map_cons, ih later]

theorem get?In_resolveEntries (resolved : resolveEntries lookup mode entries = .ok (fields, ws))
    {n : String} {v : Value} (held : Table.get?In n entries = some v) :
    ∃ j ws', v.resolve lookup mode = .ok (j, ws') ∧ Table.get?In n fields = some j := by
  induction entries generalizing fields ws with
  | nil => cases held
  | cons entry entries ih =>
    obtain ⟨j, ws₁, rest, ws₂, first, later, rfl, rfl⟩ := resolveEntries_cons_eq_ok_iff.mp resolved
    rw [Table.get?In] at held ⊢
    by_cases own : entry.1 = n
    · rw [if_pos own] at held ⊢
      cases held
      exact ⟨j, ws₁, first, rfl⟩
    · rw [if_neg own] at held ⊢
      exact ih later held

/-- Where no name comes twice, each value is resolved and stays under its name. -/
theorem get?_ofList_resolveEntries (distinct : (entries.map (·.1)).Nodup)
    (resolved : resolveEntries lookup mode entries = .ok (fields, ws)) {n : String} {v : Value}
    (held : Table.get?In n entries = some v) :
    ∃ j ws', v.resolve lookup mode = .ok (j, ws') ∧ (Table.ofList fields).get? n = some j := by
  obtain ⟨j, ws', own, found⟩ := get?In_resolveEntries resolved held
  rw [← resolveEntries_names resolved] at distinct
  exact ⟨j, ws', own, (Table.get?_ofList distinct).trans found⟩

end Value

namespace Kwargs

variable {kwargs : Kwargs} {order : List (String × Value)} {arguments : Table Json} {ws : List Warning}

theorem resolveAlong_ok (resolved : resolveAlong order lookup mode = .ok (arguments, ws)) :
    ∃ fields, Value.resolveEntries lookup mode order = .ok (fields, ws) ∧
      arguments = .ofList fields := by
  rw [resolveAlong] at resolved
  split at resolved
  · rename_i fields ws' entries
    cases resolved
    exact ⟨fields, entries, rfl⟩
  · cases resolved

/-- Every keyword argument is resolved under its name, and nothing else is there. -/
theorem contains_resolveAlong (resolved : resolveAlong order lookup mode = .ok (arguments, ws))
    (walk : order.Perm kwargs.entries) (n : String) : arguments.contains n = kwargs.contains n := by
  obtain ⟨fields, entries, rfl⟩ := resolveAlong_ok resolved
  rw [Bool.eq_iff_iff, ← Table.mem_names_iff, ← Table.mem_names_iff, Table.mem_names_ofList,
    Value.resolveEntries_names entries]
  exact (walk.map _).mem_iff

theorem contains_resolveAll (resolved : kwargs.resolveAll lookup mode = .ok (arguments, ws))
    (n : String) : arguments.contains n = kwargs.contains n :=
  contains_resolveAlong resolved (.refl _) n

theorem get?_resolveAll (resolved : kwargs.resolveAll lookup mode = .ok (arguments, ws)) {n : String}
    {v : Value} (held : kwargs.get? n = some v) :
    ∃ j ws', v.resolve lookup mode = .ok (j, ws') ∧ arguments.get? n = some j := by
  obtain ⟨fields, entries, rfl⟩ := resolveAlong_ok resolved
  exact Value.get?_ofList_resolveEntries kwargs.nodup_names entries held

end Kwargs

namespace TagNode

variable {σ ν τ : Type} {tag : Tag σ ν} {node : TagNode σ ν} {host : BlockHost τ ν} {s s' : τ}
  {called : String} {bits : List String}

theorem compile_ok (compiled : compile tag (called :: bits) host s = (.ok node, s')) :
    ∃ t, tag.options.parseKwargs called bits = .done t ∧ node.tag = tag ∧ node.kwargs = t.kwargs := by
  have result := congrArg Prod.fst compiled
  simp only [compile, Options.parse, List.head?_cons, Option.getD_some, List.tail_cons] at result
  cases parsed : tag.options.parseKwargs called bits with
  | failed e t =>
    rw [parsed] at result
    cases result
  | done t =>
    rw [parsed] at result
    dsimp only at result
    generalize host.recorded.capture called tag.options.grammar.blocks (s, []) = captured at result
    obtain ⟨blocks, rest⟩ := captured
    cases blocks with
    | error e => cases result
    | ok blocks =>
      cases result
      exact ⟨t, rfl, rfl, rfl⟩

theorem compile_of_done {t : ParseState} (parsed : tag.options.parseKwargs called bits = .done t)
    (no_blocks : tag.options.grammar.blocks = []) :
    compile tag (called :: bits) host s = (.ok ⟨tag, called, t.kwargs, .empty⟩, s) := by
  have captured : host.recorded.capture called [] (s, []) = (.ok .empty, s, []) := by
    rw [BlockHost.capture, BlockHost.captureFrom]
  simp only [compile, Options.parse, List.head?_cons, Option.getD_some, List.tail_cons]
  rw [parsed, no_blocks]
  dsimp only
  rw [captured]
  rfl

theorem render_ok [Context σ] {mode : ErrorMode} {context : σ} {output : String}
    (rendered : (node.render mode context).result = .ok output) :
    ∃ arguments ws, node.kwargs.resolveAll (Context.resolve context) mode = .ok (arguments, ws) ∧
      node.tag.render arguments node.blocks context =
        (.ok output, (node.render mode context).context) := by
  rw [render] at rendered ⊢
  split at rendered
  · cases rendered
  · rename_i arguments ws resolved
    exact ⟨arguments, ws, resolved, Prod.ext rendered rfl⟩

end TagNode

end TagGrammar
