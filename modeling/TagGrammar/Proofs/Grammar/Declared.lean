import TagGrammar.Proofs.Grammar.Offences

namespace TagGrammar

namespace Grammar

theorem arguments_addArgument (a : Argument) (g : Grammar) :
    (g.addArgument a).arguments = g.arguments ++ [a] := by
  unfold addArgument arguments
  cases last : g.later.getLast? with
  | none =>
    have none_later : g.later = [] := List.getLast?_eq_none_iff.mp last
    simp [none_later]
  | some s =>
    obtain ⟨others, split⟩ := List.getLast?_eq_some_iff.mp last
    simp [split]

theorem arguments_addBreakpoint (word : String) (g : Grammar) :
    (g.addBreakpoint word).arguments = g.arguments := by
  simp [addBreakpoint, arguments]

theorem blocks_addArgument (a : Argument) (g : Grammar) : (g.addArgument a).blocks = g.blocks := by
  unfold addArgument
  split <;> rfl

theorem defect?_eq_none_iff {g : Grammar} :
    g.defect? = none ↔
      (∀ a ∈ g.arguments, ∀ part ∈ a.parts, part.flaw? = none) ∧
      (g.arguments.flatMap (·.parts.filterMap Argument.ownName?)).Nodup ∧
      (g.blocks.map BlockSpec.identifier).Nodup := by
  have usable (a : Argument) : a.defect? = none ↔ ∀ part ∈ a.parts, part.flaw? = none := by
    rw [a.defect?_eq_findSome?, List.findSome?_eq_none_iff]
  have names : g.arguments.flatMap (·.parts.filterMap Argument.ownName?) = Argument.namesIn g.arguments :=
    congrArg g.arguments.flatMap (funext fun a => a.storedNames_eq_filterMap.symm)
  have unseen {l : List String} : ∀ n ∈ l, n ∉ [] := fun _ _ => List.not_mem_nil
  rw [defect?, Option.orElse_eq_orElse, Option.orElse_eq_or, Option.or_eq_none_iff,
    argumentDefect?_eq_none_iff, Option.map_eq_none_iff, firstRepeated?_eq_none_iff, names]
  simp only [usable, and_iff_left unseen, and_assoc]

end Grammar

namespace Options

open Argument (flaw? ownName?)
open Grammar (Item items)

/-- A step of a definition. -/
inductive Declaration where
  | argument (a : Argument)
  | breakpoint (word : String)
  | block (identifier : String) (storedAs : Option String)
  | parser (p : Parser)

namespace Declaration

def argument? : Declaration → Option Argument
  | argument a => some a
  | _ => none

def identifier? : Declaration → Option String
  | block i _ => some i
  | _ => none

def apply (given : Grammar × Parser) : Declaration → Grammar × Parser
  | argument a => (given.1.addArgument a, given.2)
  | breakpoint word => (given.1.addBreakpoint word, given.2)
  | block i storedAs => (given.1.addBlock i storedAs, given.2)
  | parser p => (given.1, p)

end Declaration

/-- The grammar and the parser that the steps lead to. -/
def declared (steps : List Declaration) : Grammar × Parser :=
  steps.foldl Declaration.apply (.empty, .breakpoints)

def ofDeclarations (steps : List Declaration) : Except OptionsError Options :=
  build (declared steps).1 (declared steps).2

theorem arguments_apply (given : Grammar × Parser) (step : Declaration) :
    (step.apply given).1.arguments = given.1.arguments ++ step.argument?.toList := by
  cases step with
  | argument a => exact Grammar.arguments_addArgument a given.1
  | breakpoint word =>
    rw [Declaration.apply, Grammar.arguments_addBreakpoint]
    exact (List.append_nil _).symm
  | block i storedAs => exact (List.append_nil _).symm
  | parser p => exact (List.append_nil _).symm

theorem identifiers_apply (given : Grammar × Parser) (step : Declaration) :
    (step.apply given).1.blocks.map BlockSpec.identifier =
      given.1.blocks.map BlockSpec.identifier ++ step.identifier?.toList := by
  cases step with
  | argument a =>
    rw [Declaration.apply, Grammar.blocks_addArgument]
    exact (List.append_nil _).symm
  | breakpoint word => exact (List.append_nil _).symm
  | block i storedAs => exact List.map_append
  | parser p => exact (List.append_nil _).symm

/-- What each step adds at the end, all steps add in order. -/
theorem foldl_apply {α : Type} (view : Grammar → List α) {added? : Declaration → Option α}
    (adds : ∀ given step, view (Declaration.apply given step).1 = view given.1 ++ (added? step).toList)
    (given : Grammar × Parser) (steps : List Declaration) :
    view (steps.foldl Declaration.apply given).1 = view given.1 ++ steps.filterMap added? := by
  induction steps generalizing given with
  | nil => exact (List.append_nil _).symm
  | cons step rest ih =>
    rw [List.foldl_cons, ih, adds, List.append_assoc, List.filterMap_cons]
    cases added? step <;> rfl

theorem arguments_declared (steps : List Declaration) :
    (declared steps).1.arguments = steps.filterMap Declaration.argument? :=
  foldl_apply Grammar.arguments arguments_apply (.empty, .breakpoints) steps

theorem identifiers_declared (steps : List Declaration) :
    (declared steps).1.blocks.map BlockSpec.identifier =
      steps.filterMap Declaration.identifier? :=
  foldl_apply (·.blocks.map BlockSpec.identifier) identifiers_apply (.empty, .breakpoints) steps

variable {g : Grammar} {p : Parser}

theorem build_of_sound (sound : g.defect? = none) : build g p = .ok ⟨g, p, sound⟩ := by
  unfold build
  split
  · rfl
  · rename_i defect
    rw [sound] at defect
    cases defect

theorem build_of_defect {e : OptionsError} (defect : g.defect? = some e) : build g p = .error e := by
  unfold build
  split
  · rename_i sound
    rw [defect] at sound
    cases sound
  · rename_i e' defect'
    rw [defect] at defect'
    cases defect'
    rfl

theorem build_eq_error_iff {e : OptionsError} : build g p = .error e ↔ g.defect? = some e := by
  refine ⟨fun refused => ?_, build_of_defect⟩
  cases defect : g.defect? with
  | none => rw [build_of_sound defect] at refused; cases refused
  | some e' => rw [build_of_defect defect] at refused; cases refused; rfl

theorem build_eq_ok_iff {o : Options} : build g p = .ok o ↔ o.grammar = g ∧ o.parser = p := by
  constructor
  · intro built
    cases defect : g.defect? with
    | none => rw [build_of_sound defect] at built; cases built; exact ⟨rfl, rfl⟩
    | some e => rw [build_of_defect defect] at built; cases built
  · rintro ⟨rfl, rfl⟩
    exact build_of_sound o.usable

/-- A definition is accepted exactly if no argument at any depth is unusable by itself and no name and
no block is declared twice. Otherwise the first offence is reported: an argument's parts are checked
before its names, and all arguments before the blocks. -/
theorem first_offence_reported (steps : List Declaration) :
    let arguments := steps.filterMap Declaration.argument?
    let identifiers := steps.filterMap Declaration.identifier?
    ((∃ o, ofDeclarations steps = .ok o) ↔
      (∀ a ∈ arguments, ∀ part ∈ a.parts, part.flaw? = none) ∧
      (arguments.flatMap (·.parts.filterMap ownName?)).Nodup ∧ identifiers.Nodup) ∧
    (∀ o, ofDeclarations steps = .ok o →
      o.grammar.arguments = arguments ∧ o.grammar.blocks.map BlockSpec.identifier = identifiers) ∧
    (∀ e, ofDeclarations steps = .error e ↔
      ∃ before item after, items arguments identifiers = before ++ item :: after ∧
        item.offence? before = some e ∧
        ∀ front earlier back, before = front ++ earlier :: back → earlier.offence? front = none) ∧
    ∀ a : Argument, a.storedNames = a.parts.filterMap ownName? := by
  intro arguments identifiers
  have own_arguments : (declared steps).1.arguments = arguments := arguments_declared steps
  have own_identifiers : (declared steps).1.blocks.map BlockSpec.identifier = identifiers :=
    identifiers_declared steps
  refine ⟨?_, fun o built => ?_, fun e => ?_, Argument.storedNames_eq_filterMap⟩
  · rw [← own_arguments, ← own_identifiers, ← Grammar.defect?_eq_none_iff]
    constructor
    · rintro ⟨o, built⟩
      rw [← (build_eq_ok_iff.mp built).1]
      exact o.usable
    · intro sound
      exact ⟨_, build_of_sound sound⟩
  · rw [(build_eq_ok_iff.mp built).1]
    exact ⟨own_arguments, own_identifiers⟩
  · rw [ofDeclarations, build_eq_error_iff, Grammar.defect?_eq_firstOffence?, own_arguments,
      own_identifiers, Item.firstOffence?_eq_some_iff]
    simp only [Item.firstOffence?_eq_none_iff, List.nil_append]

example :
    let x : Argument := .leaf ⟨.ofName "x", .single .string⟩
    let deep : Argument := .group (.ofName "g") [.group (.ofName "h") [x]]
    (declared [.argument deep, .breakpoint "as", .argument x]).1.defect? =
      some (.duplicateArgument "x") := rfl

end Options

end TagGrammar
