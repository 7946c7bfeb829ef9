import TagGrammar.Proofs.Grammar.Scopes

namespace TagGrammar

namespace Argument

mutual

/-- The argument and all below it, a group before its alternatives. -/
def parts : Argument → List Argument
  | leaf l => [leaf l]
  | group h alternatives => group h alternatives :: partsIn alternatives

def partsIn : List Argument → List Argument
  | [] => []
  | a :: rest => a.parts ++ partsIn rest

end

/-- What is wrong with an argument apart from its alternatives. -/
def flaw? : Argument → Option OptionsError
  | leaf ⟨h, .flag w⟩ =>
    if w.trueValues = [] ∧ w.falseValues = [] then some (.flagWithoutValues h.name) else none
  | leaf ⟨h, .multi _ max _⟩ => if max = some 0 then some (.zeroMaxValues h.name) else none
  | leaf ⟨h, .keyword _ max⟩ => if max = some 0 then some (.zeroMaxValues h.name) else none
  | leaf ⟨_, .single _⟩ => none
  | group h alternatives => if alternatives = [] then some (.emptyOneOf h.name) else none

/-- A group has a name for messages only. -/
def ownName? : Argument → Option String
  | leaf l => some l.name
  | group _ _ => none

theorem partsIn_eq_flatMap (as : List Argument) : partsIn as = as.flatMap parts := by
  induction as with
  | nil => rfl
  | cons a rest ih => rw [partsIn, ih, List.flatMap_cons]

/-- Flattening the names meets the same arguments as the check of each one. -/
theorem storedNames_eq_filterMap (a : Argument) : a.storedNames = a.parts.filterMap ownName? := by
  induction a using Argument.induction with
  | leaf l => rw [storedNames_leaf, parts]; rfl
  | group h alternatives ih =>
    rw [storedNames_group, parts, partsIn_eq_flatMap, List.filterMap_cons_none rfl,
      List.filterMap_flatMap]
    exact List.flatMap_congr ih

theorem flaw?_leaf (l : Leaf) : (leaf l).flaw? = l.defect? := by
  obtain ⟨h, kind⟩ := l
  cases kind with
  | single kind => rfl
  | multi item max sequence => match max with
    | none | some 0 | some (most + 1) => rfl
  | keyword item max => match max with
    | none | some 0 | some (most + 1) => rfl
  | flag w => simp [flaw?, Leaf.defect?, Leaf.name]

theorem defectIn?_eq_findSome?_flaw {alternatives : List Argument}
    (each : ∀ a ∈ alternatives, a.defect? = a.parts.findSome? flaw?) :
    defectIn? alternatives = (partsIn alternatives).findSome? flaw? := by
  induction alternatives with
  | nil => rfl
  | cons a rest ih =>
    obtain ⟨first, others⟩ := List.forall_mem_cons.mp each
    rw [defectIn?, partsIn, List.findSome?_append, first, ih others]
    cases a.parts.findSome? flaw? <;> rfl

theorem defect?_eq_findSome? (a : Argument) : a.defect? = a.parts.findSome? flaw? := by
  induction a using Argument.induction with
  | leaf l => rw [defect?, parts, List.findSome?_singleton, flaw?_leaf]
  | group h alternatives ih =>
    rw [defect?, defectIn?_eq_findSome?_flaw ih, parts, List.findSome?_cons, flaw?]
    cases alternatives <;> rfl

end Argument

namespace Grammar

/-- What a grammar is checked for, one after the other. -/
inductive Item where
  | part (a : Argument)
  | name (n : String)
  | block (identifier : String)

namespace Item

def name? : Item → Option String
  | name n => some n
  | _ => none

def identifier? : Item → Option String
  | block i => some i
  | _ => none

/-- What is wrong with an item, given the items before it. -/
def offence? (before : List Item) : Item → Option OptionsError
  | part a => a.flaw?
  | name n => if n ∈ before.filterMap name? then some (.duplicateArgument n) else none
  | block i => if i ∈ before.filterMap identifier? then some (.duplicateBlock i) else none

def firstOffence? (before : List Item) : List Item → Option OptionsError
  | [] => none
  | item :: rest => (offence? before item).or (firstOffence? (before ++ [item]) rest)

variable {before items : List Item} {e : OptionsError}

theorem firstOffence?_append (before first second : List Item) :
    firstOffence? before (first ++ second) =
      (firstOffence? before first).or (firstOffence? (before ++ first) second) := by
  induction first generalizing before with
  | nil => rw [List.nil_append, List.append_nil]; rfl
  | cons item rest ih =>
    rw [List.cons_append, firstOffence?, firstOffence?, ih, Option.or_assoc, List.append_assoc]
    rfl

theorem firstOffence?_eq_some_iff :
    firstOffence? before items = some e ↔
      ∃ front item back, items = front ++ item :: back ∧ offence? (before ++ front) item = some e ∧
        firstOffence? before front = none := by
  constructor
  · intro found
    induction items generalizing before with
    | nil => cases found
    | cons item rest ih =>
      rcases Option.or_eq_some_iff.mp found with here | ⟨sound, later⟩
      · exact ⟨[], item, rest, rfl, by rwa [List.append_nil], rfl⟩
      · obtain ⟨front, item', back, rfl, offends, first⟩ := ih later
        refine ⟨item :: front, item', back, rfl, ?_, ?_⟩
        · rwa [List.append_assoc] at offends
        · rw [firstOffence?, sound, first, Option.or_none]
  · rintro ⟨front, item, back, rfl, offends, first⟩
    rw [firstOffence?_append, first, Option.none_or, firstOffence?, offends, Option.some_or]

theorem firstOffence?_eq_none_iff :
    firstOffence? before items = none ↔
      ∀ front item back, items = front ++ item :: back → offence? (before ++ front) item = none := by
  induction items generalizing before with
  | nil => simp [firstOffence?]
  | cons item rest ih =>
    rw [firstOffence?, Option.or_eq_none_iff, ih]
    constructor
    · rintro ⟨here, later⟩ front item' back split
      cases front with
      | nil =>
        cases split
        rwa [List.append_nil]
      | cons first front =>
        cases split
        simpa using later front item' back rfl
    · intro sound
      refine ⟨by simpa using sound [] item rest rfl, fun front item' back split => ?_⟩
      simpa using sound (item :: front) item' back (by rw [split]; rfl)

theorem firstOffence?_parts (before : List Item) (parts : List Argument) :
    firstOffence? before (parts.map .part) = parts.findSome? Argument.flaw? := by
  induction parts generalizing before with
  | nil => rfl
  | cons a rest ih =>
    rw [List.map_cons, firstOffence?, ih, List.findSome?_cons, offence?]
    cases a.flaw? <;> rfl

/-- Names and blocks alike offend where they repeat. -/
theorem firstOffence?_repeated {wrap : String → Item} {view : Item → Option String}
    {error : String → OptionsError} (own : ∀ n, view (wrap n) = some n)
    (check : ∀ before n, offence? before (wrap n) =
      if n ∈ before.filterMap view then some (error n) else none)
    {seen : List String} (same : ∀ n, n ∈ seen ↔ n ∈ before.filterMap view) (names : List String) :
    firstOffence? before (names.map wrap) = (firstRepeated? seen names).map error := by
  induction names generalizing before seen with
  | nil => rfl
  | cons n rest ih =>
    rw [List.map_cons, firstOffence?, check, firstRepeated?]
    by_cases repeated : n ∈ seen
    · rw [if_pos ((same n).mp repeated), if_pos (List.contains_iff_mem.mpr repeated)]
      rfl
    · rw [if_neg fun again => repeated ((same n).mpr again), Option.none_or,
        if_neg fun again => repeated (List.contains_iff_mem.mp again)]
      refine ih fun m => ?_
      rw [List.mem_cons, same m, List.filterMap_append, List.mem_append, List.filterMap_cons_some (own n),
        List.filterMap_nil, List.mem_singleton]
      exact or_comm

end Item

/-- An argument's parts, then the names that it stores under. -/
def argumentItems (a : Argument) : List Item :=
  a.parts.map .part ++ (a.parts.filterMap Argument.ownName?).map .name

/-- The items in the order of declaration, those of blocks after all others. -/
def items (arguments : List Argument) (identifiers : List String) : List Item :=
  arguments.flatMap argumentItems ++ identifiers.map .block

theorem filterMap_name?_argumentItems (a : Argument) :
    (argumentItems a).filterMap Item.name? = a.storedNames := by
  rw [argumentItems, ← Argument.storedNames_eq_filterMap, List.filterMap_append, List.filterMap_map,
    List.filterMap_map]
  change a.parts.filterMap (fun _ => none) ++ a.storedNames.filterMap some = _
  rw [List.filterMap_none, List.filterMap_some, List.nil_append]

theorem filterMap_identifier?_argumentItems (a : Argument) :
    (argumentItems a).filterMap Item.identifier? = [] := by
  rw [argumentItems, List.filterMap_append, List.filterMap_map, List.filterMap_map]
  change a.parts.filterMap (fun _ => none) ++ List.filterMap (fun _ => none) _ = _
  rw [List.filterMap_none, List.filterMap_none, List.append_nil]

theorem firstOffence?_argumentItems {before : List Item} {seen : List String}
    (same : ∀ n, n ∈ seen ↔ n ∈ before.filterMap Item.name?) (a : Argument) :
    Item.firstOffence? before (argumentItems a) =
      a.defect?.or ((firstRepeated? seen a.storedNames).map .duplicateArgument) := by
  have unnamed : (before ++ a.parts.map Item.part).filterMap Item.name? = before.filterMap Item.name? := by
    rw [List.filterMap_append, List.filterMap_map]
    change _ ++ a.parts.filterMap (fun _ => none) = _
    rw [List.filterMap_none, List.append_nil]
  rw [argumentItems, Item.firstOffence?_append, Item.firstOffence?_parts, Argument.defect?_eq_findSome?,
    ← Argument.storedNames_eq_filterMap,
    Item.firstOffence?_repeated (fun _ => rfl) (fun _ _ => rfl) (unnamed ▸ same)]

theorem firstOffence?_arguments {before : List Item} {seen : List String}
    (same : ∀ n, n ∈ seen ↔ n ∈ before.filterMap Item.name?) (arguments : List Argument) :
    Item.firstOffence? before (arguments.flatMap argumentItems) = argumentDefect? seen arguments := by
  induction arguments generalizing before seen with
  | nil => rfl
  | cons a rest ih =>
    have later : ∀ n, n ∈ a.storedNames.reverse ++ seen ↔
        n ∈ (before ++ argumentItems a).filterMap Item.name? := by
      intro n
      rw [List.filterMap_append, filterMap_name?_argumentItems, List.mem_append, List.mem_append,
        List.mem_reverse, same n]
      exact or_comm
    rw [List.flatMap_cons, Item.firstOffence?_append, firstOffence?_argumentItems same, ih later,
      argumentDefect?]
    cases a.defect? with
    | some e => rfl
    | none => cases firstRepeated? seen a.storedNames <;> rfl

theorem defect?_eq_firstOffence? (g : Grammar) :
    g.defect? = Item.firstOffence? [] (items g.arguments (g.blocks.map BlockSpec.identifier)) := by
  have unnamed : (g.arguments.flatMap argumentItems).filterMap Item.identifier? = [] := by
    rw [List.filterMap_flatMap]
    simp [filterMap_identifier?_argumentItems]
  have none_seen (i : String) :
      i ∈ [] ↔ i ∈ ([] ++ g.arguments.flatMap argumentItems).filterMap Item.identifier? := by
    rw [List.nil_append, unnamed]
  have none_named (n : String) : n ∈ [] ↔ n ∈ ([] : List Item).filterMap Item.name? := Iff.rfl
  rw [items, Item.firstOffence?_append, firstOffence?_arguments none_named,
    Item.firstOffence?_repeated (fun _ => rfl) (fun _ _ => rfl) none_seen, defect?]
  cases argumentDefect? [] g.arguments <;> rfl

end Grammar

end TagGrammar
