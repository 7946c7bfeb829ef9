import TagGrammar.Proofs.Context.Lawful
import TagGrammar.Proofs.Parse.LastScope
import TagGrammar.Proofs.Tag.Shape
import TagGrammar.Tag.Getter

namespace TagGrammar

namespace ValueKind

variable {raw : Json} {constant : Bool} {mode : ErrorMode} {ws : List Warning} {text : String}

/-- An integer is never text; only the fallback is, and it is empty. -/
theorem check_integer_str (checked : integer.check raw constant mode = .ok (.str text, ws)) :
    text = "" := by
  rcases check_ok checked with ⟨_, cleaned⟩ | ⟨_, _, fallback⟩
  · rcases clean_integer cleaned with null | ⟨n, int⟩
    · cases null
    · cases int
  · cases fallback
    rfl

end ValueKind

namespace Leaf

variable {l : Leaf} {bits : List String} {v : Value} {lookup : String → Option Json}
  {mode : ErrorMode} {j : Json} {ws : List Warning} {text : String}

/-- The text that a leaf comes to by the bits that it was given: without any its default, and otherwise
that of a single string. -/
def Names (l : Leaf) (lookup : String → Option Json) (mode : ErrorMode) (text : String) : List String → Prop
  | [] => l.header.default = some (.str text)
  | [bit] =>
    l.kind = .single .string ∧ (l.header.capture .string bit).ResolvesTo lookup mode (.str text)
  | _ => False

theorem Names.kind (names : l.Names lookup mode text bits) (some_bit : bits ≠ []) :
    l.kind = .single .string := by
  match bits, names with
  | [], _ => exact absurd rfl some_bit
  | [bit], names => exact names.1
  | _ :: _ :: _, names => exact names.elim

theorem Holds.eq_singleton (holds : l.Holds bits v) {kind : ValueKind} (shape : l.kind = .single kind)
    (some_bit : bits ≠ []) : ∃ bit, bits = [bit] := by
  cases holds with
  | default => exact absurd rfl some_bit
  | single bit => exact ⟨bit, rfl⟩
  | multi shape' => cases shape.symm.trans shape'
  | keyword shape' => cases shape.symm.trans shape'
  | flag bit => exact ⟨bit, rfl⟩

/-- A bit that is kept as written resolves to its text, in every context. -/
theorem resolvesTo_capture (verbatim : l.header.resolve = false) {bit : String}
    (bare : Bit.unquote? bit = none) :
    (l.header.capture .string bit).ResolvesTo lookup mode (.str bit) := by
  refine ⟨[], ?_⟩
  rw [Header.capture, bare, verbatim]
  simp [Value.resolve, ValueKind.check, ValueKind.clean, ValueKind.cleanString]

theorem names_default_iff (resolved : l.defaultValue.resolve lookup mode = .ok (j, ws)) :
    l.Names lookup mode text [] ↔ j = .str text := by
  rw [Names]
  unfold defaultValue at resolved
  split at resolved
  · rename_i sequence _ undeclared
    obtain ⟨js, rfl, -⟩ := Value.resolve_list resolved
    rw [undeclared]
    cases sequence <;> exact iff_of_false nofun nofun
  · rename_i undeclared
    cases resolved
    rw [undeclared]
    exact iff_of_false nofun nofun
  · cases resolved
    cases l.header.default with
    | none => exact iff_of_false nofun nofun
    | some d => exact Option.some.injEq d _ ▸ Iff.rfl

theorem names_single_iff {bit : String} {kind : ValueKind} (shape : l.kind = .single kind)
    (filled : text ≠ "") (resolved : (l.header.capture kind bit).resolve lookup mode = .ok (j, ws)) :
    l.Names lookup mode text [bit] ↔ j = .str text := by
  cases kind with
  | string =>
    constructor
    · rintro ⟨_, ws', own⟩
      cases resolved.symm.trans own
      rfl
    · rintro rfl
      exact ⟨shape, ws, resolved⟩
  | integer =>
    obtain ⟨raw, constant, check, _⟩ := l.header.exists_check .integer bit lookup
    refine iff_of_false (fun names => ?_) ?_
    · cases shape.symm.trans names.1
    · rintro rfl
      exact filled (ValueKind.check_integer_str ((check mode).symm.trans resolved))

/-- What a leaf holds is resolved to some text exactly where its bits name this, as no other kind of
argument makes text of the bits that it takes. -/
theorem Holds.names_iff (holds : l.Holds bits v) (resolved : v.resolve lookup mode = .ok (j, ws))
    (filled : text ≠ "") : l.Names lookup mode text bits ↔ j = .str text := by
  cases holds with
  | default => exact names_default_iff resolved
  | single bit shape => exact names_single_iff shape filled resolved
  | multi shape some_bit room =>
    obtain ⟨js, rfl, -⟩ := Value.resolve_list resolved
    refine iff_of_false (fun names => ?_) ?_
    · cases shape.symm.trans (names.kind some_bit)
    · rename_i item max sequence
      intro same
      cases sequence <;> cases same
  | keyword shape some_pair room identifiers distinct =>
    rw [Value.resolve] at resolved
    refine iff_of_false (fun names => ?_) ?_
    · cases shape.symm.trans (names.kind (by simpa using some_pair))
    · rintro rfl
      split at resolved <;> cases resolved
  | flag bit shape reading =>
    cases resolved
    refine iff_of_false (fun names => ?_) fun same => ?_
    · cases shape.symm.trans names.1
    · cases same

end Leaf

namespace StoringTag

open Argument (namesIn leavesIn)

variable {σ ν τ : Type} {name : String} {o : Options} {getter : Getter σ} {t : StoringTag σ}

theorem build_ok (built : build name o getter = .ok t) :
    ∃ a, o.grammar.later.getLast? = some ⟨"as", [a]⟩ ∧ a.header.resolve = false ∧
      t = ⟨name, o, a.name, getter⟩ := by
  unfold build at built
  split at built
  · rename_i a last
    split at built
    · cases built
    · rename_i verbatim
      cases built
      exact ⟨a, last, by simpa using verbatim, rfl⟩
  · cases built

variable [Context σ]

/-- Nothing is shown, and the name is set to the value. -/
structure Assigned (name : String) (value : Json) (after : σ) (shown : Rendered σ) : Prop where
  result : shown.result = .ok ""
  context : shown.context = Context.set after name value

/-- The variable then holds the value, as it does unless its name is a path. -/
structure Stored (target : String) (value : Json) (after : σ) (shown : Rendered σ) : Prop
    extends Assigned target value after shown where
  found : Context.resolve shown.context target = some value

/-- The value is shown, and no variable is set. -/
structure Shown (value : Json) (after : σ) (shown : Rendered σ) : Prop where
  result : shown.result = .ok value.render
  context : shown.context = after

/-- A text that the arguments have for the variable names it, and without one the value is shown. -/
structure Decides (found : Option Json) (value : Json) (after : σ) (shown : Rendered σ) : Prop where
  named : ∀ text, text ≠ "" → found = some (.str text) → Assigned text value after shown
  unnamed : (∀ text, text ≠ "" → found ≠ some (.str text)) → Shown value after shown

/-- The bits that a leaf was given name the variable, or there is none. -/
structure Follows (lookup : String → Option Json) (mode : ErrorMode) (l : Leaf) (bits : List String)
    (value : Json) (after : σ) (shown : Rendered σ) : Prop where
  named : ∀ text, text ≠ "" → l.Names lookup mode text bits → Assigned text value after shown
  unnamed : (∀ text, text ≠ "" → ¬l.Names lookup mode text bits) → Shown value after shown

/-- What a rendering comes to by what the arguments have under the tag's name for its variable. -/
theorem render_ok {arguments : Table Json} {context c : σ} {output : String} {ws : List Warning}
    (rendered : t.render arguments context = (.ok output, c)) :
    ∃ value after, t.getter (arguments.erase t.varname) context = (.ok value, after) ∧
      Decides (arguments.get? t.varname) value after ⟨.ok output, c, ws⟩ := by
  unfold render at rendered
  split at rendered
  · cases rendered
  · rename_i value after got
    refine ⟨value, after, got, ?_⟩
    split at rendered
    · rename_i target found
      rw [found]
      split at rendered
      · rename_i empty
        cases rendered
        refine ⟨fun text filled same => ?_, fun _ => ⟨rfl, rfl⟩⟩
        cases same
        exact absurd (String.isEmpty_iff.mp empty) filled
      · rename_i filled
        cases rendered
        refine ⟨fun text _ same => ?_, fun unnamed => ?_⟩
        · cases same
          exact ⟨rfl, rfl⟩
        · exact absurd rfl (unnamed target fun empty => filled (String.isEmpty_iff.mpr empty))
    · rename_i other
      cases rendered
      exact ⟨fun text _ found => absurd found (other text), fun _ => ⟨rfl, rfl⟩⟩

variable {lookup : String → Option Json} {mode : ErrorMode} {l : Leaf} {bits : List String} {v : Value}
  {j value : Json} {ws : List Warning} {after : σ} {shown : Rendered σ}

theorem Decides.follows (decides : Decides (some j) value after shown) (holds : l.Holds bits v)
    (resolved : v.resolve lookup mode = .ok (j, ws)) : Follows lookup mode l bits value after shown := by
  constructor
  · intro text filled names
    exact decides.named text filled (congrArg some ((holds.names_iff resolved filled).mp names))
  · intro no_name
    apply decides.unnamed
    intro text filled same
    exact no_name text filled ((holds.names_iff resolved filled).mpr (Option.some.inj same))

/-- A leaf whose bits end with the target stores the value there if it is a single string. -/
theorem Follows.stored_or_shown_by_kind [LawfulContext σ]
    (follows : Follows lookup mode l bits value after shown) (holds : l.Holds bits v) {target : String}
    (some_bit : bits ≠ []) (ends : ∀ bit ∈ bits.getLast?, bit = target)
    (verbatim : l.header.resolve = false) (named : target ≠ "") (plain : '.' ∉ target.toList)
    (bare : Bit.unquote? target = none) :
    if l.kind = .single .string then Stored target value after shown else Shown value after shown := by
  split
  · -- a single string has taken the target alone, which as written text resolves to itself
    rename_i single
    obtain ⟨bit, rfl⟩ := holds.eq_singleton single some_bit
    obtain rfl : bit = target := ends bit rfl
    have assigned := follows.named bit named ⟨single, Leaf.resolvesTo_capture verbatim bare⟩
    exact ⟨assigned, assigned.context ▸ LawfulContext.resolve_set after bit value plain⟩
  · -- what any other kind makes of its bits is no name
    rename_i other
    exact follows.unnamed fun _ _ names => other (names.kind some_bit)

/-- An invocation that ends in `as` and a bare name stores the value under that name where the last
argument is a single string and is given a bit, and shows the value where any other leaf is. An earlier
`as` may take the name, unless the argument is required. What else goes by the tag's name for its
variable, such as a default or a part of a group, decides by its own bits, and if nothing does, the
value is shown. -/
theorem stored_or_shown [LawfulContext σ] (built : build name o getter = .ok t)
    (standard : o.parser = Parser.breakpoints) {called target : String} (front : List String)
    {host : BlockHost τ ν} {s s' : τ} {node : TagNode σ ν}
    (compiled : TagNode.compile t.toTag (called :: (front ++ ["as", target])) host s = (.ok node, s'))
    {mode : ErrorMode} {context : σ} {output : String}
    (rendered : (node.render mode context).result = .ok output)
    (named : target ≠ "") (plain : '.' ∉ target.toList) (bare : Bit.unquote? target = none) :
    ∃ a received value after,
      let shown := node.render mode context
      let bits := front ++ ["as", target]
      o.grammar.later.getLast? = some ⟨"as", [a]⟩ ∧
      getter received context = (.ok value, after) ∧
      (∀ n, received.contains n = true ↔ n ∈ namesIn o.grammar.arguments ∧ n ≠ a.name) ∧
      (a.name ∉ namesIn o.grammar.arguments → Shown value after shown) ∧
      (∀ l ∈ leavesIn o.grammar.arguments, l.name = a.name → ∃ captured,
        (∀ log, l.CapturesAll bits (.start o.grammar called) log ↔ log = captured) ∧
        Follows (Context.resolve context) mode l captured value after shown) ∧
      ∀ l, a = .leaf l →
        let own := routedLast 0 none o.grammar.breakpoints bits
        Follows (Context.resolve context) mode l own value after shown ∧
        (("as" ∈ o.grammar.breakpoints.dropLast → l.header.required = true) ∨ own ≠ [] →
          if l.kind = .single .string then Stored target value after shown
          else Shown value after shown) := by
  obtain ⟨a, last, verbatim, rfl⟩ := build_ok built
  obtain ⟨p, parsed, same_tag, same_kwargs⟩ := TagNode.compile_ok compiled
  have done : Parser.breakpoints (front ++ ["as", target]) (.start o.grammar called) = .done p :=
    standard ▸ parsed
  have names := ParseState.breakpoints_contains_iff done
  obtain ⟨arguments, ws, resolved, ended⟩ := TagNode.render_ok rendered
  rw [same_kwargs] at resolved
  rw [same_tag] at ended
  obtain ⟨value, after, got, decides⟩ := render_ok ended
  have decides : Decides (arguments.get? a.name) value after (node.render mode context) := by
    rw [← rendered] at decides
    exact decides
  have follows {l : Leaf} {bits : List String} {v : Value} (own : l.name = a.name)
      (held : p.kwargs.get? l.name = some v) (holds : l.Holds bits v) :
      Follows (Context.resolve context) mode l bits value after (node.render mode context) := by
    obtain ⟨j, ws', resolved_to, found⟩ := Kwargs.get?_resolveAll resolved held
    rw [← own, found] at decides
    exact decides.follows holds resolved_to
  refine ⟨a, arguments.erase a.name, value, after, last, got, ?_, ?_, ?_, ?_⟩
  · intro n
    rw [Table.contains_erase, Kwargs.contains_resolveAll resolved, names]
  · intro foreign
    have absent : arguments.get? a.name = none := by
      rw [← Table.contains_eq_false_iff, Kwargs.contains_resolveAll resolved, Bool.eq_false_iff]
      exact fun present => foreign ((names a.name).mp present)
    rw [absent] at decides
    exact decides.unnamed nofun
  · intro l member own
    obtain ⟨captured, v, captures, held, holds⟩ := ParseState.exists_captured done member
    refine ⟨captured, fun log => ⟨fun captures' => captures'.unique captures, ?_⟩, follows own held holds⟩
    rintro rfl
    exact captures
  · rintro l rfl own
    obtain ⟨v, held, holds⟩ := ParseState.holds_of_done done last
    have decided := follows rfl held holds
    refine ⟨decided, fun given => ?_⟩
    have some_bit : own ≠ [] := given.elim (ParseState.routedLast_ne_nil_of_done done last) id
    have ends := getLast?_routedLast 0 none o.grammar.breakpoints (front ++ ["as"]) target
    rw [List.append_assoc, List.singleton_append] at ends
    exact decided.stored_or_shown_by_kind holds some_bit ends verbatim named plain bare

theorem stored_as_greeting :
    let l : Leaf := ⟨⟨"varname", none, false, false, []⟩, .single .string⟩
    let o : Options := ⟨⟨[], [⟨"as", [.leaf l]⟩], []⟩, .breakpoints, by decide⟩
    let t : StoringTag (Table Json) := ⟨"hello", o, "varname", Getter.const (.str "v")⟩
    ∃ node : TagNode (Table Json) Unit,
      TagNode.compile t.toTag ["hello", "as", "greeting"] .noBlocks () = (.ok node, ()) ∧
        Stored "greeting" (.str "v") .empty (node.render .strict .empty) := by
  intro l o t
  have compiled : TagNode.compile t.toTag ["hello", "as", "greeting"] BlockHost.noBlocks () = _ :=
    TagNode.compile_of_done rfl rfl
  refine ⟨_, compiled, ?_⟩
  obtain ⟨a, received, value, after, last, got, -, -, -, leaf⟩ :=
    stored_or_shown (rfl : build "hello" o (Getter.const (.str "v")) = .ok t) rfl [] compiled
      (rfl : _ = Except.ok "") (by decide) (by decide) (by decide)
  cases last
  cases got
  exact (leaf _ rfl).2 (.inl nofun)

theorem multi_shows_value :
    let l : Leaf := ⟨⟨"varname", none, true, false, []⟩, .multi .string none .list⟩
    let o : Options := ⟨⟨[], [⟨"as", [.leaf l]⟩], []⟩, .breakpoints, by decide⟩
    let t : StoringTag (Table Json) := ⟨"hello", o, "varname", Getter.const (.str "v")⟩
    build "hello" o (Getter.const (.str "v")) = .ok t ∧
    ∃ node : TagNode (Table Json) Unit,
      TagNode.compile t.toTag ["hello", "as", "greeting"] .noBlocks () = (.ok node, ()) ∧
        (node.render .strict .empty).result = .ok "v" ∧
        Context.resolve (node.render .strict .empty).context "greeting" = none := by
  intro l o t
  exact ⟨rfl, _, TagNode.compile_of_done rfl rfl, rfl, rfl⟩

end StoringTag

end TagGrammar
