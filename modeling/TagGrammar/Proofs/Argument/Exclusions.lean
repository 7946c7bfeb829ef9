import TagGrammar.Argument.Build
import TagGrammar.Proofs.Argument.Locality

namespace TagGrammar

namespace Offer

variable {e : ParseError} {answer : Offer}

/-- A bit that would not be left to later arguments is refused. -/
def refuse (e : ParseError) : Offer → Offer
  | .declined => .declined
  | .accepted _ => .failed e
  | .failed _ => .failed e

theorem refuse_eq_declined_iff : answer.refuse e = .declined ↔ answer = .declined := by
  cases answer <;> simp [refuse]

theorem refuse_ne_accepted {kwargs : Kwargs} : answer.refuse e ≠ .accepted kwargs := by
  cases answer <;> simp [refuse]

theorem refuse_of_ne_declined (kept : answer ≠ .declined) : answer.refuse e = .failed e := by
  cases answer with
  | declined => exact absurd rfl kept
  | accepted kwargs => rfl
  | failed e' => rfl

end Offer

namespace Leaf

variable {l : Leaf} {tagname bit : String} {kwargs : Kwargs}

def unrestricted (l : Leaf) : Leaf := { l with header := { l.header with exclude := [] } }

/-- What exclusions make of the answer that the argument would give without them. -/
def restrict (l : Leaf) (tagname bit : String) (free : Offer) : Offer :=
  if l.excludes bit then free.refuse (.invalidArgument tagname l.name bit) else free

theorem unrestricted_excludes (l : Leaf) (bit : String) : l.unrestricted.excludes bit = false := by
  unfold excludes
  split <;> rfl

/-- Exclusions play no part in what is made of a bit. -/
theorem unrestricted_reaction (held : Option Value) :
    l.unrestricted.reaction tagname bit held = l.reaction tagname bit held := rfl

theorem answer_eq_restrict (r : Reaction) :
    l.answer tagname bit kwargs r =
      l.restrict tagname bit (l.unrestricted.answer tagname bit kwargs r) := by
  unfold restrict
  cases r with
  | leave => split <;> rfl
  | take value =>
    rw [answer, answer, store, store, unrestricted_excludes, if_neg Bool.false_ne_true]
    rfl
  | refuse e =>
    rw [answer, answer, unrestricted_excludes, if_neg Bool.false_ne_true]
    rfl

/-- Every kind of argument that stores a value checks its exclusions exactly where it would otherwise
take the bit or refuse it for another reason. -/
theorem offer_eq_restrict :
    l.offer tagname bit kwargs = l.restrict tagname bit (l.unrestricted.offer tagname bit kwargs) := by
  rw [offer_eq_answer, offer_eq_answer, unrestricted_reaction]
  exact answer_eq_restrict _

end Leaf

namespace Argument

variable {a : Argument} {tagname bit : String} {kwargs : Kwargs}

def excludes (a : Argument) (bit : String) : Bool :=
  match a with
  | leaf l => l.excludes bit
  | group h _ => h.exclude.contains bit

/-- A group that holds a value passes all further bits on to the alternative that has it. -/
def PassesOn (kwargs : Kwargs) : Argument → Prop
  | leaf _ => False
  | group h alternatives => (group h alternatives).isSatisfied kwargs = true

theorem offer_of_passesOn (passes : a.PassesOn kwargs) :
    a.offer tagname bit kwargs = (a.excluding []).offer tagname bit kwargs := by
  cases a with
  | leaf l => exact passes.elim
  | group h alternatives =>
    obtain ⟨a, member, filled⟩ := (isSatisfied_group h alternatives).mp passes
    have chosen : (alternatives.find? (·.isSatisfied kwargs)).isSome = true :=
      List.find?_isSome.mpr ⟨a, member, filled⟩
    obtain ⟨a, found⟩ := Option.isSome_iff_exists.mp chosen
    change _ = (group { h with exclude := [] } alternatives).offer tagname bit kwargs
    rw [offer_group, offer_group, found]

theorem offer_of_not_passesOn (unfilled : ¬a.PassesOn kwargs) (tagname bit : String) :
    a.offer tagname bit kwargs =
      if a.excludes bit then
        ((a.excluding []).offer tagname bit kwargs).refuse (.invalidArgument tagname a.name bit)
      else (a.excluding []).offer tagname bit kwargs := by
  cases a with
  | leaf l =>
    rw [offer]
    exact Leaf.offer_eq_restrict
  | group h alternatives =>
    have unchosen : alternatives.find? (·.isSatisfied kwargs) = none := by
      rw [List.find?_eq_none]
      intro a member filled
      exact unfilled ((isSatisfied_group h alternatives).mpr ⟨a, member, filled⟩)
    change _ = if h.exclude.contains bit then
      ((group { h with exclude := [] } alternatives).offer tagname bit kwargs).refuse
        (.invalidArgument tagname h.name bit)
      else (group { h with exclude := [] } alternatives).offer tagname bit kwargs
    rw [offer_group, offer_group, unchosen]
    dsimp only
    cases alternatives.findSome? fun a => (a.offer tagname bit kwargs).kwargs? with
    | none => cases h.exclude.contains bit <;> rfl
    | some kwargs' => rfl

/-- Exclusions change no answer to a bit that they do not list, and an argument declines a listed bit
exactly when it would without them. Otherwise the listed bit is refused by name, before any other
reason to refuse it, and never taken: but for a group that holds a value already, which checks nothing
and takes the bit exactly when its chosen alternative does. -/
theorem excluded_taken_iff (a : Argument) (tagname bit : String) (kwargs : Kwargs) :
    let free := (a.excluding []).offer tagname bit kwargs
    (a.excludes bit = false → a.offer tagname bit kwargs = free) ∧
    (a.excludes bit = true →
      (a.offer tagname bit kwargs = .declined ↔ free = .declined) ∧
      (¬a.PassesOn kwargs → free ≠ .declined →
        a.offer tagname bit kwargs = .failed (.invalidArgument tagname a.name bit)) ∧
      ((∃ kwargs', a.offer tagname bit kwargs = .accepted kwargs') ↔
        a.PassesOn kwargs ∧ ∃ kwargs', free = .accepted kwargs')) := by
  intro free
  by_cases passes : a.PassesOn kwargs
  · have same : a.offer tagname bit kwargs = free := offer_of_passesOn passes
    rw [same]
    exact ⟨fun _ => rfl, fun _ => ⟨Iff.rfl, fun unfilled => absurd passes unfilled,
      (and_iff_right passes).symm⟩⟩
  · have answer := offer_of_not_passesOn passes tagname bit
    refine ⟨fun allowed => ?_, fun excluded => ?_⟩
    · rw [answer, allowed, if_neg Bool.false_ne_true]
    · rw [answer, if_pos excluded]
      refine ⟨Offer.refuse_eq_declined_iff, fun _ kept => Offer.refuse_of_ne_declined kept, ?_⟩
      constructor
      · rintro ⟨kwargs', taken⟩
        exact absurd taken Offer.refuse_ne_accepted
      · rintro ⟨passes', _⟩
        exact absurd passes' passes

theorem chosen_takes_excluded :
    let a := group { Header.ofName "g" with exclude := ["x"] }
      [.leaf ⟨.ofName "items", .multi .string none .list⟩]
    a.excludes "x" = true ∧
    ∃ first second, a.offer "test_tag" "a" .empty = .accepted first ∧
      a.offer "test_tag" "x" first = .accepted second ∧
      second.get? "items" = some (.list [.resolving .string (.lookup "a"),
        .resolving .string (.lookup "x")] .list) := by
  intro a
  exact ⟨rfl, _, _, rfl, rfl, rfl⟩

end Argument

end TagGrammar
