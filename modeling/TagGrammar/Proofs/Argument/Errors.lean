import TagGrammar.Proofs.Argument.Locality

namespace TagGrammar

/-- The errors with which an argument refuses a bit. -/
inductive ParseError.OfArgument (tagname : String) : ParseError → Prop
  | invalidFlag (argument actual : String) (allowed : List String) :
    OfArgument tagname (.invalidFlag tagname argument actual allowed)
  | invalidArgument (argument bit : String) :
    OfArgument tagname (.invalidArgument tagname argument bit)
  | keywordInUse (keyword : String) : OfArgument tagname (.keywordInUse tagname keyword)

open ParseError (OfArgument)

theorem ParseError.OfArgument.ne_tooManyArguments {tagname : String} {e : ParseError}
    (own : OfArgument tagname e) (tagname' : String) (extra : List String) :
    e ≠ .tooManyArguments tagname' extra := by
  cases own <;> exact ParseError.noConfusion

theorem ParseError.OfArgument.ne_argumentRequired {tagname : String} {e : ParseError}
    (own : OfArgument tagname e) (tagname' argument : String) :
    e ≠ .argumentRequired tagname' argument := by
  cases own <;> exact ParseError.noConfusion

variable {tagname bit : String} {kwargs : Kwargs} {e : ParseError}

namespace Leaf

variable {l : Leaf}

theorem reaction_refuse {held : Option Value}
    (refused : l.reaction tagname bit held = .refuse e) : OfArgument tagname e := by
  unfold reaction at refused
  cases shape : l.kind with
  | single kind =>
    rw [shape] at refused
    dsimp only at refused
    split at refused <;> cases refused
  | multi item max sequence =>
    rw [shape] at refused
    dsimp only at refused
    split at refused
    · exact absurd refused (listReaction_ne_refuse _ _ _ _ _)
    · exact absurd refused (listReaction_ne_refuse _ _ _ _ _)
    · cases refused
  | keyword item max =>
    rw [shape] at refused
    dsimp only at refused
    split at refused
    · cases refused
    · split at refused
      · exact dictReaction_refuse refused ▸ .keywordInUse _
      · exact dictReaction_refuse refused ▸ .keywordInUse _
      · cases refused
  | flag w =>
    rw [shape] at refused
    dsimp only at refused
    split at refused
    · cases refused
    · split at refused
      · cases refused
      · split at refused
        · cases refused
          exact .invalidFlag _ _ _
        · cases refused

theorem offer_failed (failed : l.offer tagname bit kwargs = .failed e) : OfArgument tagname e := by
  rw [offer_eq_answer] at failed
  cases reacted : l.reaction tagname bit (kwargs.get? l.name) with
  | leave =>
    rw [reacted] at failed
    cases failed
  | take value =>
    rw [reacted, answer, store] at failed
    split at failed
    · cases failed
      exact .invalidArgument _ _
    · cases failed
  | refuse e' =>
    rw [reacted, answer] at failed
    split at failed
    · cases failed
      exact .invalidArgument _ _
    · cases failed
      exact reaction_refuse reacted

end Leaf

theorem Argument.offer_failed {a : Argument} (failed : a.offer tagname bit kwargs = .failed e) :
    OfArgument tagname e := by
  induction a using induction with
  | leaf l =>
    rw [offer] at failed
    exact Leaf.offer_failed failed
  | group h alternatives ih =>
    rw [offer_group] at failed
    split at failed
    · rename_i a found
      exact ih a (List.mem_of_find?_eq_some found) failed
    · split at failed
      · cases failed
      · split at failed
        · cases failed
          exact .invalidArgument _ _
        · cases failed

end TagGrammar
