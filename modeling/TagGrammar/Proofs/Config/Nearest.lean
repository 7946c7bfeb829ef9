import Mathlib.Data.List.Induction
import TagGrammar.Config.Load

namespace TagGrammar.Config

/-- The deepest directory with a configuration entry, of one directory and those that hold it. What
kind of entry that is, is of no account. -/
structure Nearest (fs : FileSystem) (directory outer : List String) : Prop where
  holds : outer <+: directory
  present : (fs.get? (outer ++ [fileName])).isSome
  deepest : ∀ other, other <+: directory → (fs.get? (other ++ [fileName])).isSome → other <+: outer

/-- What there is to discover from a directory: the entry in the nearest directory that has one, or
nothing where no directory on the way to the root has one. -/
inductive Discovers (fs : FileSystem) (directory : List String) : Option (List String × Entry) → Prop
  | nearest {outer : List String} {entry : Entry} (nearest : Nearest fs directory outer)
      (found : fs.get? (outer ++ [fileName]) = some entry) :
      Discovers fs directory (some (outer ++ [fileName], entry))
  | bare (absent : ∀ outer, outer <+: directory → fs.get? (outer ++ [fileName]) = none) :
      Discovers fs directory none

section Discovery

variable {fs : FileSystem} {directory outer : List String} {name : String}

theorem Nearest.here (present : (fs.get? (directory ++ [fileName])).isSome) :
    Nearest fs directory directory :=
  ⟨List.prefix_rfl, present, fun _ holds _ => holds⟩

theorem Nearest.unique {other : List String} (nearest : Nearest fs directory outer)
    (nearest' : Nearest fs directory other) : outer = other := by
  have below := nearest'.deepest outer nearest.holds nearest.present
  have above := nearest.deepest other nearest'.holds nearest'.present
  exact below.eq_of_length (Nat.le_antisymm below.length_le above.length_le)

theorem Nearest.not_absent (nearest : Nearest fs directory outer) :
    ¬∀ other, other <+: directory → fs.get? (other ++ [fileName]) = none := by
  intro absent
  have present := nearest.present
  rw [absent outer nearest.holds] at present
  cases present

/-- A directory without an entry leaves the choice to those that hold it. -/
theorem Nearest.concat (nearest : Nearest fs directory outer)
    (absent : fs.get? (directory ++ [name] ++ [fileName]) = none) : Nearest fs (directory ++ [name]) outer := by
  refine ⟨nearest.holds.trans (List.prefix_append _ _), nearest.present, ?_⟩
  intro other holds present
  rcases List.prefix_concat_iff.mp holds with rfl | above
  · rw [absent] at present
    cases present
  · exact nearest.deepest other above present

theorem discover_nil (fs : FileSystem) : discover fs [] = (fs.get? [fileName]).map ([fileName], ·) := rfl

theorem discover_concat (fs : FileSystem) (directory : List String) (name : String) :
    discover fs (directory ++ [name]) =
      ((fs.get? (directory ++ [name] ++ [fileName])).map (directory ++ [name] ++ [fileName], ·)).or
        (discover fs directory) := by
  have candidate : (fileName :: name :: directory.reverse).reverse = directory ++ [name] ++ [fileName] := by
    simp
  rw [discover, List.reverse_concat, discoverUp, candidate, discover]
  cases fs.get? (directory ++ [name] ++ [fileName]) <;> rfl

theorem Discovers.here {entry : Entry} (found : fs.get? (directory ++ [fileName]) = some entry) :
    Discovers fs directory (some (directory ++ [fileName], entry)) :=
  .nearest (.here (Option.isSome_of_eq_some found)) found

theorem Discovers.concat {found : Option (List String × Entry)} (discovered : Discovers fs directory found)
    (absent : fs.get? (directory ++ [name] ++ [fileName]) = none) :
    Discovers fs (directory ++ [name]) found := by
  cases discovered with
  | nearest nearest found => exact .nearest (nearest.concat absent) found
  | bare none_above =>
    apply Discovers.bare
    intro outer holds
    rcases List.prefix_concat_iff.mp holds with rfl | above
    · exact absent
    · exact none_above outer above

theorem Discovers.unique {found found' : Option (List String × Entry)}
    (discovered : Discovers fs directory found) (discovered' : Discovers fs directory found') :
    found = found' := by
  cases discovered with
  | nearest nearest found =>
    cases discovered' with
    | nearest nearest' found' =>
      cases nearest.unique nearest'
      rw [found] at found'
      cases found'
      rfl
    | bare absent => exact absurd absent nearest.not_absent
  | bare absent =>
    cases discovered' with
    | nearest nearest _ => exact absurd absent nearest.not_absent
    | bare _ => rfl

theorem discovers (fs : FileSystem) (directory : List String) :
    Discovers fs directory (discover fs directory) := by
  induction directory using List.reverseRecOn with
  | nil =>
    rw [discover_nil]
    cases here : fs.get? [fileName] with
    | some entry => exact .here here
    | none =>
      apply Discovers.bare
      intro outer holds
      rw [List.prefix_nil.mp holds]
      exact here
  | append_singleton directory name ih =>
    rw [discover_concat]
    cases here : fs.get? (directory ++ [name] ++ [fileName]) with
    | some entry => exact .here here
    | none => exact ih.concat here

/-- The walk up stops at the nearest entry, whatever that is, and finds nothing only where no directory
on the way has one. -/
theorem discover_eq_iff {found : Option (List String × Entry)} :
    discover fs directory = found ↔ Discovers fs directory found := by
  constructor
  · rintro rfl
    exact discovers fs directory
  · exact (discovers fs directory).unique

end Discovery

end TagGrammar.Config
