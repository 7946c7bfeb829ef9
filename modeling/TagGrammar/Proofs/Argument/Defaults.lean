import Mathlib.Data.List.Nodup
import TagGrammar.Proofs.Argument.Locality

namespace TagGrammar

/-- The table with the default of each argument that has no value in it. -/
def Kwargs.fill (kwargs : Kwargs) (leaves : List Leaf) : Kwargs := leaves.foldl Leaf.fillDefault kwargs

namespace Kwargs

theorem fill_cons (kwargs : Kwargs) (l : Leaf) (rest : List Leaf) :
    kwargs.fill (l :: rest) = (l.fillDefault kwargs).fill rest := rfl

theorem fill_append (kwargs : Kwargs) (first second : List Leaf) :
    kwargs.fill (first ++ second) = (kwargs.fill first).fill second := List.foldl_append

theorem get?_fillDefault (kwargs : Kwargs) (l : Leaf) (n : String) :
    (l.fillDefault kwargs).get? n =
      (kwargs.get? n).or (if l.name = n then some l.defaultValue else none) := by
  unfold Leaf.fillDefault
  split
  · rename_i present
    obtain ⟨v, held⟩ := Table.contains_iff.mp present
    by_cases own : l.name = n
    · subst own
      rw [held]
      rfl
    · rw [if_neg own, Option.or_none]
  · rename_i absent
    have nothing := Table.contains_eq_false_iff.mp (Bool.not_eq_true _ ▸ absent)
    rw [Table.get?_insert]
    by_cases own : l.name = n
    · subst own
      rw [if_pos rfl, if_pos rfl, nothing]
      rfl
    · rw [if_neg own, if_neg own, Option.or_none]

theorem get?_fill (kwargs : Kwargs) (leaves : List Leaf) (n : String) :
    (kwargs.fill leaves).get? n =
      (kwargs.get? n).or ((leaves.find? (·.name = n)).map Leaf.defaultValue) := by
  induction leaves generalizing kwargs with
  | nil => exact Option.or_none.symm
  | cons l rest ih =>
    rw [fill_cons, ih, get?_fillDefault, Option.or_assoc, List.find?_cons]
    by_cases own : l.name = n <;> simp [own]

theorem get?_fill_of_some {kwargs : Kwargs} {leaves : List Leaf} {n : String} {v : Value}
    (held : kwargs.get? n = some v) : (kwargs.fill leaves).get? n = some v := by
  rw [get?_fill, held]
  rfl

theorem get?_fill_of_notMem {kwargs : Kwargs} {leaves : List Leaf} {n : String}
    (foreign : n ∉ leaves.map Leaf.name) : (kwargs.fill leaves).get? n = kwargs.get? n := by
  have none_own : leaves.find? (·.name = n) = none := by
    rw [List.find?_eq_none]
    intro l member own
    exact foreign (List.mem_map.mpr ⟨l, member, by simpa using own⟩)
  rw [get?_fill, none_own, Option.map_none, Option.or_none]

theorem contains_fill {kwargs : Kwargs} {leaves : List Leaf} {n : String} :
    (kwargs.fill leaves).contains n = true ↔
      kwargs.contains n = true ∨ n ∈ leaves.map Leaf.name := by
  unfold Table.contains
  rw [get?_fill, Option.isSome_or, Bool.or_eq_true, Option.isSome_map, List.find?_isSome]
  simp only [decide_eq_true_eq, List.mem_map]

theorem get?_fill_of_mem {kwargs : Kwargs} {leaves : List Leaf} {l : Leaf}
    (distinct : (leaves.map Leaf.name).Nodup) (member : l ∈ leaves) :
    (kwargs.fill leaves).get? l.name = some ((kwargs.get? l.name).getD l.defaultValue) := by
  have first : leaves.find? (·.name = l.name) = some l := by
    have found : (leaves.find? (·.name = l.name)).isSome := by
      rw [List.find?_isSome]
      exact ⟨l, member, by simp⟩
    obtain ⟨l', same⟩ := Option.isSome_iff_exists.mp found
    have own : l'.name = l.name := by simpa using List.find?_some same
    rw [same, List.inj_on_of_nodup_map distinct (List.mem_of_find?_eq_some same) member own]
  rw [get?_fill, first]
  cases kwargs.get? l.name <;> rfl

theorem AgreeOn.fill {names : List String} {left right : Kwargs} (same : AgreeOn names left right)
    (leaves : List Leaf) : AgreeOn names (left.fill leaves) (right.fill leaves) := by
  intro n member
  rw [get?_fill, get?_fill, same n member]

end Kwargs

end TagGrammar
