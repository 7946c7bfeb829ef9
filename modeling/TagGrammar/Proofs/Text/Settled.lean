import TagGrammar.Proofs.Text.Lowered
import TagGrammar.Proofs.Text.Words

namespace TagGrammar.Text

/-- The capitals from A to Z, the only ones before which a word ends, are the first run of the table. -/
theorem IsSmall.isUpper_eq_false {c : Char} (small : IsSmall c) : c.isUpper = false := by
  have outside : CaseRun.has ⟨0x41, 0x5A, 1, 32⟩ c.toNat = false :=
    small _ (List.mem_cons_of_mem _ List.mem_cons_self)
  rw [← Bool.not_eq_true, CaseRun.has_iff] at outside
  rw [← Bool.not_eq_true]
  intro capital
  have range : 65 ≤ c.toNat ∧ c.toNat ≤ 90 := of_decide_eq_true capital
  exact outside ⟨range.1, range.2, Nat.mod_one _⟩

theorem markEnds_eq_self {s : List Char} (small : ∀ c ∈ s, c.isUpper = false) : markEnds s = s := by
  induction s with
  | nil => rfl
  | cons c rest ih =>
    obtain ⟨_, others⟩ := List.forall_mem_cons.mp small
    have inside : wordEnds (c :: rest) 0 = false := by
      cases rest with
      | nil => rfl
      | cons next _ => simp [wordEnds_zero, others next]
    rw [markEnds_cons_of_inside inside, ih others]

theorem isSmall_of_mem_snakeCase {name : String} {c : Char} (member : c ∈ (snakeCase name).toList) :
    IsSmall c := by
  rw [snakeCase, String.toList_ofList] at member
  exact isSmall_of_mem_lowerFrom member

/-- The names in snake case are those in small letters: there is no word to mark in them, and no
letter to lower. -/
theorem snakeCase_eq_self_iff {name : String} :
    snakeCase name = name ↔ ∀ c ∈ name.toList, IsSmall c := by
  constructor
  · intro same c member
    rw [← same] at member
    exact isSmall_of_mem_snakeCase member
  · intro small
    have unmarked : markCapitals (markWords name.toList) = name.toList := by
      rw [markCapitals_markWords]
      exact markEnds_eq_self fun c member => (small c member).isUpper_eq_false
    rw [snakeCase, unmarked, lowerChars, lowerFrom_eq_self small, String.ofList_toList]

/-- Snake case is final, and no capital from A to Z is left in it: the form of a sigma was chosen
once, with the marks in place, and a small sigma is not chosen again. -/
theorem snakeCase_stable_without_capitals (name : String) :
    snakeCase (snakeCase name) = snakeCase name ∧
    ∀ c ∈ (snakeCase name).toList, ¬('A' ≤ c ∧ c ≤ 'Z') := by
  have small : ∀ c ∈ (snakeCase name).toList, IsSmall c := fun _ member => isSmall_of_mem_snakeCase member
  refine ⟨snakeCase_eq_self_iff.mpr small, ?_⟩
  intro c member range
  have capital : c.isUpper = true := decide_eq_true range
  rw [(small c member).isUpper_eq_false] at capital
  cases capital

end TagGrammar.Text
