import TagGrammar.Number.Decimal
import TagGrammar.Proofs.Text.Strip

namespace TagGrammar.Number

variable {c : Char} {cs : List Char} {n : Nat}

theorem isDigit_of_mem_digits (member : c ∈ digits n) : c.isDigit = true :=
  List.all_eq_true.mp (all_isDigit_digits n) c member

theorem exists_digit_cons (n : Nat) : ∃ c cs, digits n = c :: cs ∧ c.isDigit = true := by
  obtain ⟨c, cs, split⟩ := List.exists_cons_of_ne_nil (digits_ne_nil n)
  exact ⟨c, cs, split, isDigit_of_mem_digits (split ▸ List.mem_cons_self)⟩

theorem cutSign_of_isDigit (digit : c.isDigit = true) : cutSign (c :: cs) = (false, c :: cs) := by
  unfold cutSign
  split
  · rename_i same
    cases same
    exact absurd digit (by decide)
  · rename_i same
    cases same
    exact absurd digit (by decide)
  · rfl

theorem cutSign_digits (n : Nat) : cutSign (digits n) = (false, digits n) := by
  obtain ⟨c, cs, split, digit⟩ := exists_digit_cons n
  rw [split]
  exact cutSign_of_isDigit digit

/-- The decimal text of an integer reads back as that integer. -/
theorem readInt?_intDigits (n : Int) : readInt? (intDigits n) = some n := by
  unfold intDigits
  split
  · rename_i negative
    have value : -(n.natAbs : Int) = n := by omega
    unfold readInt?
    simp only [cutSign, readNat?_digits]
    exact congrArg some value
  · rename_i positive
    have value : (n.natAbs : Int) = n := by omega
    unfold readInt?
    simp only [cutSign_digits, readNat?_digits]
    exact congrArg some value

theorem mem_intDigits {n : Int} (member : c ∈ intDigits n) : c = '-' ∨ c.isDigit = true := by
  unfold intDigits at member
  split at member
  · rcases List.mem_cons.mp member with rfl | later
    · exact .inl rfl
    · exact .inr (isDigit_of_mem_digits later)
  · exact .inr (isDigit_of_mem_digits member)

theorem intDigits_ne_nil (n : Int) : intDigits n ≠ [] := by
  unfold intDigits
  split
  · exact List.cons_ne_nil _ _
  · exact digits_ne_nil _

theorem isBlank_of_isDigit (digit : c.isDigit = true) : Text.isBlank c = false := by
  have range : 0x30 ≤ c.toNat ∧ c.toNat ≤ 0x39 := by
    simpa [Char.isDigit, UInt32.le_iff_toNat_le] using digit
  obtain ⟨low, high⟩ := range
  simp [Text.isBlank, Text.inRanges, Text.blankRanges]
  omega

theorem trim_intDigits (n : Int) : Text.trim (intDigits n) = intDigits n := by
  have solid (c : Char) (member : c ∈ intDigits n) : Text.isBlank c = false := by
    rcases mem_intDigits member with rfl | digit
    · rfl
    · exact isBlank_of_isDigit digit
  exact Text.stripBoth_eq_self (fun c first => solid c (List.mem_of_mem_head? first))
    (fun c last => solid c (List.mem_of_getLast? last))

/-- Digits alone are a decimal number without a point and an exponent. -/
theorem Decimal.read?_digits (n : Nat) : Decimal.read? (digits n) = some ⟨false, n, 0⟩ := by
  have all : (digits n).takeWhile Char.isDigit = digits n :=
    List.takeWhile_eq_self_iff.mpr fun c member => isDigit_of_mem_digits member
  have none : (digits n).dropWhile Char.isDigit = [] :=
    List.dropWhile_eq_nil_iff.mpr fun c member => isDigit_of_mem_digits member
  unfold Decimal.read?
  rw [cutSign_digits]
  simp [all, none, digits_ne_nil, readExponent?, ofDigits_digits]

theorem Binary64.read?_digits (positive : n ≠ 0) :
    Binary64.read? (digits n) = Binary64.nearest? false n 1 := by
  have large : ¬ (400 < (0 : Int)) := by omega
  have small : ¬ ((0 : Int) + (n.log2 / 3 + 1 : Nat) < -400) := by omega
  rw [Binary64.read?, Decimal.read?_digits, Option.bind_some, Decimal.toBinary64?, if_neg positive,
    if_neg large, if_neg small, if_pos (Int.le_refl 0)]
  exact congrArg (Binary64.nearest? false · 1) (Nat.mul_one n)

end TagGrammar.Number
