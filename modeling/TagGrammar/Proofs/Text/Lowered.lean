import TagGrammar.Text.Lowercase

namespace TagGrammar.Text

namespace CaseRun

def smallFirst (r : CaseRun) : Nat := (r.first + r.offset).toNat

def smallLast (r : CaseRun) : Nat := (r.last + r.offset).toNat

/-- No small letter of one run is a capital of the other: they lie apart, or alternate with them. -/
def apart (r q : CaseRun) : Bool :=
  -- in numbers and truth values alone, as every pair of runs has to be computed
  Nat.blt r.smallLast q.first || Nat.blt q.last r.smallFirst ||
    (Nat.beq q.step 2 && (Nat.beq r.step 2 || Nat.beq r.first r.last) &&
      Nat.blt 0 r.smallFirst && !Nat.beq (r.smallFirst % 2) (q.first % 2))

theorem has_iff {r : CaseRun} {n : Nat} :
    r.has n = true ↔ r.first ≤ n ∧ n ≤ r.last ∧ (n - r.first) % r.step = 0 := by
  simp [has, and_assoc]

theorem has_eq_false_of_apart {r q : CaseRun} (separate : r.apart q = true) {n : Nat}
    (own : r.has n = true) : q.has (n + r.offset).toNat = false := by
  cases other : q.has (n + r.offset).toNat with
  | false => rfl
  | true =>
    simp only [apart, smallFirst, smallLast, Bool.or_eq_true, Bool.and_eq_true, Nat.blt_eq, Nat.beq_eq,
      Bool.not_eq_true', ← Bool.not_eq_true] at separate
    obtain ⟨first, last, place⟩ := has_iff.mp own
    obtain ⟨first', last', place'⟩ := has_iff.mp other
    rcases separate with (before | behind) | ⟨⟨⟨step, own_step | single⟩, positive⟩, odd⟩
    · omega
    · omega
    · rw [step] at place'
      rw [own_step] at place
      omega
    · rw [step] at place'
      omega

end CaseRun

/-- The capital I with a dot, as a run of its own. -/
def dottedRun : CaseRun := ⟨0x130, 0x130, 1, 0⟩

theorem caseRuns_apart : ∀ r ∈ caseRuns, ∀ q ∈ dottedRun :: caseRuns, r.apart q = true := by
  have checked : (caseRuns.all fun r => (dottedRun :: caseRuns).all r.apart) = true := by decide +kernel
  intro r member q member'
  exact List.all_eq_true.mp (List.all_eq_true.mp checked r member) q member'

theorem caseRuns_pos : ∀ q ∈ dottedRun :: caseRuns, 0 < q.first := by decide +kernel

/-- A character that no small form replaces. -/
def IsSmall (c : Char) : Prop := ∀ q ∈ dottedRun :: caseRuns, q.has c.toNat = false

instance (c : Char) : Decidable (IsSmall c) := by
  unfold IsSmall
  infer_instance

theorem IsSmall.lowerChar_eq {c : Char} (small : IsSmall c) : lowerChar c = [c] := by
  obtain ⟨undotted, others⟩ := List.forall_mem_cons.mp small
  have plain : c ≠ '\u0130' := by
    rintro rfl
    exact absurd undotted (by decide)
  have unfound : caseRuns.find? (·.has c.toNat) = none :=
    List.find?_eq_none.mpr fun q member => by simp [others q member]
  rw [lowerChar, if_neg plain, smallLetter, unfound]

theorem IsSmall.ne_sigma {c : Char} (small : IsSmall c) : c ≠ '\u03a3' := by
  rintro rfl
  exact absurd small (by decide)

theorem isSmall_of_unfound {c : Char} (plain : c ≠ '\u0130')
    (unfound : caseRuns.find? (·.has c.toNat) = none) : IsSmall c := by
  refine List.forall_mem_cons.mpr ⟨?_, fun q member => ?_⟩
  · cases dotted : dottedRun.has c.toNat with
    | false => rfl
    | true =>
      obtain ⟨first, last, _⟩ := CaseRun.has_iff.mp dotted
      have code : c.toNat = ('\u0130').toNat := Nat.le_antisymm last first
      exact absurd (Char.toNat_inj.mp code) plain
  · simpa using List.find?_eq_none.mp unfound q member

/-- A number beyond the characters stands for the first one, which is no capital. -/
theorem has_toNat_ofNat {q : CaseRun} (member : q ∈ dottedRun :: caseRuns) {n : Nat}
    (apart : q.has n = false) : q.has (Char.ofNat n).toNat = false := by
  by_cases valid : n.isValidChar
  · have same : Char.ofNat n = Char.ofNatAux n valid := dif_pos valid
    rw [same]
    exact apart
  · have zero : (Char.ofNat n).toNat = 0 := congrArg Char.toNat (dif_neg valid)
    rw [zero, ← Bool.not_eq_true]
    intro held
    exact Nat.not_le_of_lt (caseRuns_pos q member) (CaseRun.has_iff.mp held).1

theorem isSmall_smallLetter {c : Char} (plain : c ≠ '\u0130') : IsSmall (smallLetter c) := by
  rw [smallLetter]
  cases found : caseRuns.find? (·.has c.toNat) with
  | none => exact isSmall_of_unfound plain found
  | some r =>
    have own := List.find?_some found
    have known : r ∈ caseRuns := List.mem_of_find?_eq_some found
    intro q member
    exact has_toNat_ofNat member (CaseRun.has_eq_false_of_apart (caseRuns_apart r known q member) own)

theorem isSmall_of_mem_lowerChar {c d : Char} (member : d ∈ lowerChar c) : IsSmall d := by
  rw [lowerChar] at member
  split at member
  · rcases List.mem_cons.mp member with rfl | member
    · decide +kernel
    · cases List.mem_singleton.mp member
      decide +kernel
  · rename_i plain
    cases List.mem_singleton.mp member
    exact isSmall_smallLetter plain

theorem isSmall_lowerSigma (before after : List Char) : IsSmall (lowerSigma before after) := by
  rw [lowerSigma]
  split <;> decide +kernel

theorem isSmall_of_mem_lowerFrom {before s : List Char} {d : Char} (member : d ∈ lowerFrom before s) :
    IsSmall d := by
  induction s generalizing before with
  | nil => cases member
  | cons c after ih =>
    rcases List.mem_append.mp member with here | later
    · split at here
      · cases List.mem_singleton.mp here
        exact isSmall_lowerSigma before after
      · exact isSmall_of_mem_lowerChar here
    · exact ih later

theorem lowerFrom_eq_self {s : List Char} (small : ∀ c ∈ s, IsSmall c) (before : List Char) :
    lowerFrom before s = s := by
  induction s generalizing before with
  | nil => rfl
  | cons c after ih =>
    obtain ⟨first, others⟩ := List.forall_mem_cons.mp small
    rw [lowerFrom, if_neg first.ne_sigma, first.lowerChar_eq, ih others]
    rfl

/-- What was lowered is in small letters: a final sigma stays one, as no capital sigma is left. -/
theorem lowercase_lowercase (s : String) : lowercase (lowercase s) = lowercase s := by
  have small : ∀ c ∈ lowerChars s.toList, IsSmall c := fun _ member => isSmall_of_mem_lowerFrom member
  rw [lowercase, lowercase, String.toList_ofList]
  exact congrArg String.ofList (lowerFrom_eq_self small [])

end TagGrammar.Text
