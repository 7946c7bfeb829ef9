import Mathlib.Data.List.TakeWhile
import TagGrammar.Text.Snake

namespace TagGrammar.Text

def isSmallOrDigit (c : Char) : Bool := c.isLower || c.isDigit

/-- Whether a word ends at the position: a capital comes next, behind a small letter or a digit, or
between any character but a line break and a small letter. -/
def wordEnds (s : List Char) (i : Nat) : Bool :=
  s[i + 1]?.any Char.isUpper &&
    (s[i]?.any isSmallOrDigit || (s[i]?.any (· ≠ '\n') && s[i + 2]?.any Char.isLower))

/-- A text with one underscore behind each of its words but the last. -/
def markEnds (s : List Char) : List Char :=
  (s.mapIdx fun i c => if wordEnds s i then [c, '_'] else [c]).flatten

theorem markEnds_cons (c : Char) (s : List Char) :
    markEnds (c :: s) = (if wordEnds (c :: s) 0 then [c, '_'] else [c]) ++ markEnds s := by
  rw [markEnds, List.mapIdx_cons, List.flatten_cons]
  rfl

theorem markEnds_cons_of_ends {c : Char} {s : List Char} (ends : wordEnds (c :: s) 0 = true) :
    markEnds (c :: s) = c :: '_' :: markEnds s := by
  rw [markEnds_cons, if_pos ends]
  rfl

theorem markEnds_cons_of_inside {c : Char} {s : List Char} (inside : wordEnds (c :: s) 0 = false) :
    markEnds (c :: s) = c :: markEnds s := by
  rw [markEnds_cons, inside]
  rfl

theorem wordEnds_zero (c : Char) (s : List Char) :
    wordEnds (c :: s) 0 =
      (s.head?.any Char.isUpper &&
        (isSmallOrDigit c || (decide (c ≠ '\n') && s[1]?.any Char.isLower))) := by
  rw [List.head?_eq_getElem?]
  rfl

theorem isSmallOrDigit_of_isUpper {c : Char} (capital : c.isUpper) : isSmallOrDigit c = false := by
  have range : 65 ≤ c.toNat ∧ c.toNat ≤ 90 := of_decide_eq_true capital
  have below : ¬97 ≤ c.toNat := by omega
  have beyond : ¬c.toNat ≤ 57 := by omega
  have no_letter : c.isLower = false := Bool.and_eq_false_iff.mpr (.inl (decide_eq_false below))
  have no_digit : c.isDigit = false := Bool.and_eq_false_iff.mpr (.inr (decide_eq_false beyond))
  rw [isSmallOrDigit, no_letter, no_digit]
  rfl

theorem isUpper_of_isLower {c : Char} (small : c.isLower) : c.isUpper = false := by
  cases capital : c.isUpper with
  | false => rfl
  | true => simpa [isSmallOrDigit, small] using isSmallOrDigit_of_isUpper capital

theorem markCapitals_cons_of_not {c : Char} (other : isSmallOrDigit c = false) (s : List Char) :
    markCapitals (c :: s) = c :: markCapitals s := by
  cases s with
  | nil => rfl
  | cons u rest =>
    rw [markCapitals, if_neg]
    rintro ⟨small, _⟩
    simp_all [isSmallOrDigit]

theorem markCapitals_cons (c : Char) (s : List Char) :
    markCapitals (c :: s) =
      (if isSmallOrDigit c && s.head?.any Char.isUpper then [c, '_'] else [c]) ++ markCapitals s := by
  cases s with
  | nil => simp [markCapitals]
  | cons u rest =>
    by_cases cut : (c.isLower ∨ c.isDigit) ∧ u.isUpper
    · rw [markCapitals, if_pos cut, if_pos, markCapitals_cons_of_not (isSmallOrDigit_of_isUpper cut.2)]
      · rfl
      · simpa [isSmallOrDigit] using cut
    · rw [markCapitals, if_neg cut, if_neg]
      · rfl
      · simpa [isSmallOrDigit] using cut

theorem markCapitals_cons_of_next {s : List Char} (next : s.head?.any Char.isUpper = false) (c : Char) :
    markCapitals (c :: s) = c :: markCapitals s := by
  rw [markCapitals_cons, next, Bool.and_false]
  rfl

theorem head?_markWords (s : List Char) : (markWords s).head? = s.head? := by
  fun_cases markWords s <;> rfl

/-- Where a small letter or a digit decides, the second pass marks as it should in front of any text
that it marks as it should. -/
theorem markCapitals_cons_eq {c : Char} {s t : List Char}
    (decides : wordEnds (c :: s) 0 = (isSmallOrDigit c && s.head?.any Char.isUpper))
    (first : t.head? = s.head?) (marked : markCapitals t = markEnds s) :
    markCapitals (c :: t) = markEnds (c :: s) := by
  rw [markCapitals_cons, first, marked, markEnds_cons, decides]

theorem wordEnds_of_isLower {c : Char} (small : c.isLower) (s : List Char) :
    wordEnds (c :: s) 0 = (isSmallOrDigit c && s.head?.any Char.isUpper) := by
  simp [wordEnds_zero, isSmallOrDigit, small]

theorem markCapitals_letters_append {letters rest : List Char} (small : ∀ c ∈ letters, c.isLower)
    (marked : markCapitals (markWords rest) = markEnds rest) :
    markCapitals (letters ++ markWords rest) = markEnds (letters ++ rest) := by
  induction letters with
  | nil => exact marked
  | cons c more ih =>
    obtain ⟨first, others⟩ := List.forall_mem_cons.mp small
    have next : (more ++ markWords rest).head? = (more ++ rest).head? := by
      rw [List.head?_append, List.head?_append, head?_markWords]
    exact markCapitals_cons_eq (wordEnds_of_isLower first _) next (ih others)

/-- The first pass reads past whole words, and what it then misses ends in a small letter, where the
second one marks. -/
theorem markCapitals_markWords (s : List Char) : markCapitals (markWords s) = markEnds s := by
  fun_induction markWords s with
  | case1 c u l rest found ih =>
    obtain ⟨inLine, capital, small⟩ := found
    have letters : ∀ d ∈ l :: rest.takeWhile Char.isLower, d.isLower :=
      List.forall_mem_cons.mpr ⟨small, fun d member => List.mem_takeWhile_imp member⟩
    have word := markCapitals_letters_append letters ih
    rw [List.cons_append, List.cons_append, List.takeWhile_append_dropWhile] at word
    have cut : wordEnds (c :: u :: l :: rest) 0 = true := by
      simp [wordEnds_zero, inLine, capital, small]
    have uncut : wordEnds (u :: l :: rest) 0 = false := by
      simp [wordEnds_zero, isUpper_of_isLower small]
    rw [markEnds_cons_of_ends cut, markEnds_cons_of_inside uncut, ← word]
    -- a mark is no capital, no small letter and no digit: the second pass marks nothing beside it
    rw [markCapitals_cons_of_next (by rfl), markCapitals_cons_of_not (by rfl),
      markCapitals_cons_of_not (isSmallOrDigit_of_isUpper capital)]
  | case2 c u l rest other ih =>
    refine markCapitals_cons_eq ?_ (head?_markWords _) ih
    rw [wordEnds_zero]
    grind
  | case3 s short =>
    match s, short with
    | [], _ => rfl
    | [c], _ => rfl
    | [c, u], _ =>
      refine markCapitals_cons_eq ?_ rfl rfl
      simp [wordEnds_zero, Bool.and_comm]
    | c :: u :: l :: rest, short => exact absurd rfl (short c u l rest)

/-- Before its letters are made small, a name in snake case is the name with one underscore at the end
of each word but the last, and nothing else is changed. -/
theorem snakeCase_marks_word_ends (name : String) :
    let marked := markCapitals (markWords name.toList)
    snakeCase name = lowercase (String.ofList marked) ∧
    marked = (name.toList.mapIdx fun i c =>
      if wordEnds name.toList i then [c, '_'] else [c]).flatten := by
  refine ⟨?_, markCapitals_markWords name.toList⟩
  rw [lowercase, String.toList_ofList]
  rfl

example : markEnds "getHTTPResponse".toList = "get_HTTP_Response".toList := by decide

end TagGrammar.Text
