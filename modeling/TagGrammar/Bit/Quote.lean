namespace TagGrammar.Bit

def isQuote (c : Char) : Bool := c == '\x22' || c == '\x27'

/-- What stands between two equal quotes that enclose all of `s`. -/
def unquoteChars? : List Char → Option (List Char)
  | q :: rest => if isQuote q && rest.getLast? == some q then some rest.dropLast else none
  | [] => none

def unquote? (bit : String) : Option String := (unquoteChars? bit.toList).map String.ofList

theorem unquoteChars?_eq_some_iff {s inner : List Char} :
    unquoteChars? s = some inner ↔ ∃ q, isQuote q = true ∧ s = q :: (inner ++ [q]) := by
  cases s with
  | nil => simp [unquoteChars?]
  | cons q rest =>
    simp only [unquoteChars?, Option.ite_none_right_eq_some, Bool.and_eq_true, beq_iff_eq,
      Option.some.injEq, List.cons.injEq]
    constructor
    · rintro ⟨⟨hq, hlast⟩, rfl⟩
      obtain ⟨ys, rfl⟩ := List.getLast?_eq_some_iff.1 hlast
      exact ⟨q, hq, rfl, by simp⟩
    · rintro ⟨q', hq, rfl, rfl⟩
      simp [hq]

end TagGrammar.Bit
