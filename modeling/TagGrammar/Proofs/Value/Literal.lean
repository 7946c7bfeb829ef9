import TagGrammar.Proofs.Number.Grammar
import TagGrammar.Variable

namespace TagGrammar

open Number (SignText IntText FloatText)
open Number.Binary64 (Nearest signed)

theorem JsonInt.ofSigned?_eq_some_iff {m : ℤ} {n : JsonInt} :
    ofSigned? m = some n ↔ n.val = m ∧ m < 0x8000000000000000 := by
  have lower := n.lower
  unfold ofSigned?
  split
  · rename_i fits
    rw [Option.some.injEq]
    constructor
    · rintro rfl
      exact ⟨rfl, fits.2⟩
    · rintro ⟨rfl, -⟩
      rfl
  · rename_i wide
    exact iff_of_false (Option.some_ne_none n).symm fun same => wide (by omega)

theorem Bit.unquote?_eq_some_iff {bit inner : String} :
    unquote? bit = some inner ↔
      ∃ q, (q = '\x22' ∨ q = '\x27') ∧ bit.toList = q :: (inner.toList ++ [q]) := by
  have quotes (q : Char) : isQuote q = true ↔ q = '\x22' ∨ q = '\x27' := by simp [isQuote]
  simp only [unquote?, Option.map_eq_some_iff, unquoteChars?_eq_some_iff, quotes]
  constructor
  · rintro ⟨_, content, rfl⟩
    rwa [String.toList_ofList]
  · intro content
    exact ⟨_, content, String.ofList_toList⟩

namespace Variable

variable {token inner : String} {c : Char} {rest cs : List Char} {j : Json} {m : ℤ}
  {negative : Bool} {v : ℚ}

/-- The token writes the value out: as a word, as quoted text, as an integer of 64 bits with a
sign, or else as a decimal number, which stands for the nearest floating-point number. -/
inductive WritesOut (token : String) : Json → Prop
  | true (word : token = "True") : WritesOut token (.bool true)
  | false (word : token = "False") : WritesOut token (.bool false)
  | none (word : token = "None") : WritesOut token .null
  | quoted {inner : String} {q : Char} (quote : q = '\x22' ∨ q = '\x27')
      (content : token.toList = q :: (inner.toList ++ [q])) : WritesOut token (.str inner)
  | integer {n : JsonInt} (text : IntText token.toList n.val) (fits : n.val < 0x8000000000000000) :
    WritesOut token (.int n)
  | float {negative : Bool} {v : ℚ} {x : Number.Binary64} (text : FloatText token.toList negative v)
      (closed : token.toList.getLast? ≠ some '.')
      (wide : ∀ m, IntText token.toList m → ¬(-0x8000000000000000 ≤ m ∧ m < 0x8000000000000000))
      (sign : x.negative = negative) (nearest : Nearest (signed negative v) x) :
    WritesOut token (.float x)

theorem wordLiteral?_eq_some_iff :
    wordLiteral? token = some j ↔
      token = "True" ∧ j = .bool true ∨ token = "False" ∧ j = .bool false ∨
        token = "None" ∧ j = .null := by
  unfold wordLiteral?
  split_ifs with yes no nothing <;> simp [*, eq_comm]

theorem wordLiteral?_eq_none_of_head (other : ∀ c ∈ token.toList.head?, c ≠ 'T' ∧ c ≠ 'F' ∧ c ≠ 'N') :
    wordLiteral? token = none := by
  unfold wordLiteral?
  rw [if_neg, if_neg, if_neg]
  all_goals
    rintro rfl
    exact absurd (other _ rfl) (by decide)

theorem intLiteral?_eq_some_iff :
    intLiteral? cs = some j ↔
      ∃ n : JsonInt, IntText cs n.val ∧ n.val < 0x8000000000000000 ∧ j = .int n := by
  simp only [intLiteral?, Option.map_eq_some_iff, Option.bind_eq_some_iff,
    Number.readInt?_eq_some_iff, JsonInt.ofSigned?_eq_some_iff]
  constructor
  · rintro ⟨n, ⟨m, text, rfl, fits⟩, rfl⟩
    exact ⟨n, text, fits, rfl⟩
  · rintro ⟨n, text, fits, rfl⟩
    exact ⟨n, ⟨n.val, text, rfl, fits⟩, rfl⟩

theorem floatLiteral?_eq_some_iff :
    floatLiteral? cs = some j ↔
      ∃ negative v x, FloatText cs negative v ∧ cs.getLast? ≠ some '.' ∧
        x.negative = negative ∧ Nearest (signed negative v) x ∧ j = .float x := by
  simp only [floatLiteral?, looksNumeric, Option.ite_none_right_eq_some, Bool.and_eq_true, bne_iff_ne,
    Number.Binary64.read?, Option.map_eq_some_iff, Option.bind_eq_some_iff,
    Number.Decimal.toBinary64?_eq_some_iff, Number.Decimal.floatText_iff]
  constructor
  · rintro ⟨⟨first, closed⟩, x, ⟨d, read, sign, nearest⟩, rfl⟩
    exact ⟨_, _, x, ⟨first, d, read, rfl, rfl⟩, closed, sign, nearest, rfl⟩
  · rintro ⟨_, _, x, ⟨first, d, read, rfl, rfl⟩, closed, sign, nearest, rfl⟩
    exact ⟨⟨first, closed⟩, x, ⟨d, read, sign, nearest⟩, rfl⟩

theorem intLiteral?_eq_none_iff :
    intLiteral? cs = none ↔
      ∀ m, IntText cs m → ¬(-0x8000000000000000 ≤ m ∧ m < 0x8000000000000000) := by
  rw [Option.eq_none_iff_forall_ne_some]
  constructor
  · intro refused m text fits
    have upper : m < 0x10000000000000000 := by omega
    exact refused _ (intLiteral?_eq_some_iff.mpr ⟨⟨m, fits.1, upper⟩, text, fits.2, rfl⟩)
  · intro wide j read
    obtain ⟨n, text, fits, -⟩ := intLiteral?_eq_some_iff.mp read
    exact wide _ text ⟨n.lower, fits⟩

/-- What begins as a number is neither a word nor quoted. -/
theorem literal?_of_head
    (numeric : ∀ c ∈ token.toList.head?, c = '+' ∨ c = '-' ∨ c.isDigit = true) :
    literal? token = (intLiteral? token.toList <|> floatLiteral? token.toList) := by
  have no_word : wordLiteral? token = none := wordLiteral?_eq_none_of_head fun c first => by
    rcases numeric c first with rfl | rfl | digit
    · decide
    · decide
    · refine ⟨?_, ?_, ?_⟩ <;> rintro rfl <;> exact absurd digit (by decide)
  have no_quote : Bit.unquote? token = none := by
    rw [Option.eq_none_iff_forall_ne_some]
    intro inner quoted
    obtain ⟨q, rfl | rfl, content⟩ := Bit.unquote?_eq_some_iff.mp quoted
    all_goals exact absurd (numeric _ (congrArg List.head? content)) (by decide)
  rw [literal?, no_word, no_quote]
  rfl

theorem literal?_of_quoted (quoted : Bit.unquote? token = some inner) :
    literal? token = some (.str inner) := by
  obtain ⟨q, quote, content⟩ := Bit.unquote?_eq_some_iff.mp quoted
  have no_word : wordLiteral? token = none := wordLiteral?_eq_none_of_head fun c first => by
    rw [content] at first
    cases first
    rcases quote with rfl | rfl <;> decide
  rw [literal?, no_word, quoted]
  rfl

theorem literal?_eq_some_iff : literal? token = some j ↔ WritesOut token j := by
  constructor
  · intro read
    simp only [literal?, Option.orElse_eq_orElse, Option.orElse_eq_or, Option.or_eq_some_iff,
      Option.map_eq_some_iff] at read
    rcases read with word | ⟨-, ⟨inner, quoted, rfl⟩ | ⟨-, whole | ⟨no_whole, broken⟩⟩⟩
    · obtain ⟨same, rfl⟩ | ⟨same, rfl⟩ | ⟨same, rfl⟩ := wordLiteral?_eq_some_iff.mp word
      · exact .true same
      · exact .false same
      · exact .none same
    · obtain ⟨q, quote, content⟩ := Bit.unquote?_eq_some_iff.mp quoted
      exact .quoted quote content
    · obtain ⟨n, text, fits, rfl⟩ := intLiteral?_eq_some_iff.mp whole
      exact .integer text fits
    · obtain ⟨negative, v, x, text, closed, sign, nearest, rfl⟩ := floatLiteral?_eq_some_iff.mp broken
      exact .float text closed (intLiteral?_eq_none_iff.mp no_whole) sign nearest
  · rintro (rfl | rfl | rfl | ⟨quote, content⟩ | ⟨text, fits⟩ | ⟨text, closed, wide, sign, nearest⟩)
    · rfl
    · rfl
    · rfl
    · exact literal?_of_quoted (Bit.unquote?_eq_some_iff.mpr ⟨_, quote, content⟩)
    · rw [literal?_of_head text.head, intLiteral?_eq_some_iff.mpr ⟨_, text, fits, rfl⟩]
      rfl
    · rw [literal?_of_head text.head, intLiteral?_eq_none_iff.mpr wide,
        floatLiteral?_eq_some_iff.mpr ⟨_, _, _, text, closed, sign, nearest, rfl⟩]
      rfl

/-- A token is read as the one value that it writes out; where it writes out none it is looked up,
as it stands. -/
theorem ofToken_exact (token : String) :
    (∀ j, ofToken token = .literal j ↔ WritesOut token j) ∧
      ∀ path, ofToken token = .lookup path ↔ path = token ∧ ∀ j, ¬ WritesOut token j := by
  simp only [← literal?_eq_some_iff, ← Option.eq_none_iff_forall_ne_some, ofToken]
  cases literal? token <;> simp [eq_comm]

example : ["inf", "NaN", ".5", "1.", "1e999", "1_000"].map ofToken =
    ["inf", "NaN", ".5", "1.", "1e999", "1_000"].map .lookup := by
  rfl

end Variable

end TagGrammar
