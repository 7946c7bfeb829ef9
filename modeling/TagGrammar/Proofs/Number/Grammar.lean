import Mathlib.Data.Nat.Digits.Defs
import TagGrammar.Proofs.Number.IntText
import TagGrammar.Proofs.Number.Nearest

namespace TagGrammar.Number

/-- At most one sign, and whether it is a minus. -/
inductive SignText : List Char → Bool → Prop
  | absent : SignText [] false
  | plus : SignText ['+'] false
  | minus : SignText ['-'] true

/-- The number that decimal digits stand for; the last digit counts the units. -/
def numeral (ds : List Char) : ℕ := Nat.ofDigits 10 (ds.reverse.map digitValue)

/-- At most one sign before one digit or more. -/
inductive IntText : List Char → ℤ → Prop
  | intro {s ds : List Char} {negative : Bool} (sign : SignText s negative) (filled : ds ≠ [])
      (digits : ∀ c ∈ ds, c.isDigit = true) :
    IntText (s ++ ds) (if negative then -numeral ds else numeral ds)

/-- Nothing, or a point and any number of digits. -/
inductive FractionText : List Char → List Char → Prop
  | absent : FractionText [] []
  | present {ds : List Char} (digits : ∀ c ∈ ds, c.isDigit = true) : FractionText ('.' :: ds) ds

/-- Nothing, or the letter and an integer. -/
inductive ExponentText : List Char → ℤ → Prop
  | absent : ExponentText [] 0
  | present {c : Char} {cs : List Char} {e : ℤ} (letter : c = 'e' ∨ c = 'E')
      (exponent : IntText cs e) : ExponentText (c :: cs) e

/-- A decimal number with one digit or more before the point: its sign and its size. -/
inductive FloatText : List Char → Bool → ℚ → Prop
  | intro {s whole fraction part exponent : List Char} {negative : Bool} {e : ℤ}
      (sign : SignText s negative) (filled : whole ≠ []) (digits : ∀ c ∈ whole, c.isDigit = true)
      (behind : FractionText fraction part) (power : ExponentText exponent e) :
    FloatText (s ++ (whole ++ (fraction ++ exponent))) negative
      ((numeral whole + numeral part / 10 ^ part.length) * 10 ^ e)

variable {c : Char} {s ds cs : List Char} {m : ℕ} {n e : ℤ} {negative : Bool} {v : ℚ}

theorem ofDigits_eq_numeral (ds : List Char) : ofDigits ds = numeral ds := by
  induction ds using List.reverseRecOn with
  | nil => rfl
  | append_singleton ds c ih =>
    rw [ofDigits_concat, ih, numeral, numeral, List.reverse_append, List.reverse_singleton,
      List.singleton_append, List.map_cons, Nat.ofDigits_cons, Nat.add_comm]

theorem numeral_append (whole part : List Char) :
    numeral (whole ++ part) = numeral whole * 10 ^ part.length + numeral part := by
  rw [numeral, List.reverse_append, List.map_append, Nat.ofDigits_append, List.length_map,
    List.length_reverse, Nat.add_comm, Nat.mul_comm]
  rfl

theorem readNat?_eq_some_iff :
    readNat? ds = some m ↔ ds ≠ [] ∧ (∀ c ∈ ds, c.isDigit = true) ∧ m = numeral ds := by
  rw [readNat?, ofDigits_eq_numeral, Option.ite_none_right_eq_some, Bool.and_eq_true,
    List.all_eq_true, Option.some.injEq, Bool.not_eq_true', List.isEmpty_eq_false_iff, and_assoc,
    eq_comm (a := m)]

theorem SignText.cutSign_append (sign : SignText s negative) (filled : ds ≠ [])
    (digits : ∀ c ∈ ds, c.isDigit = true) (rest : List Char) :
    cutSign (s ++ (ds ++ rest)) = (negative, ds ++ rest) := by
  obtain ⟨c, more, rfl⟩ := List.exists_cons_of_ne_nil filled
  cases sign with
  | absent => exact cutSign_of_isDigit (digits c List.mem_cons_self)
  | plus => rfl
  | minus => rfl

theorem SignText.head (sign : SignText s negative) (filled : ds ≠ [])
    (digits : ∀ c ∈ ds, c.isDigit = true) (rest : List Char) :
    ∀ c ∈ (s ++ (ds ++ rest)).head?, c = '+' ∨ c = '-' ∨ c.isDigit = true := by
  obtain ⟨d, more, rfl⟩ := List.exists_cons_of_ne_nil filled
  intro c first
  cases sign with
  | absent =>
    cases first
    exact .inr (.inr (digits _ List.mem_cons_self))
  | plus =>
    cases first
    exact .inl rfl
  | minus =>
    cases first
    exact .inr (.inl rfl)

/-- An integer begins with a sign or a digit. -/
theorem IntText.head (text : IntText cs n) :
    ∀ c ∈ cs.head?, c = '+' ∨ c = '-' ∨ c.isDigit = true := by
  obtain ⟨sign, filled, digits⟩ := text
  simpa using sign.head filled digits []

/-- A decimal number begins with a sign or a digit. -/
theorem FloatText.head (text : FloatText cs negative v) :
    ∀ c ∈ cs.head?, c = '+' ∨ c = '-' ∨ c.isDigit = true := by
  obtain ⟨sign, filled, digits, _, _⟩ := text
  exact sign.head filled digits _

theorem exists_signText (cs : List Char) : ∃ s, SignText s (cutSign cs).1 ∧ cs = s ++ (cutSign cs).2 := by
  unfold cutSign
  split
  · exact ⟨_, .minus, rfl⟩
  · exact ⟨_, .plus, rfl⟩
  · exact ⟨_, .absent, rfl⟩

theorem readInt?_eq (cs : List Char) :
    readInt? cs =
      (readNat? (cutSign cs).2).map fun m : ℕ => if (cutSign cs).1 then -(m : ℤ) else m := by
  unfold readInt?
  obtain ⟨negative, rest⟩ := cutSign cs
  cases digits : readNat? rest <;> simp [digits]

/-- The reader of integers takes exactly their texts. -/
theorem readInt?_eq_some_iff : readInt? cs = some n ↔ IntText cs n := by
  constructor
  · intro read
    obtain ⟨s, sign, text⟩ := exists_signText cs
    rw [readInt?_eq] at read
    obtain ⟨m, unsigned, rfl⟩ := Option.map_eq_some_iff.mp read
    obtain ⟨filled, digits, rfl⟩ := readNat?_eq_some_iff.mp unsigned
    conv_lhs => rw [text]
    exact .intro sign filled digits
  · rintro ⟨sign, filled, digits⟩
    have cut := sign.cutSign_append filled digits []
    rw [List.append_nil] at cut
    rw [readInt?_eq, cut, readNat?_eq_some_iff.mpr ⟨filled, digits, rfl⟩]
    rfl

theorem Decimal.readExponent?_eq_some_iff : Decimal.readExponent? cs = some e ↔ ExponentText cs e := by
  constructor
  · intro read
    cases cs with
    | nil =>
      cases read
      exact .absent
    | cons c cs =>
      obtain ⟨letter, read⟩ := Option.ite_none_right_eq_some.mp read
      exact .present letter (readInt?_eq_some_iff.mp read)
  · rintro (_ | ⟨letter, exponent⟩)
    · rfl
    · rw [Decimal.readExponent?, if_pos letter, readInt?_eq_some_iff.mpr exponent]

/-- Neither a digit nor a point comes first in an exponent. -/
theorem ExponentText.head (power : ExponentText cs e) : ∀ c ∈ cs.head?, c = 'e' ∨ c = 'E' := by
  cases power with
  | absent => nofun
  | present letter _ =>
    intro c first
    cases first
    exact letter

theorem ExponentText.not_isDigit (power : ExponentText cs e) : ∀ c ∈ cs.head?, c.isDigit = false := by
  intro c first
  rcases power.head c first with rfl | rfl <;> rfl

namespace Decimal

variable {d : Decimal} {whole fraction part exponent : List Char}

theorem takeWhile_digits (digits : ∀ c ∈ ds, c.isDigit = true)
    (stop : ∀ c ∈ cs.head?, c.isDigit = false) :
    (ds ++ cs).takeWhile Char.isDigit = ds ∧ (ds ++ cs).dropWhile Char.isDigit = cs := by
  rw [Text.takeWhile_append_of_stop stop, Text.dropWhile_append_of_stop stop,
    List.takeWhile_eq_self_iff.mpr digits, List.dropWhile_eq_nil_iff.mpr digits]
  exact ⟨rfl, rfl⟩

/-- The digits of the two parts make one numeral, and those behind the point lower the exponent. -/
theorem size_eq (negative : Bool) (whole part : List Char) (e : ℤ) :
    size ⟨negative, ofDigits (whole ++ part), e - part.length⟩ =
      (numeral whole + numeral part / 10 ^ part.length) * 10 ^ e := by
  have power : (10 : ℚ) ^ part.length ≠ 0 := pow_ne_zero _ (by norm_num)
  rw [size, ofDigits_eq_numeral, numeral_append, zpow_sub₀ (by norm_num), zpow_natCast]
  push_cast
  field_simp

theorem read?_append (sign : SignText s negative) (filled : whole ≠ [])
    (digits : ∀ c ∈ whole, c.isDigit = true) (behind : FractionText fraction part)
    (power : ExponentText exponent e) :
    read? (s ++ (whole ++ (fraction ++ exponent))) =
      some ⟨negative, ofDigits (whole ++ part), e - part.length⟩ := by
  have stop : ∀ c ∈ (fraction ++ exponent).head?, c.isDigit = false := by
    cases behind with
    | absent => exact power.not_isDigit
    | present _ => exact fun c first => by cases first; rfl
  obtain ⟨taken, left⟩ := takeWhile_digits digits stop
  unfold read?
  rw [sign.cutSign_append filled digits]
  simp only [taken, left]
  cases behind with
  | absent =>
    have no_point (rest : List Char) : exponent ≠ '.' :: rest := by
      rintro rfl
      simpa using power.head '.' rfl
    split
    · rename_i point
      exact absurd point (no_point _)
    · simp [filled, readExponent?_eq_some_iff.mpr power]
  | present digits =>
    obtain ⟨taken, left⟩ := takeWhile_digits digits power.not_isDigit
    simp [taken, left, filled, readExponent?_eq_some_iff.mpr power]

theorem exists_of_read? (read : read? cs = some d) :
    ∃ fraction part exponent e,
      (cutSign cs).2.dropWhile Char.isDigit = fraction ++ exponent ∧
      FractionText fraction part ∧ ExponentText exponent e ∧
      d = ⟨(cutSign cs).1, ofDigits ((cutSign cs).2.takeWhile Char.isDigit ++ part),
        e - part.length⟩ := by
  unfold read? at read
  simp only at read
  split at read
  · rename_i point
    obtain ⟨-, read⟩ := Option.ite_none_left_eq_some.mp read
    obtain ⟨e, power, rfl⟩ := Option.map_eq_some_iff.mp read
    refine ⟨_, _, _, e, ?_, .present fun c => List.mem_takeWhile_imp,
      readExponent?_eq_some_iff.mp power, rfl⟩
    rw [point, List.cons_append, List.takeWhile_append_dropWhile]
  · obtain ⟨-, read⟩ := Option.ite_none_left_eq_some.mp read
    obtain ⟨e, power, rfl⟩ := Option.map_eq_some_iff.mp read
    exact ⟨[], [], _, e, rfl, .absent, readExponent?_eq_some_iff.mp power, rfl⟩

/-- The reader of decimal numbers, where a digit comes first, takes exactly their texts. -/
theorem floatText_iff :
    FloatText cs negative v ↔
      (cutSign cs).2.head?.any Char.isDigit = true ∧
        ∃ d, read? cs = some d ∧ d.negative = negative ∧ d.size = v := by
  constructor
  · rintro ⟨sign, filled, digits, behind, power⟩
    refine ⟨?_, _, read?_append sign filled digits behind power, rfl, size_eq _ _ _ _⟩
    rw [sign.cutSign_append filled digits]
    obtain ⟨c, more, rfl⟩ := List.exists_cons_of_ne_nil filled
    exact digits c List.mem_cons_self
  · rintro ⟨first, d, read, rfl, rfl⟩
    obtain ⟨s, sign, text⟩ := exists_signText cs
    obtain ⟨fraction, part, exponent, e, behind, point, power, rfl⟩ := exists_of_read? read
    have filled : (cutSign cs).2.takeWhile Char.isDigit ≠ [] := by
      obtain ⟨c, more, body⟩ : ∃ c more, (cutSign cs).2 = c :: more :=
        List.exists_cons_of_ne_nil fun nothing => by simp [nothing] at first
      rw [body, List.head?_cons, Option.any_some] at first
      rw [body, List.takeWhile_cons_of_pos first]
      exact List.cons_ne_nil _ _
    have float := FloatText.intro sign filled (fun c => List.mem_takeWhile_imp) point power
    rw [← behind, List.takeWhile_append_dropWhile, ← text] at float
    rw [size_eq]
    exact float

end Decimal

end TagGrammar.Number
