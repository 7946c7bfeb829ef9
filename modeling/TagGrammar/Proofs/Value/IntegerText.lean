import TagGrammar.Proofs.Number.Rounding
import TagGrammar.Proofs.Value.Literal
import TagGrammar.Value.Basic

namespace TagGrammar

open Number (digits intDigits)

theorem Json.toList_text_int (n : JsonInt) : (Json.int n).text.toList = intDigits n.val := by
  rw [Json.text, String.toList_ofList]
  rfl

theorem JsonInt.ofSigned?_val (n : JsonInt) :
    ofSigned? n.val = if n.val < 0x8000000000000000 then some n else none := by
  have lower := n.lower
  unfold ofSigned?
  split
  · rename_i fits
    rw [if_pos fits.2]
  · rename_i wide
    rw [if_neg]
    omega

theorem JsonInt.ofSigned?_eq_none {m : Int} (large : 0x8000000000000000 ≤ m) : ofSigned? m = none :=
  dif_neg (by omega)

namespace Variable

theorem literal?_text_int (n : JsonInt) :
    literal? (Json.int n).text =
      (intLiteral? (intDigits n.val) <|> floatLiteral? (intDigits n.val)) := by
  have numeric : ∀ c ∈ (Json.int n).text.toList.head?, c = '+' ∨ c = '-' ∨ c.isDigit = true := by
    intro c first
    rw [Json.toList_text_int] at first
    exact .inr (Number.mem_intDigits (List.mem_of_mem_head? first))
  rw [literal?_of_head numeric, Json.toList_text_int]

theorem intLiteral?_intDigits (n : JsonInt) :
    intLiteral? (intDigits n.val) = if n.val < 0x8000000000000000 then some (.int n) else none := by
  rw [intLiteral?, Number.readInt?_intDigits, Option.bind_some, JsonInt.ofSigned?_val]
  split <;> rfl

theorem looksNumeric_digits (m : Nat) : looksNumeric (digits m) = true := by
  obtain ⟨c, cs, split, digit⟩ := Number.exists_digit_cons m
  have last : (digits m).getLast? ≠ some '.' := fun point =>
    absurd (Number.isDigit_of_mem_digits (List.mem_of_getLast? point)) (by decide)
  unfold looksNumeric
  rw [Number.cutSign_digits]
  simpa [split, digit] using split ▸ last

/-- An integer too large for a sign is read as a floating-point number that is not smaller. -/
theorem ofToken_text_of_large {n : JsonInt} (large : 0x8000000000000000 ≤ n.val) :
    ∃ x, ofToken (Json.int n).text = .literal (.float x) ∧ 0x8000000000000000 ≤ x.truncate := by
  have digits_eq : intDigits n.val = digits n.val.natAbs := if_neg (by omega)
  have upper := n.upper
  obtain ⟨x, near, least⟩ := Number.Binary64.exists_nearest?_of_pow_le (n := n.val.natAbs) (k := 63)
    (by decide) (by decide) (by omega) (by omega)
  refine ⟨x, ?_, by simpa using least⟩
  rw [ofToken, literal?_text_int, intLiteral?_intDigits, if_neg (by omega), digits_eq, floatLiteral?,
    if_pos (looksNumeric_digits _), Number.Binary64.read?_digits (by omega), near]
  rfl

theorem ofToken_text_of_signed {n : JsonInt} (signed : n.val < 0x8000000000000000) :
    ofToken (Json.int n).text = .literal (.int n) := by
  rw [ofToken, literal?_text_int, intLiteral?_intDigits, if_pos signed]
  rfl

end Variable

namespace ValueKind

theorem clean_integer_text (n : JsonInt) (constant : Bool) :
    integer.clean (.str (Json.int n).text) constant =
      if n.val < 0x8000000000000000 then .ok (.int n) else .error "clean" := by
  have read : cleanInteger? (.str (Json.int n).text) =
      if n.val < 0x8000000000000000 then some (.int n) else none := by
    rw [cleanInteger?, Json.toList_text_int, Number.trim_intDigits]
    split
    · rename_i nothing
      exact absurd nothing (Number.intDigits_ne_nil _)
    · rw [Number.readInt?_intDigits, Option.bind_some, JsonInt.ofSigned?_val]
      split <;> rfl
  rw [clean, read]
  by_cases signed : n.val < 0x8000000000000000 <;> simp [signed]

theorem cleanInteger?_float_of_large {x : Number.Binary64} (large : 0x8000000000000000 ≤ x.truncate) :
    cleanInteger? (.float x) = none := by
  rw [cleanInteger?, JsonInt.ofFloat?_eq, JsonInt.ofSigned?_eq_none large]
  rfl

end ValueKind

open ValueKind (integer)

/-- An integer passes as a number. Its text is read as that integer, in a variable as in a constant,
exactly when it fits 64 bits with a sign, and is refused otherwise. -/
theorem integer_text_read_iff (n : JsonInt) (lookup : String → Option Json) :
    let text := (Json.int n).text
    let raw := ((Variable.ofToken text).resolve lookup).getD .null
    (∀ constant, integer.clean (.int n) constant = .ok (.int n)) ∧
    (∀ constant, integer.clean (.str text) constant =
      if n.val < 0x8000000000000000 then .ok (.int n) else .error "clean") ∧
    (Value.resolving integer (.ofToken text)).resolve lookup .strict =
      (if n.val < 0x8000000000000000 then .ok (.int n, [])
        else .error ⟨"clean", integer.message raw "clean"⟩) ∧
    (Value.constant integer (.str text)).resolve lookup .strict =
      (if n.val < 0x8000000000000000 then .ok (.int n, [])
        else .error ⟨"clean", integer.message (.str text) "clean"⟩) := by
  intro text raw
  have cleaned := ValueKind.clean_integer_text n
  refine ⟨fun _ => rfl, cleaned, ?_, ?_⟩
  · by_cases signed : n.val < 0x8000000000000000
    · rw [if_pos signed, Variable.ofToken_text_of_signed signed]
      rfl
    · obtain ⟨x, literal, large⟩ := Variable.ofToken_text_of_large (n := n) (by omega)
      have read : raw = .float x := by simp [raw, text, literal, Variable.resolve]
      change integer.check raw false .strict = _
      rw [if_neg signed, read, ValueKind.check, ValueKind.clean,
        ValueKind.cleanInteger?_float_of_large large]
      rfl
  · change integer.check (.str text) true .strict = _
    rw [ValueKind.check, cleaned]
    by_cases signed : n.val < 0x8000000000000000 <;> simp [signed, ValueKind.fail]

theorem integer_text_refused :
    let n : JsonInt := ⟨0x8000000000000000, by decide, by decide⟩
    integer.clean (.int n) true = .ok (.int n) ∧
      (Json.int n).text = "9223372036854775808" ∧
      integer.clean (.str "9223372036854775808") true = .error "clean" := by
  refine ⟨rfl, ?_, rfl⟩
  simp [Json.text, Json.chars, intDigits, digits]

end TagGrammar
