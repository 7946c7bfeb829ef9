import TagGrammar.Proofs.Value.Literal
import TagGrammar.Proofs.Value.Modes

namespace TagGrammar

open Number (IntText towardZero)
open Text (isBlank)

variable {s : String} {cs w : List Char} {j raw : Json} {m : ℤ}

theorem JsonInt.ofSigned?_eq_dite (m : ℤ) :
    ofSigned? m = if fits : -0x8000000000000000 ≤ m ∧ m < 0x8000000000000000 then
      some ⟨m, fits.1, Int.lt_trans fits.2 (by decide)⟩ else none := rfl

namespace Number

theorem IntText.not_isBlank (text : IntText cs m) : ∀ c ∈ cs, isBlank c = false := by
  obtain ⟨sign, -, digits⟩ := text
  intro c member
  rcases List.mem_append.mp member with front | digit
  · cases sign with
    | absent => cases front
    | plus => cases List.mem_singleton.mp front; rfl
    | minus => cases List.mem_singleton.mp front; rfl
  · exact isBlank_of_isDigit (digits c digit)

theorem IntText.ne_nil (text : IntText cs m) : cs ≠ [] := by
  obtain ⟨-, filled, -⟩ := text
  exact List.append_ne_nil_of_right_ne_nil _ filled

end Number

namespace ValueKind

theorem clean_integer_eq (raw : Json) (constant : Bool) :
    integer.clean raw constant = (cleanInteger? raw).elim (.error "clean") .ok := by
  rw [clean]
  cases cleanInteger? raw <;> rfl

theorem clean_integer_eq_ok_iff {constant : Bool} :
    integer.clean raw constant = .ok j ↔ cleanInteger? raw = some j := by
  rw [clean_integer_eq]
  cases cleanInteger? raw <;> simp

/-- Once clean, a value stays as it is. -/
theorem cleanInteger?_of_clean (whole : j = .null ∨ ∃ n, j = .int n) : cleanInteger? j = some j := by
  obtain rfl | ⟨n, rfl⟩ := whole <;> rfl

theorem clean_integer_float (x : Number.Binary64) (constant : Bool) :
    integer.clean (.float x) constant =
      if fits : -0x8000000000000000 ≤ towardZero x.toRat ∧ towardZero x.toRat < 0x8000000000000000 then
        .ok (.int ⟨towardZero x.toRat, fits.1, Int.lt_trans fits.2 (by decide)⟩)
      else .error "clean" := by
  rw [clean_integer_eq, cleanInteger?, JsonInt.ofFloat?_eq, Number.Binary64.truncate_eq,
    JsonInt.ofSigned?_eq_dite]
  split <;> rfl

theorem cleanInteger?_str_eq_some_iff :
    cleanInteger? (.str s) = some j ↔
      Text.trim s.toList = [] ∧ j = .null ∨
        ∃ n : JsonInt, IntText (Text.trim s.toList) n.val ∧ n.val < 0x8000000000000000 ∧
          j = .int n := by
  rw [cleanInteger?]
  split
  · rename_i nothing
    have no_text : ¬ ∃ n : JsonInt, IntText [] n.val ∧ n.val < 0x8000000000000000 ∧ j = .int n := by
      rintro ⟨n, text, -⟩
      exact text.ne_nil rfl
    rw [nothing, or_iff_left no_text, Option.some.injEq, eq_comm (a := j)]
    exact (and_iff_right rfl).symm
  · rename_i filled
    rw [or_iff_right fun empty => filled empty.1]
    exact Variable.intLiteral?_eq_some_iff

/-- The text of an integer has no blanks in it, so it is what stripping leaves of it and the blanks
around it. -/
theorem trim_eq_of_intText (text : IntText w m) :
    Text.trim cs = w ↔ ∃ before behind, cs = before ++ (w ++ behind) ∧
      (∀ c ∈ before, isBlank c = true) ∧ ∀ c ∈ behind, isBlank c = true :=
  Text.stripBoth_eq_iff (fun c first => text.not_isBlank c (List.mem_of_mem_head? first))
    fun c last => text.not_isBlank c (List.mem_of_getLast? last)

theorem clean_integer_str (s : String) (j : Json) (constant : Bool) :
    integer.clean (.str s) constant = .ok j ↔
      (∀ c ∈ s.toList, isBlank c = true) ∧ j = .null ∨
        ∃ before text behind, ∃ n : JsonInt, s.toList = before ++ (text ++ behind) ∧
          (∀ c ∈ before, isBlank c = true) ∧ (∀ c ∈ behind, isBlank c = true) ∧
          IntText text n.val ∧ n.val < 0x8000000000000000 ∧ j = .int n := by
  have blank : Text.trim s.toList = [] ↔ ∀ c ∈ s.toList, isBlank c = true :=
    Text.stripBoth_eq_nil_iff
  rw [clean_integer_eq_ok_iff, cleanInteger?_str_eq_some_iff, blank]
  refine or_congr_right ⟨?_, ?_⟩
  · rintro ⟨n, text, fits, made⟩
    obtain ⟨before, behind, around, front, back⟩ := (trim_eq_of_intText text).mp rfl
    exact ⟨before, _, behind, n, around, front, back, text, fits, made⟩
  · rintro ⟨before, text, behind, n, around, front, back, digits, fits, made⟩
    have left := (trim_eq_of_intText digits).mpr ⟨before, behind, around, front, back⟩
    exact ⟨n, left ▸ digits, fits, made⟩

/-- Cleaning to an integer is exact: an integer stays, a floating-point number loses its places
behind the point and has to fit 64 bits with a sign, and so does an integer as text, which may have
blanks around it; blank text is nothing, and lists and objects are refused. -/
theorem clean_integer_exact (constant : Bool) :
    (∀ raw j, integer.clean raw constant = .ok j →
      (j = .null ∨ ∃ n : JsonInt, j = .int n ∧
        -0x8000000000000000 ≤ n.val ∧ n.val < 0x10000000000000000) ∧
      ∀ again, integer.clean j again = .ok j) ∧
    (∀ n, integer.clean (.int n) constant = .ok (.int n)) ∧
    (∀ x, integer.clean (.float x) constant =
      if fits : -0x8000000000000000 ≤ towardZero x.toRat ∧ towardZero x.toRat < 0x8000000000000000 then
        .ok (.int ⟨towardZero x.toRat, fits.1, Int.lt_trans fits.2 (by decide)⟩)
      else .error "clean") ∧
    (∀ s j, integer.clean (.str s) constant = .ok j ↔
      (∀ c ∈ s.toList, isBlank c = true) ∧ j = .null ∨
        ∃ before text behind, ∃ n : JsonInt, s.toList = before ++ (text ++ behind) ∧
          (∀ c ∈ before, isBlank c = true) ∧ (∀ c ∈ behind, isBlank c = true) ∧
          IntText text n.val ∧ n.val < 0x8000000000000000 ∧ j = .int n) ∧
    (∀ items, integer.clean (.arr items) constant = .error "clean") ∧
    ∀ fields, integer.clean (.obj fields) constant = .error "clean" := by
  refine ⟨fun raw j cleaned => ?_, fun _ => rfl, fun x => clean_integer_float x constant,
    fun s j => clean_integer_str s j constant, fun _ => rfl, fun _ => rfl⟩
  have whole := clean_integer cleaned
  refine ⟨?_, fun again => clean_integer_eq_ok_iff.mpr (cleanInteger?_of_clean whole)⟩
  exact whole.imp_right fun ⟨n, made⟩ => ⟨n, made, n.lower, n.upper⟩

theorem cleanString_origin_iff (raw : Json) :
    cleanString raw false = cleanString raw true ↔ raw ≠ .str "" := by
  cases raw with
  | str s =>
    by_cases empty : s = ""
    · subst empty
      exact iff_of_false nofun fun other => other rfl
    · have filled : s.isEmpty = false := by simpa using empty
      refine iff_of_true ?_ (by simpa using empty)
      rw [cleanString, cleanString, filled]
      rfl
  | null | bool _ | int _ | float _ | arr _ | obj _ => exact iff_of_true rfl nofun

/-- For the empty text alone, read as text, it matters whether it is a constant. -/
theorem check_origin_iff (kind : ValueKind) (raw : Json) (mode : ErrorMode) :
    kind.check raw false mode = kind.check raw true mode ↔ ¬(kind = .string ∧ raw = .str "") := by
  cases kind with
  | integer => exact iff_of_true rfl nofun
  | string =>
    have cleaned (constant : Bool) :
        string.check raw constant mode = .ok (cleanString raw constant, []) := rfl
    rw [cleaned, cleaned, Except.ok.injEq, Prod.mk.injEq, cleanString_origin_iff]
    simp

end ValueKind

namespace Value

variable {token inner : String}

theorem resolve_quoted (quoted : Bit.unquote? token = some inner) (kind : ValueKind)
    (lookup : String → Option Json) (mode : ErrorMode) :
    (resolving kind (.ofToken token)).resolve lookup mode = kind.check (.str inner) false mode := by
  rw [Value.resolve, Variable.ofToken, Variable.literal?_of_quoted quoted]
  rfl

/-- A quoted token amounts to the constant between its quotes, with one exception: as text, two
quotes with nothing between them are resolved to nothing, and the constant stays empty text. -/
theorem quoted_alike_iff (quoted : Bit.unquote? token = some inner) (kind : ValueKind)
    (lookup : String → Option Json) (mode : ErrorMode) :
    let captured := (resolving kind (.ofToken token)).resolve lookup mode
    let written := (constant kind (.str inner)).resolve lookup mode
    (captured = written ↔ ¬(kind = .string ∧ inner = "")) ∧
      (kind = .string → inner = "" → captured = .ok (.null, []) ∧ written = .ok (.str "", [])) := by
  intro captured written
  have resolved : captured = kind.check (.str inner) false mode := resolve_quoted quoted kind lookup mode
  refine ⟨?_, ?_⟩
  · rw [resolved]
    exact (ValueKind.check_origin_iff kind (.str inner) mode).trans (by rw [Json.str.injEq])
  · rintro rfl rfl
    exact ⟨resolved, rfl⟩

theorem quoted_alike_word :
    Bit.unquote? "'a b'" = some "a b" ∧
      (resolving .string (.ofToken "'a b'")).resolve (fun _ => none) .strict =
        (constant .string (.str "a b")).resolve (fun _ => none) .strict :=
  have quoted : Bit.unquote? "'a b'" = some "a b" := rfl
  ⟨quoted, (quoted_alike_iff quoted .string (fun _ => none) .strict).1.mpr (by decide)⟩

/-- Two quotes are taken for an empty text that was looked up. -/
theorem quoted_empty_lost :
    let captured := (resolving .string (.ofToken "\x22\x22")).resolve (fun _ => none) .strict
    let written := (constant .string (.str "")).resolve (fun _ => none) .strict
    Bit.unquote? "\x22\x22" = some "" ∧ captured = .ok (.null, []) ∧
      written = .ok (.str "", []) ∧ captured ≠ written :=
  ⟨rfl, rfl, rfl, nofun⟩

end Value

end TagGrammar
