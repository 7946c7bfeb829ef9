import TagGrammar.Proofs.Value.Entries

namespace TagGrammar.SequenceKind

open TagGrammar.Text

variable {a b : List Json} {m s : List Char}

/-- The text of a list before it is trimmed. -/
def written (items : List Json) : List Char := joinPieces [',', ' '] (items.map itemText)

theorem written_append (left : a ≠ []) (right : b ≠ []) :
    written (a ++ b) = written a ++ ',' :: ' ' :: written b := by
  rw [written, List.map_append, joinPieces_append _ (by simpa using left) (by simpa using right),
    List.append_assoc]
  rfl

/-- The blanks in front of the first character that can be seen. -/
def leading (s : List Char) : List Char := (s.rdropWhile isBlank).takeWhile isBlank

/-- The blanks behind the last character that can be seen. -/
def trailing (s : List Char) : List Char := (s.dropWhile isBlank).rtakeWhile isBlank

theorem trim_append_trailing (s : List Char) : trim s ++ trailing s = s.dropWhile isBlank :=
  List.rdropWhile_append_rtakeWhile

theorem leading_append_trim (s : List Char) : leading s ++ trim s = s.rdropWhile isBlank := by
  rw [trim, stripBoth_eq_dropWhile]
  exact List.takeWhile_append_dropWhile

theorem listed_append_spaces (spaces : ∀ c ∈ m, c = ' ') (s : List Char) :
    listed (s ++ m) = listed s := by
  induction m generalizing s with
  | nil => rw [List.append_nil]
  | cons c rest ih =>
    obtain ⟨rfl, later⟩ := List.forall_mem_cons.mp spaces
    rw [List.append_cons, ih later, listed_concat_space]

theorem listed_spaces_append (spaces : ∀ c ∈ m, c = ' ') (s : List Char) :
    listed (m ++ s) = listed s := by
  induction m with
  | nil => rfl
  | cons c rest ih =>
    obtain ⟨rfl, later⟩ := List.forall_mem_cons.mp spaces
    rw [List.cons_append, listed_space_cons, ih later]

theorem listed_rdropWhile_space_cons (s : List Char) :
    listed ((' ' :: s).rdropWhile isBlank) = listed (s.rdropWhile isBlank) := by
  by_cases blank : ∀ c ∈ s, isBlank c = true
  · have all : ∀ c ∈ ' ' :: s, isBlank c = true := List.forall_mem_cons.mpr ⟨rfl, blank⟩
    rw [List.rdropWhile_eq_nil_iff.mpr all, List.rdropWhile_eq_nil_iff.mpr blank]
  · push Not at blank
    obtain ⟨c, member, visible⟩ := blank
    rw [rdropWhile_cons (List.mem_cons_of_mem _ member) (by simpa using visible), listed_space_cons]

/-- Of two lists together only the outer ends are trimmed. -/
theorem entries_append (left : a ≠ []) (right : b ≠ []) :
    entries (a ++ b) =
      listed ((written a).dropWhile isBlank) ++ listed ((written b).rdropWhile isBlank) := by
  have seam : joined (a ++ b) =
      (written a).dropWhile isBlank ++ ',' :: (' ' :: written b).rdropWhile isBlank := by
    change stripBoth isBlank (written (a ++ b)) = _
    rw [written_append left right, stripBoth_append_cons isBlank_comma]
  rw [entries_eq_listed, seam, listed_append, listed_rdropWhile_space_cons]

theorem spaces_of_filter_eq_nil (blank : ∀ c ∈ m, isBlank c = true)
    (none : m.filter isContent = []) : ∀ c ∈ m, c = ' ' := by
  intro c member
  have other := List.filter_eq_nil_iff.mp none c member
  have comma : c ≠ ',' := by
    rintro rfl
    exact absurd (blank _ member) (by decide)
  simpa [isContent, comma] using other

/-- The entries on the two sides of a seam are those of the two lists, unless trimming takes other
blanks than spaces there: these would be part of an entry. -/
theorem listed_seam_iff (s t : List Char) :
    listed (s.dropWhile isBlank) ++ listed (t.rdropWhile isBlank) = listed (trim s) ++ listed (trim t) ↔
      (∀ c ∈ trailing s, c = ' ') ∧ ∀ c ∈ leading t, c = ' ' := by
  rw [← trim_append_trailing, ← leading_append_trim]
  constructor
  · intro same
    have count := congrArg (fun es => (es.flatten.filter isContent).length) same
    simp only [List.flatten_append, List.filter_append, filter_flatten_listed,
      List.length_append] at count
    have behind : (trailing s).filter isContent = [] := List.length_eq_zero_iff.mp (by omega)
    have front : (leading t).filter isContent = [] := List.length_eq_zero_iff.mp (by omega)
    exact ⟨spaces_of_filter_eq_nil (fun _ => List.mem_rtakeWhile_imp) behind,
      spaces_of_filter_eq_nil (fun _ => List.mem_takeWhile_imp) front⟩
  · rintro ⟨behind, front⟩
    rw [listed_append_spaces behind, listed_spaces_append front]

theorem entries_nil : entries [] = [] := entries_eq_listed []

theorem entries_append_iff (a b : List Json) :
    entries (a ++ b) = entries a ++ entries b ↔ a = [] ∨ b = [] ∨
      (∀ c ∈ trailing (written a), c = ' ') ∧ ∀ c ∈ leading (written b), c = ' ' := by
  by_cases left : a = []
  · subst left
    exact iff_of_true (by rw [entries_nil]; rfl) (.inl rfl)
  by_cases right : b = []
  · subst right
    exact iff_of_true (by rw [entries_nil, List.append_nil, List.append_nil]) (.inr (.inl rfl))
  rw [entries_append left right, or_iff_right left, or_iff_right right, ← listed_seam_iff]
  rw [entries_eq_listed, entries_eq_listed]
  rfl

theorem entry_injective : Function.Injective fun e => Json.str (String.ofList e) := by
  intro e e' same
  exact String.ofList_injective (Json.str.inj same)

/-- How words are grouped into items does not matter to a list with commas exactly when no blanks but
spaces stand at the inner ends of the two groups. -/
theorem clean_append_iff (a b : List Json) :
    ∃ xs ys, commaSeparated.clean a = .arr xs ∧ commaSeparated.clean b = .arr ys ∧
      (commaSeparated.clean (a ++ b) = .arr (xs ++ ys) ↔ a = [] ∨ b = [] ∨
        (∀ c ∈ trailing (written a), c = ' ') ∧ ∀ c ∈ leading (written b), c = ' ') := by
  refine ⟨_, _, rfl, rfl, ?_⟩
  rw [← entries_append_iff, ← List.map_append, clean, Json.arr.injEq,
    (List.map_injective_iff.mpr entry_injective).eq_iff]

/-- A tab at the end of a group is trimmed there, but kept where another word follows. -/
theorem clean_append_tab :
    commaSeparated.clean [.str "a\t"] = .arr [.str "a"] ∧
    commaSeparated.clean [.str "b"] = .arr [.str "b"] ∧
    commaSeparated.clean ([.str "a\t"] ++ [.str "b"]) = .arr [.str "a\t", .str "b"] ∧
    commaSeparated.clean ([.str "a\t"] ++ [.str "b"]) ≠ .arr ([.str "a"] ++ [.str "b"]) := by
  have together : commaSeparated.clean ([.str "a\t"] ++ [.str "b"]) = .arr [.str "a\t", .str "b"] := by
    rw [clean, entries_eq_listed]
    rfl
  refine ⟨?_, ?_, together, ?_⟩
  · rw [clean, entries_eq_listed]
    rfl
  · rw [clean, entries_eq_listed]
    rfl
  · rw [together]
    simp

end TagGrammar.SequenceKind
