import TagGrammar.Proofs.Text.Strip
import TagGrammar.Value.Sequence

namespace TagGrammar.SequenceKind

open TagGrammar.Text

variable {s t p after : List Char}

def isSpace (c : Char) : Bool := c = ' '

theorem isBlank_comma : isBlank ',' = false := by decide

theorem isSpace_comma : isSpace ',' = false := by decide

theorem tightenCommas_comma (next : s.dropWhile isSpace = ',' :: after) :
    tightenCommas s = ',' :: tightenCommas (after.dropWhile isSpace) := by
  cases s with
  | nil => cases next
  | cons c rest =>
    rw [tightenCommas]
    split
    · rename_i gone
      exact absurd (gone.symm.trans next) (List.cons_ne_nil _ _).symm
    · rename_i d after' found
      cases found.symm.trans next
      exact if_pos rfl

theorem tightenCommas_cons {c : Char} (other : ((c :: s).dropWhile isSpace).head? ≠ some ',') :
    tightenCommas (c :: s) = c :: tightenCommas s := by
  rw [tightenCommas]
  split
  · rfl
  · rename_i d after' found
    refine if_neg fun comma => other ?_
    change ((c :: s).dropWhile (· = ' ')).head? = _
    rw [found, comma]
    rfl

theorem tightenCommas_of_notMem (plain : ',' ∉ s) : tightenCommas s = s := by
  induction s with
  | nil => rw [tightenCommas]
  | cons c rest ih =>
    have other : ((c :: rest).dropWhile isSpace).head? ≠ some ',' := fun first =>
      plain ((List.dropWhile_sublist isSpace).subset (List.mem_of_mem_head? first))
    rw [tightenCommas_cons other, ih fun later => plain (List.mem_cons_of_mem c later)]

/-- A comma is tightened by itself: the spaces on its two sides are no part of another match. -/
theorem tightenCommas_append (plain : ',' ∉ p) (after : List Char) :
    tightenCommas (p ++ ',' :: after) =
      p.rdropWhile isSpace ++ ',' :: tightenCommas (after.dropWhile isSpace) := by
  induction p with
  | nil => exact tightenCommas_comma rfl
  | cons c rest ih =>
    have dropped := dropWhile_append_cons isSpace_comma (c :: rest) after
    cases kept : (c :: rest).dropWhile isSpace with
    | nil =>
      -- all of the piece belongs to the comma
      have spaces : ∀ d ∈ c :: rest, isSpace d = true := List.dropWhile_eq_nil_iff.mp kept
      rw [kept] at dropped
      rw [tightenCommas_comma dropped, List.rdropWhile_eq_nil_iff.mpr spaces]
      rfl
    | cons d more =>
      have inside : d ∈ c :: rest :=
        (List.dropWhile_sublist isSpace).subset (kept ▸ List.mem_cons_self)
      have solid : isSpace d = false := stop_of_dropWhile kept
      have other : ((c :: rest ++ ',' :: after).dropWhile isSpace).head? ≠ some ',' := by
        rw [dropped, kept]
        intro first
        cases first
        exact plain inside
      rw [List.cons_append] at other ⊢
      rw [tightenCommas_cons other, ih fun later => plain (List.mem_cons_of_mem c later),
        rdropWhile_cons inside solid]
      rfl

/-- A text is a single piece, or a piece in front of a comma and the text behind it. -/
theorem comma_induction {motive : List Char → Prop} (single : ∀ p, ',' ∉ p → motive p)
    (more : ∀ p s, ',' ∉ p → motive s → motive (p ++ ',' :: s)) (s : List Char) : motive s := by
  have whole := joinPieces_pieces ',' s
  have plain (p : List Char) (member : p ∈ pieces ',' s) : ',' ∉ p := notMem_of_mem_pieces member
  generalize pieces ',' s = ps at whole plain
  induction ps generalizing s with
  | nil => exact whole ▸ single [] List.not_mem_nil
  | cons p ps ih =>
    have first : ',' ∉ p := plain p List.mem_cons_self
    cases ps with
    | nil => exact whole ▸ single p first
    | cons q qs =>
      subst whole
      have rest := ih _ rfl fun r member => plain r (List.mem_cons_of_mem p member)
      simpa [joinPieces] using more p _ first rest

/-- Once a text has no spaces at its ends, tightening strips every piece of it. -/
theorem pieces_tightenCommas (s : List Char) :
    pieces ',' (tightenCommas (stripBoth isSpace s)) = (pieces ',' s).map (stripBoth isSpace) := by
  induction s using comma_induction with
  | single p plain =>
    have plain' : ',' ∉ stripBoth isSpace p := fun member => plain (mem_of_mem_stripBoth member)
    rw [tightenCommas_of_notMem plain', pieces_of_notMem plain', pieces_of_notMem plain]
    rfl
  | more p s plain ih =>
    have plain' : ',' ∉ p.dropWhile isSpace := fun member =>
      plain ((List.dropWhile_sublist isSpace).subset member)
    have plain'' : ',' ∉ stripBoth isSpace p := fun member => plain (mem_of_mem_stripBoth member)
    rw [stripBoth_append_cons isSpace_comma, tightenCommas_append plain', pieces_append,
      ← stripBoth_eq_dropWhile, ← stripBoth_eq, ih, pieces_append, List.map_append,
      pieces_of_notMem plain'', pieces_of_notMem plain]
    rfl

/-- The entries of a text: what stands between commas, without the spaces around it, where that is
anything at all. -/
def listed (s : List Char) : List (List Char) :=
  ((pieces ',' s).map (stripBoth isSpace)).filter (!·.isEmpty)

theorem listed_append (s t : List Char) : listed (s ++ ',' :: t) = listed s ++ listed t := by
  rw [listed, pieces_append, List.map_append, List.filter_append]
  rfl

theorem listed_of_notMem (plain : ',' ∉ s) : listed s = [stripBoth isSpace s].filter (!·.isEmpty) := by
  rw [listed, pieces_of_notMem plain]
  rfl

theorem listed_space_cons (s : List Char) : listed (' ' :: s) = listed s := by
  have split : pieces ',' (' ' :: s) = (' ' :: s.takeWhile (· ≠ ',')) :: (pieces ',' s).tail := by
    rw [pieces_eq_cons, pieces_eq_cons ',' s]
    rfl
  rw [listed, split, List.map_cons, stripBoth_cons (by decide), ← List.map_cons]
  rw [listed, pieces_eq_cons ',' s]
  rfl

theorem listed_concat_space (s : List Char) : listed (s ++ [' ']) = listed s := by
  induction s using comma_induction with
  | single p plain =>
    have plain' : ',' ∉ p ++ [' '] := by simp [plain]
    rw [listed_of_notMem plain', listed_of_notMem plain, stripBoth_concat (by decide)]
  | more p s plain ih =>
    rw [List.append_assoc, List.cons_append, listed_append, ih, listed_append]

/-- Neither a comma nor a space. -/
def isContent (c : Char) : Bool := c ≠ ',' && c ≠ ' '

/-- Nothing but commas and spaces is left out of the entries. -/
theorem filter_flatten_listed (s : List Char) :
    (listed s).flatten.filter isContent = s.filter isContent := by
  have other (c : Char) (space : isSpace c = true) : isContent c = false := by
    obtain rfl : c = ' ' := of_decide_eq_true space
    rfl
  have single (p : List Char) (plain : ',' ∉ p) :
      (listed p).flatten.filter isContent = p.filter isContent := by
    rw [listed_of_notMem plain, ← filter_stripBoth other p]
    by_cases empty : stripBoth isSpace p = [] <;> simp [empty]
  induction s using comma_induction with
  | single p plain => exact single p plain
  | more p s plain ih =>
    rw [listed_append, List.flatten_append, List.filter_append, single p plain, ih,
      List.filter_append, List.filter_cons_of_neg (by decide)]

theorem mem_listed {e : List Char} (member : e ∈ listed s) :
    e ≠ [] ∧ ',' ∉ e ∧ e.head? ≠ some ' ' ∧ e.getLast? ≠ some ' ' := by
  obtain ⟨stripped, filled⟩ := List.mem_filter.mp member
  obtain ⟨piece, inside, rfl⟩ := List.mem_map.mp stripped
  refine ⟨by simpa using filled, fun comma => ?_, fun first => ?_, fun last => ?_⟩
  · exact notMem_of_mem_pieces inside (mem_of_mem_stripBoth comma)
  · exact absurd (not_head_stripBoth isSpace piece ' ' first) (by decide)
  · exact absurd (not_getLast_stripBoth isSpace piece ' ' last) (by decide)

/-- Tightening the commas of a trimmed text leaves nothing to strip from its pieces. -/
theorem entries_eq_listed (items : List Json) : entries items = listed (joined items) := by
  have visible (c : Char) (solid : isBlank c = false) : isSpace c = false :=
    decide_eq_false fun space => by
      subst space
      cases solid
  have kept : stripBoth isSpace (joined items) = joined items :=
    stripBoth_eq_self (fun c first => visible c (not_head_stripBoth isBlank _ c first))
      (fun c last => visible c (not_getLast_stripBoth isBlank _ c last))
  rw [entries, ← kept, pieces_tightenCommas, kept]
  rfl

theorem pieces_eq_splitOn (sep : Char) (s : List Char) : pieces sep s = s.splitOn sep := by
  induction s with
  | nil => rw [pieces, List.splitOn_nil]
  | cons c rest ih =>
    rw [pieces, List.splitOn, List.splitOnP_cons_eq_if_modifyHead, ih]
    by_cases here : c = sep
    · rw [if_pos here, if_pos (beq_iff_eq.mpr here)]
      rfl
    · rw [if_neg here, if_neg (by simpa using here)]
      cases split : rest.splitOn sep with
      | nil => exact absurd split (List.splitOnP_ne_nil _ rest)
      | cons p ps =>
        rw [List.splitOn] at split
        rw [split]
        rfl

/-- A string stands in the text of a list as it is, and anything else by its compact text. The entries of
a list with commas are what stands between the commas of the trimmed text, without the spaces at the
ends and without the empty ones. None has a comma in it or a space at an end, and all characters but
commas and spaces are in them, in order. -/
theorem clean_commaSeparated_pieces (items : List Json) :
    let texts : List (List Char) := items.map fun
      | .str s => s.toList
      | other => other.text.toList
    let text := (([',', ' '].intercalate texts).dropWhile isBlank).rdropWhile isBlank
    let found := ((text.splitOn ',').map fun p => (p.dropWhile (· = ' ')).rdropWhile (· = ' ')).filter
      (!·.isEmpty)
    commaSeparated.clean items = .arr (found.map fun e => .str (String.ofList e)) ∧
    (∀ e ∈ found, e ≠ [] ∧ ',' ∉ e ∧ e.head? ≠ some ' ' ∧ e.getLast? ≠ some ' ') ∧
    found.flatten.filter isContent = text.filter isContent := by
  intro texts text found
  have same : items.map itemText = texts := by
    refine List.map_congr_left fun j _ => ?_
    cases j with
    | str s => rfl
    | _ => exact String.toList_ofList.symm
  have whole : joined items = text := by
    rw [joined, same, joinPieces_eq_intercalate]
    exact stripBoth_eq isBlank _
  have split : listed text = found := by
    rw [listed, pieces_eq_splitOn]
    simp only [funext (stripBoth_eq isSpace)]
    rfl
  refine ⟨?_, fun e member => mem_listed (split ▸ member), split ▸ filter_flatten_listed text⟩
  rw [clean, entries_eq_listed, whole, split]

/-- The commas of an item part it like those between items, also where it is no string. -/
theorem clean_commaSeparated_mixed :
    let items : List Json := [.str "\tb , ,a b", .int ⟨-5, by decide, by decide⟩, .null,
      .arr [.bool true, .str "x, y"], .obj (.ofList [("k", .null)]), .str ","]
    let words := ["b", "a b", "-5", "null", "[true", "\"x", "y\"]", "\x7b\"k\":null\x7d"]
    commaSeparated.clean items = .arr (words.map .str) := by
  intro items words
  rw [(clean_commaSeparated_pieces items).1]
  -- compared as lists of characters, which can be decided
  refine congrArg (fun found : List (List Char) => Json.arr (found.map fun e => .str (String.ofList e)))
    (?_ : _ = words.map String.toList)
  decide +kernel

end TagGrammar.SequenceKind
