import Mathlib.Data.List.DropRight
import TagGrammar.Text.Blank

namespace TagGrammar.Text

variable {p : Char → Bool} {c : Char} {s w rest before behind : List Char}

theorem takeWhile_append_of_stop (stop : ∀ c ∈ rest.head?, p c = false) :
    (w ++ rest).takeWhile p = w.takeWhile p := by
  have nothing : rest.takeWhile p = [] := by
    cases rest with
    | nil => rfl
    | cons c rest => exact List.takeWhile_cons_of_neg (by simp [stop c rfl])
  rw [List.takeWhile_append, nothing, List.append_nil]
  split
  · rename_i all
    exact ((List.takeWhile_prefix p).eq_of_length all).symm
  · rfl

theorem dropWhile_append_of_stop (stop : ∀ c ∈ rest.head?, p c = false) :
    (w ++ rest).dropWhile p = w.dropWhile p ++ rest := by
  have all : rest.dropWhile p = rest := by
    cases rest with
    | nil => rfl
    | cons c rest => exact List.dropWhile_cons_of_neg (by simp [stop c rfl])
  rw [List.dropWhile_append, all]
  split
  · rename_i nothing
    rw [List.isEmpty_iff.mp nothing, List.nil_append]
  · rfl

theorem stop_of_dropWhile (kept : s.dropWhile p = c :: rest) : p c = false := by
  have first := List.head?_dropWhile_not p s
  rwa [kept] at first

theorem dropWhile_append_cons (stop : p c = false) (s t : List Char) :
    (s ++ c :: t).dropWhile p = s.dropWhile p ++ c :: t :=
  dropWhile_append_of_stop fun d first => by cases first; exact stop

theorem rdropWhile_append_cons (stop : p c = false) (s t : List Char) :
    (s ++ c :: t).rdropWhile p = s ++ c :: t.rdropWhile p := by
  rw [List.rdropWhile, List.reverse_append, List.reverse_cons, List.append_assoc,
    List.singleton_append, dropWhile_append_cons stop]
  simp [List.rdropWhile]

theorem rdropWhile_cons {d : Char} (member : d ∈ c :: s) (stop : p d = false) :
    (c :: s).rdropWhile p = c :: s.rdropWhile p := by
  rcases List.mem_cons.mp member with rfl | later
  · exact rdropWhile_append_cons stop [] s
  · obtain ⟨before, behind, rfl⟩ := List.append_of_mem later
    rw [← List.cons_append, rdropWhile_append_cons stop, rdropWhile_append_cons stop]
    rfl

theorem stripBoth_eq (p : Char → Bool) (s : List Char) :
    stripBoth p s = (s.dropWhile p).rdropWhile p := rfl

theorem mem_of_mem_stripBoth (member : c ∈ stripBoth p s) : c ∈ s :=
  (List.dropWhile_sublist p).subset ((List.rdropWhile_prefix p _).subset member)

theorem stripBoth_append_cons (stop : p c = false) (s t : List Char) :
    stripBoth p (s ++ c :: t) = s.dropWhile p ++ c :: t.rdropWhile p := by
  rw [stripBoth_eq, dropWhile_append_cons stop, rdropWhile_append_cons stop]

/-- The two ends can be stripped in either order. -/
theorem stripBoth_eq_dropWhile (p : Char → Bool) (s : List Char) :
    stripBoth p s = (s.rdropWhile p).dropWhile p := by
  rw [stripBoth_eq]
  cases kept : s.dropWhile p with
  | nil =>
    have all : ∀ c ∈ s, p c = true := List.dropWhile_eq_nil_iff.mp kept
    rw [List.rdropWhile_eq_nil_iff.mpr all]
    rfl
  | cons c t =>
    have stop : p c = false := stop_of_dropWhile kept
    have whole : s.takeWhile p ++ c :: t = s := kept ▸ List.takeWhile_append_dropWhile
    have gone : (s.takeWhile p).dropWhile p = [] :=
      List.dropWhile_eq_nil_iff.mpr fun d member => List.mem_takeWhile_imp member
    conv_rhs => rw [← whole]
    rw [rdropWhile_append_cons stop, dropWhile_append_cons stop, gone]
    exact rdropWhile_append_cons stop [] t

theorem stripBoth_cons (gone : p c = true) (s : List Char) : stripBoth p (c :: s) = stripBoth p s := by
  rw [stripBoth_eq, List.dropWhile_cons_of_pos gone, stripBoth_eq]

theorem stripBoth_concat (gone : p c = true) (s : List Char) :
    stripBoth p (s ++ [c]) = stripBoth p s := by
  rw [stripBoth_eq_dropWhile, stripBoth_eq_dropWhile, List.rdropWhile_concat_pos p s c gone]

theorem not_head_stripBoth (p : Char → Bool) (s : List Char) :
    ∀ c ∈ (stripBoth p s).head?, p c = false := by
  intro c first
  have kept := List.head?_dropWhile_not p (s.rdropWhile p)
  rw [stripBoth_eq_dropWhile] at first
  rwa [first] at kept

theorem not_getLast_stripBoth (p : Char → Bool) (s : List Char) :
    ∀ c ∈ (stripBoth p s).getLast?, p c = false := by
  intro c last
  rw [stripBoth, List.getLast?_reverse] at last
  have kept := List.head?_dropWhile_not p (s.dropWhile p).reverse
  rwa [last] at kept

theorem stripBoth_eq_self (first : ∀ c ∈ s.head?, p c = false)
    (last : ∀ c ∈ s.getLast?, p c = false) : stripBoth p s = s := by
  have front : s.dropWhile p = s := by
    cases s with
    | nil => rfl
    | cons c t => exact List.dropWhile_cons_of_neg (by simp [first c rfl])
  rw [stripBoth_eq, front, List.rdropWhile_eq_self_iff]
  intro filled
  simp [last _ (List.getLast_mem_getLast? filled)]

theorem stripBoth_append_left (gone : ∀ c ∈ before, p c = true) (s : List Char) :
    stripBoth p (before ++ s) = stripBoth p s := by
  rw [stripBoth_eq, List.dropWhile_append, List.dropWhile_eq_nil_iff.mpr gone]
  rfl

theorem stripBoth_append_right (gone : ∀ c ∈ behind, p c = true) (s : List Char) :
    stripBoth p (s ++ behind) = stripBoth p s := by
  induction behind using List.reverseRecOn with
  | nil => rw [List.append_nil]
  | append_singleton behind c ih =>
    have last : p c = true := gone c (by simp)
    rw [← List.append_assoc, stripBoth_concat last]
    exact ih fun d member => gone d (List.mem_append_left _ member)

/-- Only such characters are taken off. -/
theorem exists_around_stripBoth (p : Char → Bool) (s : List Char) :
    ∃ before behind, s = before ++ (stripBoth p s ++ behind) ∧
      (∀ c ∈ before, p c = true) ∧ ∀ c ∈ behind, p c = true := by
  refine ⟨s.takeWhile p, (s.dropWhile p).rtakeWhile p, ?_, fun c => List.mem_takeWhile_imp,
    fun c => List.mem_rtakeWhile_imp⟩
  rw [stripBoth_eq, List.rdropWhile_append_rtakeWhile, List.takeWhile_append_dropWhile]

theorem stripBoth_eq_nil_iff : stripBoth p s = [] ↔ ∀ c ∈ s, p c = true := by
  constructor
  · intro nothing c member
    obtain ⟨before, behind, same, front, back⟩ := exists_around_stripBoth p s
    rw [nothing] at same
    rw [same] at member
    exact (List.mem_append.mp member).elim (front c) (back c)
  · intro gone
    rw [stripBoth_eq, List.dropWhile_eq_nil_iff.mpr gone, List.rdropWhile_nil]

/-- What is left is a text that neither begins nor ends with such a character, and those around it. -/
theorem stripBoth_eq_iff (first : ∀ c ∈ w.head?, p c = false) (last : ∀ c ∈ w.getLast?, p c = false) :
    stripBoth p s = w ↔ ∃ before behind, s = before ++ (w ++ behind) ∧
      (∀ c ∈ before, p c = true) ∧ ∀ c ∈ behind, p c = true := by
  constructor
  · rintro rfl
    exact exists_around_stripBoth p s
  · rintro ⟨before, behind, rfl, front, back⟩
    rw [stripBoth_append_left front, stripBoth_append_right back, stripBoth_eq_self first last]

section Content

variable {q : Char → Bool} (other : ∀ c, p c = true → q c = false)

include other

theorem filter_eq_nil_of_forall (all : ∀ c ∈ s, p c = true) : s.filter q = [] :=
  List.filter_eq_nil_iff.mpr fun c member => by simp [other c (all c member)]

theorem filter_dropWhile (s : List Char) : (s.dropWhile p).filter q = s.filter q := by
  have gone : (s.takeWhile p).filter q = [] :=
    filter_eq_nil_of_forall other fun c member => List.mem_takeWhile_imp member
  conv_rhs => rw [← List.takeWhile_append_dropWhile (p := p) (l := s), List.filter_append, gone]
  rfl

theorem filter_rdropWhile (s : List Char) : (s.rdropWhile p).filter q = s.filter q := by
  have gone : (s.rtakeWhile p).filter q = [] :=
    filter_eq_nil_of_forall other fun c member => List.mem_rtakeWhile_imp member
  conv_rhs => rw [← List.rdropWhile_append_rtakeWhile (p := p) (l := s), List.filter_append, gone]
  exact (List.append_nil _).symm

theorem filter_stripBoth (s : List Char) : (stripBoth p s).filter q = s.filter q := by
  rw [stripBoth_eq, filter_rdropWhile other, filter_dropWhile other]

end Content

end TagGrammar.Text
