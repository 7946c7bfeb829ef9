import Mathlib.Data.List.TakeWhile
import TagGrammar.Bit.Split

namespace TagGrammar.Bit

open TagGrammar.Text

/-- What follows an opening quote `q`, up to the quote that closes it. A backslash takes another
character of its line with it, which closes nothing. -/
inductive Closed (q : Char) : List Char → Prop
  | close : Closed q [q]
  | char {c : Char} {rest : List Char} (other : c ≠ q) (bare : c ≠ '\x5c') (next : Closed q rest) :
    Closed q (c :: rest)
  | escape {c : Char} {rest : List Char} (same_line : c ≠ '\n') (next : Closed q rest) :
    Closed q ('\x5c' :: c :: rest)

/-- Plain characters and closed quoted sections, side by side. -/
inductive WellQuoted : List Char → Prop
  | nil : WellQuoted []
  | plain {c : Char} {rest : List Char} (bare : isPlain c = true) (next : WellQuoted rest) :
    WellQuoted (c :: rest)
  | quoted {q : Char} {sec rest : List Char} (quote : isQuote q = true) (closed : Closed q sec)
      (next : WellQuoted rest) : WellQuoted (q :: (sec ++ rest))

variable {q c : Char} {s sec rest after w : List Char}

theorem isQuote_cases (quote : isQuote q = true) : q = '\x22' ∨ q = '\x27' := by
  simpa [isQuote] using quote

theorem isBlank_of_isQuote (quote : isQuote q = true) : isBlank q = false := by
  rcases isQuote_cases quote with rfl | rfl <;> decide

theorem isPlain_of_isQuote (quote : isQuote q = true) : isPlain q = false := by
  rw [isPlain, quote, Bool.not_true, Bool.and_false]

theorem isBlank_of_isPlain (bare : isPlain c = true) : isBlank c = false := by
  rw [isPlain, Bool.and_eq_true] at bare
  simpa using bare.1

theorem isPlain_of_isBlank (blank : isBlank c = true) : isPlain c = false := by
  rw [isPlain, blank, Bool.not_true, Bool.false_and]

theorem isQuote_of_isBlank (blank : isBlank c = true) : isQuote c = false := by
  cases quote : isQuote c with
  | false => rfl
  | true =>
    rw [isBlank_of_isQuote quote] at blank
    cases blank

theorem closed_of_closeSection (found : closeSection q s = some (sec, rest)) : Closed q sec := by
  fun_induction closeSection q s generalizing sec rest with
  | case1 => cases found
  | case2 rest' =>
    cases found
    exact .close
  | case3 => cases found
  | case4 d rest' same_line bare ih =>
    obtain ⟨⟨more, left⟩, inner, same⟩ := Option.map_eq_some_iff.mp found
    cases same
    exact .escape same_line (ih inner)
  | case5 => cases found
  | case6 c rest' other bare ih =>
    obtain ⟨⟨more, left⟩, inner, same⟩ := Option.map_eq_some_iff.mp found
    cases same
    exact .char other bare (ih inner)

theorem Closed.closeSection_append (closed : Closed q sec) (quote : isQuote q = true)
    (rest : List Char) : closeSection q (sec ++ rest) = some (sec, rest) := by
  have apart : '\x5c' ≠ q := by rcases isQuote_cases quote with rfl | rfl <;> decide
  induction closed with
  | close =>
    rw [List.singleton_append]
    unfold closeSection
    rw [if_pos rfl]
  | char other bare next ih =>
    rw [List.cons_append]
    unfold closeSection
    rw [if_neg other, if_neg bare, ih]
    rfl
  | escape same_line next ih =>
    rw [List.cons_append, List.cons_append, closeSection, if_neg apart, if_pos rfl,
      if_neg same_line, ih]
    rfl

theorem Closed.getLast? (closed : Closed q sec) : sec.getLast? = some q := by
  induction closed with
  | close => rfl
  | char other bare next ih => rw [List.getLast?_cons, ih]; rfl
  | escape same_line next ih => rw [List.getLast?_cons, List.getLast?_cons, ih]; rfl

theorem WellQuoted.of_plain (bare : ∀ c ∈ s, isPlain c = true) : WellQuoted s := by
  induction s with
  | nil => exact .nil
  | cons c rest ih =>
    rw [List.forall_mem_cons] at bare
    exact .plain bare.1 (ih bare.2)

theorem WellQuoted.append (left : WellQuoted s) (right : WellQuoted w) : WellQuoted (s ++ w) := by
  induction left with
  | nil => exact right
  | plain bare next ih => exact .plain bare ih
  | quoted quote closed next ih =>
    rw [List.cons_append, List.append_assoc]
    exact .quoted quote closed ih

theorem isBlank_getLast_append (left : ∀ c ∈ s.getLast?, isBlank c = false)
    (right : ∀ c ∈ w.getLast?, isBlank c = false) : ∀ c ∈ (s ++ w).getLast?, isBlank c = false := by
  intro c last
  rw [List.getLast?_append, Option.mem_def, Option.or_eq_some_iff] at last
  rcases last with last | ⟨_, last⟩
  · exact right c last
  · exact left c last

theorem WellQuoted.isBlank_head (word : WellQuoted w) : ∀ c ∈ w.head?, isBlank c = false := by
  intro c first
  cases word with
  | nil => cases first
  | plain bare next =>
    cases first
    exact isBlank_of_isPlain bare
  | quoted quote closed next =>
    cases first
    exact isBlank_of_isQuote quote

theorem WellQuoted.isBlank_getLast (word : WellQuoted w) : ∀ c ∈ w.getLast?, isBlank c = false := by
  induction word with
  | nil => exact fun c last => nomatch last
  | @plain c rest bare next ih =>
    have first : ∀ d ∈ [c].getLast?, isBlank d = false := by
      intro d last
      cases last
      exact isBlank_of_isPlain bare
    exact isBlank_getLast_append first ih
  | @quoted q sec rest quote closed next ih =>
    have first : ∀ d ∈ (q :: sec).getLast?, isBlank d = false := by
      intro d last
      rw [List.getLast?_cons, closed.getLast?] at last
      cases last
      exact isBlank_of_isQuote quote
    exact isBlank_getLast_append first ih

theorem sections_of_blank (ends : ∀ c ∈ s.head?, isBlank c = true) : sections s = ([], s) := by
  cases s with
  | nil => rw [sections]
  | cons c rest =>
    have blank := ends c rfl
    rw [sections, if_neg (by rw [isQuote_of_isBlank blank]; exact Bool.false_ne_true)]

theorem sections_quoted (quote : isQuote q = true) (closed : Closed q sec) (after : List Char) :
    sections (q :: (sec ++ after)) =
      (q :: sec ++ after.takeWhile isPlain ++ (sections (after.dropWhile isPlain)).1,
        (sections (after.dropWhile isPlain)).2) := by
  rw [sections, if_pos quote]
  split
  · rename_i sec' after' found
    rw [closed.closeSection_append quote] at found
    cases found
    rfl
  · rename_i unclosed
    rw [closed.closeSection_append quote] at unclosed
    cases unclosed

theorem wellQuoted_sections (s : List Char) : WellQuoted (sections s).1 := by
  fun_induction sections s with
  | case1 => exact .nil
  | case2 q rest quote sec after found more left same ih =>
    rw [same] at ih
    rw [List.append_assoc, List.cons_append]
    refine .quoted quote (closed_of_closeSection found) (.append (.of_plain ?_) ih)
    exact fun c member => List.mem_takeWhile_imp member
  | case3 => exact .nil
  | case4 => exact .nil

theorem markerEnd?_eq_some {close : List Char} (found : markerEnd? s = some close) :
    ∃ q rest, isQuote q = true ∧ s = '_' :: '(' :: q :: rest ∧ close = [q, ')'] := by
  unfold markerEnd? at found
  split at found
  · rename_i q rest
    split at found
    · rename_i quote
      cases found
      exact ⟨q, rest, quote, rfl, rfl⟩
    · cases found
  · cases found

end TagGrammar.Bit
