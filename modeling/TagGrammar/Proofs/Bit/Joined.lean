import TagGrammar.Proofs.Bit.WellQuoted
import TagGrammar.Proofs.Text.Strip

namespace TagGrammar.Bit

open TagGrammar.Text

/-- What may stand as one bit: a well quoted word, which with a marker in front also has the end that
the marker calls for. -/
structure IsWord (w : List Char) : Prop where
  ne_nil : w ≠ []
  quoted : WellQuoted w
  marked : ∀ q rest, isQuote q = true → w = '_' :: '(' :: q :: rest → [q, ')'] <:+ w

/-- A word with what stands in front of it. -/
structure Placed where
  gap : List Char
  word : List Char

def layOut (trail : List Char) : List Placed → List Char
  | [] => trail
  | p :: rest => p.gap ++ p.word ++ layOut trail rest

def AllBlank (s : List Char) : Prop := ∀ c ∈ s, isBlank c = true

variable {s w rest trail : List Char} {placed : List Placed}

/-- The sections of a word are all of it behind its plain beginning, and none of what follows. -/
theorem WellQuoted.sections_append (word : WellQuoted w) (ends : ∀ c ∈ rest.head?, isBlank c = true) :
    sections (w.dropWhile isPlain ++ rest) = (w.dropWhile isPlain, rest) := by
  have stop : ∀ c ∈ rest.head?, isPlain c = false := fun c first => isPlain_of_isBlank (ends c first)
  induction word with
  | nil => exact sections_of_blank ends
  | plain bare next ih => rwa [List.dropWhile_cons_of_pos bare]
  | @quoted q sec after quote closed next ih =>
    have whole : (q :: (sec ++ after)).dropWhile isPlain = q :: (sec ++ after) :=
      List.dropWhile_cons_of_neg (by simp [isPlain_of_isQuote quote])
    rw [whole, List.cons_append, List.append_assoc, sections_quoted quote closed,
      takeWhile_append_of_stop stop, dropWhile_append_of_stop stop, ih, List.append_assoc,
      List.takeWhile_append_dropWhile, List.cons_append]

/-- Up to the next blank, a well quoted word is one chunk, whatever blanks it has in its quotes. -/
theorem WellQuoted.chunk_append (word : WellQuoted w) (ends : ∀ c ∈ rest.head?, isBlank c = true) :
    chunk (w ++ rest) = (w, rest) := by
  have stop : ∀ c ∈ rest.head?, isPlain c = false := fun c first => isPlain_of_isBlank (ends c first)
  have whole := List.takeWhile_append_dropWhile (p := isPlain) (l := w)
  unfold chunk
  rw [dropWhile_append_of_stop stop, word.sections_append ends]
  split
  · rename_i left same
    have plain : w.dropWhile isPlain = [] := congrArg Prod.fst same
    have seen : ∀ c ∈ w, (!isBlank c) = true := by
      intro c member
      rw [isBlank_of_isPlain (List.dropWhile_eq_nil_iff.mp plain c member), Bool.not_false]
    have blank : ∀ c ∈ rest.head?, (!isBlank c) = false := by
      intro c first
      rw [ends c first, Bool.not_true]
    rw [takeWhile_append_of_stop blank, dropWhile_append_of_stop blank,
      List.takeWhile_eq_self_iff.mpr seen, List.dropWhile_eq_nil_iff.mpr seen, List.nil_append]
  · rename_i secs left _ same
    cases same
    rw [takeWhile_append_of_stop stop, whole]

theorem chunks_of_blank (blank : AllBlank s) : chunks s = [] := by
  have nothing : s.dropWhile isBlank = [] := List.dropWhile_eq_nil_iff.mpr blank
  rw [chunks]
  split
  · rfl
  · rename_i c rest more
    rw [nothing] at more
    cases more

theorem chunks_of_dropWhile {c : Char} (more : s.dropWhile isBlank = c :: rest) :
    chunks s = (chunk (c :: rest)).1 :: chunks (chunk (c :: rest)).2 := by
  rw [chunks]
  split
  · rename_i nothing
    rw [nothing] at more
    cases more
  · rename_i c' rest' same
    rw [same] at more
    cases more
    rfl

theorem chunks_word {gap : List Char} (blank : AllBlank gap) (word : IsWord w)
    (ends : ∀ c ∈ rest.head?, isBlank c = true) :
    chunks (gap ++ w ++ rest) = w :: chunks rest := by
  obtain ⟨c, tail, whole⟩ := List.exists_cons_of_ne_nil word.ne_nil
  have seen : isBlank c = false := word.quoted.isBlank_head c (by rw [whole]; rfl)
  have front : (gap ++ w ++ rest).dropWhile isBlank = c :: (tail ++ rest) := by
    rw [List.append_assoc, List.dropWhile_append_of_pos blank, whole, List.cons_append,
      List.dropWhile_cons_of_neg (by simp [seen])]
  rw [chunks_of_dropWhile front, ← List.cons_append, ← whole,
    word.quoted.chunk_append ends]

theorem isBlank_head_layOut (blank : ∀ p ∈ placed.head?, AllBlank p.gap)
    (apart : ∀ p ∈ placed.head?, p.gap ≠ []) (ends : AllBlank trail) :
    ∀ c ∈ (layOut trail placed).head?, isBlank c = true := by
  intro c first
  cases placed with
  | nil => exact ends c (List.mem_of_head? first)
  | cons p rest =>
    obtain ⟨d, tail, whole⟩ := List.exists_cons_of_ne_nil (apart p rfl)
    rw [layOut, whole, List.cons_append, List.cons_append, List.head?_cons] at first
    cases first
    apply blank p rfl
    rw [whole]
    exact List.mem_cons_self

theorem chunks_layOut (words : ∀ p ∈ placed, IsWord p.word) (gaps : ∀ p ∈ placed, AllBlank p.gap)
    (apart : ∀ p ∈ placed.tail, p.gap ≠ []) (ends : AllBlank trail) :
    chunks (layOut trail placed) = placed.map Placed.word := by
  induction placed with
  | nil => exact chunks_of_blank ends
  | cons p rest ih =>
    rw [List.forall_mem_cons] at words gaps
    have behind : ∀ c ∈ (layOut trail rest).head?, isBlank c = true := by
      apply isBlank_head_layOut _ _ ends
      · exact fun next first => gaps.2 next (List.mem_of_head? first)
      · exact fun next first => apart next (List.mem_of_head? first)
    have later := ih words.2 gaps.2 fun next member => apart next (List.mem_of_mem_tail member)
    rw [layOut, chunks_word gaps.1 words.1 behind, later, List.map_cons]

theorem joinMarkers_words {words : List (List Char)} (each : ∀ w ∈ words, IsWord w) :
    joinMarkers none words = words := by
  induction words with
  | nil => rfl
  | cons w rest ih =>
    rw [List.forall_mem_cons] at each
    rw [joinMarkers]
    split
    · rename_i close found
      obtain ⟨q, tail, quote, whole, rfl⟩ := markerEnd?_eq_some found
      have ended := each.1.marked q tail quote whole
      rw [if_pos (List.isSuffixOf_iff_suffix.mpr ended), ih each.2]
    · rw [ih each.2]

/-- Words with blanks between them are split where they were put together. -/
theorem split_layOut (placed : List Placed) (trail : List Char)
    (words : ∀ p ∈ placed, IsWord p.word) (gaps : ∀ p ∈ placed, AllBlank p.gap)
    (apart : ∀ p ∈ placed.tail, p.gap ≠ []) (ends : AllBlank trail) :
    split (String.ofList (layOut trail placed)) = placed.map fun p => String.ofList p.word := by
  have each : ∀ w ∈ placed.map Placed.word, IsWord w := by
    intro w member
    obtain ⟨p, inside, rfl⟩ := List.mem_map.mp member
    exact words p inside
  rw [split, String.toList_ofList, chunks_layOut words gaps apart ends, joinMarkers_words each,
    List.map_map]
  rfl

theorem split_marked_blank :
    split (String.ofList (layOut ['\n'] [⟨[' '], ['s', 'a', 'y']⟩,
      ⟨['\u3000'], ['_', '(', '\x22', 'a', ' ', '\x5c', '\x22', '\x22', ')']⟩])) =
      ["say", "_(\x22a \x5c\x22\x22)"] := by
  have plain : ∀ {s : List Char}, s.all isPlain = true → WellQuoted s :=
    fun bare => .of_plain (List.all_eq_true.mp bare)
  have closed : Closed '\x22' ['a', ' ', '\x5c', '\x22', '\x22'] :=
    .char (by decide) (by decide) (.char (by decide) (by decide) (.escape (by decide) .close))
  have behind : WellQuoted ('\x22' :: (['a', ' ', '\x5c', '\x22', '\x22'] ++ [')'])) :=
    .quoted (by decide) closed (plain (by decide))
  have quoted : WellQuoted (['_', '('] ++ _) := .append (plain (by decide)) behind
  apply split_layOut
  · rw [List.forall_mem_cons, List.forall_mem_singleton]
    constructor
    · exact ⟨by decide, plain (by decide), by rintro q rest _ ⟨⟩⟩
    · refine ⟨by decide, quoted, ?_⟩
      rintro q rest _ ⟨⟩
      decide
  · rw [List.forall_mem_cons, List.forall_mem_singleton]
    exact ⟨List.all_eq_true.mp (by decide), List.all_eq_true.mp (by decide)⟩
  · decide
  · exact List.all_eq_true.mp (by decide)

end TagGrammar.Bit
