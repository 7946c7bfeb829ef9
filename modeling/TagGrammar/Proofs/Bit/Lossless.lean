import TagGrammar.Proofs.Bit.WellQuoted
import TagGrammar.Proofs.Text.Strip

namespace TagGrammar.Bit

open TagGrammar.Text

/-- The characters of a text that can be seen. -/
def visible (s : List Char) : List Char := s.filter (!isBlank ·)

/-- Not empty, with no blank at either end. -/
structure Trimmed (s : List Char) : Prop where
  ne_nil : s ≠ []
  head : ∀ c ∈ s.head?, isBlank c = false
  last : ∀ c ∈ s.getLast?, isBlank c = false

/-- It begins with `_(` and a quote. -/
def Marked (s : List Char) : Prop := ∃ q rest, isQuote q = true ∧ s = '_' :: '(' :: q :: rest

/-- A piece of the contents with no blank in it but between quotes that are closed. -/
structure Unbroken (contents s : List Char) : Prop where
  part : s <:+: contents
  whole : WellQuoted s ∨ ∀ c ∈ s, isBlank c = false

variable {s t piece contents : List Char} {cs : List (List Char)}

theorem visible_append (s t : List Char) : visible (s ++ t) = visible s ++ visible t :=
  List.filter_append _ _

theorem visible_cons_of_blank {c : Char} (blank : isBlank c = true) (s : List Char) :
    visible (c :: s) = visible s :=
  List.filter_cons_of_neg (by simp [blank])

theorem visible_dropWhile (s : List Char) : visible (s.dropWhile isBlank) = visible s :=
  filter_dropWhile (fun c blank => by simp [blank]) s

theorem Trimmed.join (left : Trimmed s) (right : Trimmed t) : Trimmed (s ++ ' ' :: t) := by
  obtain ⟨first, tail, rfl⟩ := List.exists_cons_of_ne_nil left.ne_nil
  constructor
  · exact List.cons_ne_nil _ _
  · exact left.head
  · intro c last
    rw [List.getLast?_append, List.getLast?_cons, Option.some_or] at last
    cases behind : t.getLast? with
    | none => exact absurd (List.getLast?_eq_none_iff.mp behind) right.ne_nil
    | some d =>
      rw [behind] at last
      cases last
      exact right.last d behind

theorem Marked.append (marked : Marked s) (t : List Char) : Marked (s ++ t) := by
  obtain ⟨q, rest, quote, rfl⟩ := marked
  exact ⟨q, rest ++ t, quote, rfl⟩

theorem Unbroken.trimmed (unbroken : Unbroken contents s) (filled : s ≠ []) : Trimmed s := by
  rcases unbroken.whole with quoted | solid
  · exact ⟨filled, quoted.isBlank_head, quoted.isBlank_getLast⟩
  · refine ⟨filled, fun c first => ?_, fun c last => ?_⟩
    · exact solid c (List.mem_of_head? first)
    · exact solid c (List.mem_of_getLast? last)

theorem wellQuoted_or_solid_chunk (s : List Char) :
    WellQuoted (chunk s).1 ∨ ∀ c ∈ (chunk s).1, isBlank c = false := by
  have quoted := wellQuoted_sections (s.dropWhile isPlain)
  unfold chunk
  split
  · refine .inr fun c member => ?_
    simpa using List.mem_takeWhile_imp member
  · rename_i secs left _ same
    rw [same] at quoted
    refine .inl (.append (.of_plain ?_) quoted)
    exact fun c member => List.mem_takeWhile_imp member

theorem visible_chunks (s : List Char) : visible (chunks s).flatten = visible s := by
  fun_induction chunks s with
  | case1 s nothing =>
    rw [← visible_dropWhile s, nothing]
    rfl
  | case2 s c rest more ih =>
    rw [List.flatten_cons, visible_append, ih, ← visible_append, chunk_append, ← more,
      visible_dropWhile]

theorem chunks_unbroken (member : piece ∈ chunks s) : Unbroken s piece ∧ Trimmed piece := by
  fun_induction chunks s with
  | case1 => cases member
  | case2 s c rest more ih =>
    have behind : c :: rest <:+: s := more ▸ (List.dropWhile_suffix _).isInfix
    have cut := chunk_append (c :: rest)
    rcases List.mem_cons.mp member with rfl | member
    · have here : Unbroken s (chunk (c :: rest)).1 := by
        refine ⟨.trans ?_ behind, wellQuoted_or_solid_chunk _⟩
        exact ⟨[], _, cut⟩
      exact ⟨here, here.trimmed (chunk_ne_nil (stop_of_dropWhile more))⟩
    · obtain ⟨unbroken, trimmed⟩ := ih member
      refine ⟨⟨unbroken.part.trans (.trans ?_ behind), unbroken.whole⟩, trimmed⟩
      exact ⟨(chunk (c :: rest)).1, [], by rw [List.append_nil, cut]⟩

theorem visible_joinMarkers (open? : Option (List Char × List Char)) (cs : List (List Char)) :
    visible (joinMarkers open? cs).flatten =
      visible ((open?.map Prod.snd).getD [] ++ cs.flatten) := by
  induction cs generalizing open? with
  | nil => cases open? <;> simp [joinMarkers]
  | cons c rest ih =>
    cases open? with
    | none =>
      rw [joinMarkers]
      split
      · split
        · simp [visible_append, ih]
        · simp [ih]
      · simp [visible_append, ih]
    | some m =>
      obtain ⟨close, gathered⟩ := m
      have apart (s : List Char) : visible (' ' :: s) = visible s := visible_cons_of_blank (by decide) s
      rw [joinMarkers]
      split
      · simp [visible_append, apart, ih]
      · simp [visible_append, apart, ih]

theorem mem_joinMarkers {open? : Option (List Char × List Char)}
    (opened : ∀ m ∈ open?, Trimmed m.2 ∧ Marked m.2) (each : ∀ c ∈ cs, Trimmed c)
    (member : piece ∈ joinMarkers open? cs) : Trimmed piece ∧ (Marked piece ∨ piece ∈ cs) := by
  induction cs generalizing open? with
  | nil =>
    obtain ⟨m, here, rfl⟩ : ∃ m ∈ open?, m.2 = piece := by simpa [joinMarkers] using member
    exact (opened m here).imp_right .inl
  | cons c rest ih =>
    rw [List.forall_mem_cons] at each
    have alone : Trimmed c ∧ (Marked c ∨ c ∈ c :: rest) := ⟨each.1, .inr List.mem_cons_self⟩
    have later : ∀ open?, (∀ m ∈ open?, Trimmed m.2 ∧ Marked m.2) → piece ∈ joinMarkers open? rest →
        Trimmed piece ∧ (Marked piece ∨ piece ∈ c :: rest) := by
      intro open? opened member
      exact (ih opened each.2 member).imp_right (.imp_right (List.mem_cons_of_mem c))
    cases open? with
    | none =>
      rw [joinMarkers] at member
      split at member
      · rename_i close found
        obtain ⟨q, tail, quote, whole, _⟩ := markerEnd?_eq_some found
        split at member
        · rcases List.mem_cons.mp member with rfl | member
          · exact alone
          · exact later _ opened member
        · refine later _ ?_ member
          rintro m ⟨⟩
          exact ⟨each.1, q, tail, quote, whole⟩
      · rcases List.mem_cons.mp member with rfl | member
        · exact alone
        · exact later _ opened member
    | some m =>
      obtain ⟨close, gathered⟩ := m
      obtain ⟨trimmed, marked⟩ := opened _ rfl
      have joined : Trimmed (gathered ++ ' ' :: c) ∧ Marked (gathered ++ ' ' :: c) :=
        ⟨trimmed.join each.1, marked.append _⟩
      rw [joinMarkers] at member
      split at member
      · rcases List.mem_cons.mp member with rfl | member
        · exact joined.imp_right .inl
        · exact later none nofun member
      · refine later _ ?_ member
        rintro m ⟨⟩
        exact joined

/-- All that can be seen of the contents is in the bits, in its order. A bit has something to be seen
at both ends, and one that is not marked is a piece of the contents, with blanks in closed quoted
sections only. -/
theorem split_lossless (contents : String) :
    visible ((split contents).map String.toList).flatten = visible contents.toList ∧
    ∀ bit ∈ split contents, Trimmed bit.toList ∧
      (¬Marked bit.toList → Unbroken contents.toList bit.toList) := by
  have bits : (split contents).map String.toList = joinMarkers none (chunks contents.toList) := by
    rw [split, List.map_map]
    exact (List.map_congr_left fun s _ => String.toList_ofList).trans (List.map_id _)
  constructor
  · rw [bits, visible_joinMarkers]
    exact visible_chunks contents.toList
  · intro bit member
    have inside : bit.toList ∈ joinMarkers none (chunks contents.toList) :=
      bits ▸ List.mem_map_of_mem member
    have each : ∀ c ∈ chunks contents.toList, Trimmed c := fun c here => (chunks_unbroken here).2
    have unopened : ∀ m ∈ (none : Option (List Char × List Char)), Trimmed m.2 ∧ Marked m.2 := nofun
    obtain ⟨trimmed, marked | here⟩ := mem_joinMarkers unopened each inside
    · exact ⟨trimmed, fun unmarked => absurd marked unmarked⟩
    · exact ⟨trimmed, fun _ => (chunks_unbroken here).1⟩

end TagGrammar.Bit
