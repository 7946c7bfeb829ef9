namespace TagGrammar.Text

/-- The pieces of a text between the occurrences of `sep`; a text without one is a single piece. -/
def pieces (sep : Char) : List Char → List (List Char)
  | [] => [[]]
  | c :: rest =>
    if c = sep then [] :: pieces sep rest
    else match pieces sep rest with
      | [] => [[c]]
      | p :: ps => (c :: p) :: ps

def joinPieces (sep : List Char) : List (List Char) → List Char
  | [] => []
  | [p] => p
  | p :: q :: ps => p ++ sep ++ joinPieces sep (q :: ps)

theorem joinPieces_eq_intercalate (sep : List Char) (ps : List (List Char)) :
    joinPieces sep ps = sep.intercalate ps := by
  induction ps with
  | nil => rfl
  | cons p ps ih =>
    cases ps with
    | nil => exact (List.intercalate_singleton).symm
    | cons q qs => rw [joinPieces, ih, List.intercalate_cons_cons]

theorem pieces_ne_nil (sep : Char) (s : List Char) : pieces sep s ≠ [] := by
  cases s with
  | nil => simp [pieces]
  | cons c rest =>
    unfold pieces
    split
    · simp
    · split <;> simp

theorem pieces_eq_cons (sep : Char) (s : List Char) :
    pieces sep s = s.takeWhile (· ≠ sep) ::
      match s.dropWhile (· ≠ sep) with
      | [] => []
      | _ :: rest => pieces sep rest := by
  induction s with
  | nil => rfl
  | cons c rest ih =>
    rw [pieces]
    by_cases here : c = sep
    · rw [if_pos here, List.takeWhile_cons_of_neg (by simpa using here),
        List.dropWhile_cons_of_neg (by simpa using here)]
    · rw [if_neg here, List.takeWhile_cons_of_pos (by simpa using here),
        List.dropWhile_cons_of_pos (by simpa using here), ih]

theorem joinPieces_pieces (sep : Char) (s : List Char) : joinPieces [sep] (pieces sep s) = s := by
  induction s with
  | nil => rfl
  | cons c rest ih =>
    have hne := pieces_ne_nil sep rest
    unfold pieces
    cases hp : pieces sep rest with
    | nil => exact absurd hp hne
    | cons p ps =>
      rw [hp] at ih
      by_cases hc : c = sep
      · subst hc; simp [joinPieces, ih]
      · cases ps with
        | nil => simp_all [joinPieces]
        | cons q qs => simp_all [joinPieces]

theorem joinPieces_append (sep : List Char) {ps qs : List (List Char)} (left : ps ≠ []) (right : qs ≠ []) :
    joinPieces sep (ps ++ qs) = joinPieces sep ps ++ sep ++ joinPieces sep qs := by
  induction ps with
  | nil => exact absurd rfl left
  | cons p ps ih =>
    cases ps with
    | nil =>
      obtain ⟨q, qs, rfl⟩ := List.exists_cons_of_ne_nil right
      rfl
    | cons p' ps =>
      have rest := ih (List.cons_ne_nil p' ps)
      simp only [List.cons_append, joinPieces] at rest ⊢
      rw [rest]
      simp only [List.append_assoc]

theorem pieces_of_notMem {sep : Char} {s : List Char} (plain : sep ∉ s) : pieces sep s = [s] := by
  induction s with
  | nil => rfl
  | cons c rest ih =>
    rw [List.mem_cons, not_or] at plain
    rw [pieces, if_neg (Ne.symm plain.1), ih plain.2]

theorem pieces_append (sep : Char) (s t : List Char) :
    pieces sep (s ++ sep :: t) = pieces sep s ++ pieces sep t := by
  induction s with
  | nil => exact if_pos rfl
  | cons c rest ih =>
    rw [List.cons_append, pieces, pieces, ih]
    split
    · rfl
    · cases split : pieces sep rest with
      | nil => exact absurd split (pieces_ne_nil sep rest)
      | cons p ps => rfl

theorem pieces_joinPieces {sep : Char} {ps : List (List Char)} (some_piece : ps ≠ [])
    (plain : ∀ p ∈ ps, sep ∉ p) : pieces sep (joinPieces [sep] ps) = ps := by
  induction ps with
  | nil => exact absurd rfl some_piece
  | cons p ps ih =>
    obtain ⟨first, others⟩ := List.forall_mem_cons.mp plain
    cases ps with
    | nil => exact pieces_of_notMem first
    | cons q qs =>
      rw [joinPieces, List.append_assoc, List.singleton_append, pieces_append, pieces_of_notMem first,
        ih (List.cons_ne_nil q qs) others]
      rfl

theorem notMem_of_mem_pieces {sep : Char} {s piece : List Char} (member : piece ∈ pieces sep s) :
    sep ∉ piece := by
  induction s generalizing piece with
  | nil =>
    cases List.mem_singleton.mp member
    exact List.not_mem_nil
  | cons c rest ih =>
    rw [pieces] at member
    split at member
    · rcases List.mem_cons.mp member with rfl | later
      · exact List.not_mem_nil
      · exact ih later
    · rename_i other
      split at member
      · cases List.mem_singleton.mp member
        simpa using Ne.symm other
      · rename_i first more split
        rw [split] at ih
        rcases List.mem_cons.mp member with rfl | later
        · rw [List.mem_cons, not_or]
          exact ⟨Ne.symm other, ih List.mem_cons_self⟩
        · exact ih (List.mem_cons_of_mem _ later)

end TagGrammar.Text
