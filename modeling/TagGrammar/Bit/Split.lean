import TagGrammar.Bit.Quote
import TagGrammar.Text.Blank

namespace TagGrammar.Bit

open TagGrammar.Text

def isPlain (c : Char) : Bool := !isBlank c && !isQuote c

/-- Reads up to the next `q`, included; a backslash takes the following character with it, which
must not be a line break. `none` when the section is never closed. -/
def closeSection (q : Char) : List Char → Option (List Char × List Char)
  | [] => none
  | c :: rest =>
    if c = q then some ([c], rest)
    else if c = '\x5c' then
      match rest with
      | d :: rest' =>
        if d = '\n' then none else (closeSection q rest').map fun (s, r) => (c :: d :: s, r)
      | [] => none
    else (closeSection q rest).map fun (s, r) => (c :: s, r)

theorem closeSection_append {q : Char} {s sec rest : List Char}
    (h : closeSection q s = some (sec, rest)) : s = sec ++ rest := by
  fun_induction closeSection q s generalizing sec rest <;> grind [Option.map_eq_some_iff]

theorem closeSection_length {q : Char} {s sec rest : List Char}
    (h : closeSection q s = some (sec, rest)) : rest.length < s.length := by
  fun_induction closeSection q s generalizing sec rest <;> grind [Option.map_eq_some_iff]

/-- Quoted sections, each followed by the plain characters behind it, for as long as they are
closed; then what is left. -/
def sections : List Char → List Char × List Char
  | [] => ([], [])
  | q :: rest =>
    if isQuote q then
      match _h : closeSection q rest with
      | some (sec, after) =>
        let (more, left) := sections (after.dropWhile isPlain)
        (q :: sec ++ after.takeWhile isPlain ++ more, left)
      | none => ([], q :: rest)
    else ([], q :: rest)
termination_by s => s.length
decreasing_by
  have := closeSection_length _h
  have := (List.dropWhile_sublist isPlain (l := after)).length_le
  simp only [List.length_cons]
  omega

/-- The chunk at the front of a text that does not begin with a blank, and what follows it: plain
characters and closed quoted sections, or, where no section is closed, all up to the next blank. -/
def chunk (s : List Char) : List Char × List Char :=
  match sections (s.dropWhile isPlain) with
  | ([], _) => (s.takeWhile (!isBlank ·), s.dropWhile (!isBlank ·))
  | (secs, left) => (s.takeWhile isPlain ++ secs, left)

theorem sections_append (s : List Char) : (sections s).1 ++ (sections s).2 = s := by
  fun_induction sections s with
  | case1 => rfl
  | case2 q rest hq sec after h more left heq ih =>
    simp only [heq] at ih
    rw [closeSection_append h]
    simp [List.append_assoc, ih]
  | case3 => rfl
  | case4 => rfl

theorem chunk_append (s : List Char) : (chunk s).1 ++ (chunk s).2 = s := by
  unfold chunk
  split
  · exact List.takeWhile_append_dropWhile
  · next secs left _ h =>
    have := sections_append (s.dropWhile isPlain)
    rw [h] at this
    simp only [List.append_assoc, this]
    exact List.takeWhile_append_dropWhile

theorem chunk_ne_nil {c : Char} {s : List Char} (hc : isBlank c = false) :
    (chunk (c :: s)).1 ≠ [] := by
  unfold chunk
  split
  · simp [hc]
  · next secs left h _ => simpa using fun _ => h

def chunks (s : List Char) : List (List Char) :=
  match _h : s.dropWhile isBlank with
  | [] => []
  | c :: rest => (chunk (c :: rest)).1 :: chunks (chunk (c :: rest)).2
termination_by s.length
decreasing_by
  have hc : isBlank c = false := by
    have := List.head?_dropWhile_not isBlank s
    simpa [_h] using this
  have hlen := congrArg List.length (chunk_append (c :: rest))
  have hpos := List.length_pos_iff.2 (chunk_ne_nil (s := rest) hc)
  have hle := (List.dropWhile_sublist isBlank (l := s)).length_le
  rw [_h] at hle
  simp only [List.length_append] at hlen
  omega

def markerEnd? : List Char → Option (List Char)
  | '_' :: '(' :: q :: _ => if isQuote q then some [q, ')'] else none
  | _ => none

/-- Puts together the chunks of a marked text, with one space between them. `open?` holds
the ending looked for and what has been gathered so far. -/
def joinMarkers (open? : Option (List Char × List Char)) : List (List Char) → List (List Char)
  | [] => (open?.map Prod.snd).toList
  | c :: rest =>
    match open? with
    | none =>
      match markerEnd? c with
      | some close =>
        if close.isSuffixOf c then c :: joinMarkers none rest
        else joinMarkers (some (close, c)) rest
      | none => c :: joinMarkers none rest
    | some (close, gathered) =>
      let gathered := gathered ++ ' ' :: c
      if close.isSuffixOf c then gathered :: joinMarkers none rest
      else joinMarkers (some (close, gathered)) rest

/-- The bits of the contents of a tag. Quoted sections and marked texts stay whole. -/
def split (contents : String) : List String :=
  (joinMarkers none (chunks contents.toList)).map String.ofList

end TagGrammar.Bit
