import TagGrammar.Json.Text
import TagGrammar.Text.Blank
import TagGrammar.Text.Pieces

namespace TagGrammar

/-- What the items of a list amount to. -/
inductive SequenceKind where
  | list
  /-- One list written with commas, in whatever way its text is spread over the items. -/
  | commaSeparated
  deriving DecidableEq, Repr

namespace SequenceKind

def itemText : Json → List Char
  | .str s => s.toList
  | j => j.chars

def tightenCommas (s : List Char) : List Char :=
  match s with
  | [] => []
  | c :: rest =>
    match _h : (c :: rest).dropWhile (· = ' ') with
    | [] => c :: tightenCommas rest
    | d :: after =>
      if d = ',' then ',' :: tightenCommas (after.dropWhile (· = ' '))
      else c :: tightenCommas rest
termination_by s.length
decreasing_by
  · simp
  · have h₁ := (List.dropWhile_sublist (· = ' ') (l := c :: rest)).length_le
    have h₂ := (List.dropWhile_sublist (· = ' ') (l := after)).length_le
    rw [_h] at h₁
    simp only [List.length_cons] at h₁ ⊢
    omega
  · simp

def joined (items : List Json) : List Char :=
  Text.trim (Text.joinPieces [',', ' '] (items.map itemText))

/-- The entries between the commas, the empty ones left out. -/
def entries (items : List Json) : List (List Char) :=
  (Text.pieces ',' (tightenCommas (joined items))).filter (!·.isEmpty)

def clean (items : List Json) : SequenceKind → Json
  | .list => .arr items
  | .commaSeparated => .arr ((entries items).map fun p => .str (String.ofList p))

end SequenceKind

end TagGrammar
