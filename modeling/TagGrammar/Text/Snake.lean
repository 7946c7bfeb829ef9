import TagGrammar.Text.Lowercase

namespace TagGrammar.Text

/-- Marks each capital that starts a word of small letters and has a character before it, reading
past the whole word. -/
def markWords : List Char → List Char
  | c :: u :: l :: rest =>
    if c ≠ '\n' ∧ u.isUpper ∧ l.isLower then
      c :: '_' :: u :: l :: (rest.takeWhile Char.isLower ++ markWords (rest.dropWhile Char.isLower))
    else c :: markWords (u :: l :: rest)
  | s => s
termination_by s => s.length
decreasing_by
  · have := (List.dropWhile_sublist Char.isLower (l := rest)).length_le
    simp only [List.length_cons]
    omega
  · simp

def markCapitals : List Char → List Char
  | c :: u :: rest =>
    if (c.isLower ∨ c.isDigit) ∧ u.isUpper then c :: '_' :: u :: markCapitals rest
    else c :: markCapitals (u :: rest)
  | s => s

/-- A name in words of capitals as one in small letters, its words joined by underscores. -/
def snakeCase (name : String) : String :=
  String.ofList (lowerChars (markCapitals (markWords name.toList)))

def beforeColons : List Char → List Char
  | '\x3a' :: '\x3a' :: _ => []
  | c :: rest => c :: beforeColons rest
  | [] => []

def afterLastColons (s : List Char) : List Char := (beforeColons s.reverse).reverse

/-- The tag name of a type: its own name without module path and parameters, in snake case. -/
def defaultTagName (typeName : String) : String :=
  snakeCase (String.ofList (afterLastColons (typeName.toList.takeWhile (· ≠ '<'))))

end TagGrammar.Text
