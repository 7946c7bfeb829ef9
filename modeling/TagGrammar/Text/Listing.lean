namespace TagGrammar.Text

/-- Items for a message: each in single quotes, with commas between them. -/
def listing (items : List String) : String :=
  ", ".intercalate (items.map fun item => "'" ++ item ++ "'")

end TagGrammar.Text
