import TagGrammar.Text.Ranges
import TagGrammar.Text.Quoted.Table

namespace TagGrammar.Text

def codePointEscape (c : Char) : List Char :=
  ['\x5c', 'u', '\x7b'] ++ Nat.toDigits 16 c.toNat ++ ['\x7d']

def escapeChar (c : Char) : List Char :=
  if c = '\x00' then ['\x5c', '0']
  else if c = '\t' then ['\x5c', 't']
  else if c = '\r' then ['\x5c', 'r']
  else if c = '\n' then ['\x5c', 'n']
  else if c = '\x5c' ∨ c = '\x22' then ['\x5c', c]
  else if inRanges escapedRanges c then codePointEscape c
  else [c]

/-- The text between double quotes, with escapes for what would not show as itself. -/
def quoted (s : String) : String :=
  String.ofList ('\x22' :: s.toList.flatMap escapeChar ++ ['\x22'])

def quotedOption : Option String → String
  | some s => "Some(" ++ quoted s ++ ")"
  | none => "None"

end TagGrammar.Text
