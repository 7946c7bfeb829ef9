import TagGrammar.Json.Basic
import TagGrammar.Number.Text

namespace TagGrammar.Json

def controlEscape (c : Char) : List Char :=
  ['\x5c', 'u', '0', '0'] ++ [Nat.digitChar (c.toNat / 16), Nat.digitChar (c.toNat % 16)]

def escapeChar (c : Char) : List Char :=
  if c = '\x22' ∨ c = '\x5c' then ['\x5c', c]
  else if c = '\x08' then ['\x5c', 'b']
  else if c = '\x0c' then ['\x5c', 'f']
  else if c = '\n' then ['\x5c', 'n']
  else if c = '\r' then ['\x5c', 'r']
  else if c = '\t' then ['\x5c', 't']
  else if c.toNat < 0x20 then controlEscape c
  else [c]

def stringText (s : String) : List Char := '\x22' :: s.toList.flatMap escapeChar ++ ['\x22']

mutual

/-- The compact text of a value, its objects in the order of their names. -/
def chars : Json → List Char
  | .null => ['n', 'u', 'l', 'l']
  | .bool true => ['t', 'r', 'u', 'e']
  | .bool false => ['f', 'a', 'l', 's', 'e']
  | .int n => Number.intDigits n.val
  | .float x => x.text
  | .str s => stringText s
  | .arr items => '[' :: itemChars items ++ [']']
  | .obj ⟨fields⟩ => '\x7b' :: fieldChars fields ++ ['\x7d']

def itemChars : List Json → List Char
  | [] => []
  | [j] => j.chars
  | j :: rest => j.chars ++ ',' :: itemChars rest

def fieldChars {bound : Option String} : Table.Entries Json bound → List Char
  | .nil => []
  | .cons k j _ .nil => stringText k ++ ':' :: j.chars
  | .cons k j _ rest => stringText k ++ ':' :: j.chars ++ ',' :: fieldChars rest

end

def text (j : Json) : String := String.ofList j.chars

/-- How a value stands in the output of a template: a string as it is, and nothing for `null`. -/
def render : Json → String
  | .null => ""
  | .str s => s
  | j => j.text

end TagGrammar.Json
