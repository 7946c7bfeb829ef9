import TagGrammar.Bit.Quote
import TagGrammar.Json.Basic
import TagGrammar.Number.Decimal

namespace TagGrammar

/-- A token of a tag read as a variable: a value written out, or a path into the context. -/
inductive Variable where
  | literal (value : Json)
  | lookup (path : String)
  deriving Repr

namespace Variable

def wordLiteral? (token : String) : Option Json :=
  if token = "True" then some (.bool true)
  else if token = "False" then some (.bool false)
  else if token = "None" then some .null
  else none

def intLiteral? (token : List Char) : Option Json :=
  ((Number.readInt? token).bind JsonInt.ofSigned?).map .int

/-- A digit stands first, after at most one sign, and no point last. -/
def looksNumeric (token : List Char) : Bool :=
  ((Number.cutSign token).2.head?.any Char.isDigit) && token.getLast? != some '.'

def floatLiteral? (token : List Char) : Option Json :=
  if looksNumeric token then (Number.Binary64.read? token).map .float else none

def literal? (token : String) : Option Json :=
  wordLiteral? token <|> (Bit.unquote? token).map .str <|> intLiteral? token.toList <|>
    floatLiteral? token.toList

/-- Words, quoted text and numbers are literals; all else is looked up. -/
def ofToken (token : String) : Variable :=
  match literal? token with
  | some value => .literal value
  | none => .lookup token

def resolve (lookup : String → Option Json) : Variable → Option Json
  | .literal value => some value
  | .lookup path => lookup path

end Variable

end TagGrammar
