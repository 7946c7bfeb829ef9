import TagGrammar.Blocks.Capture
import TagGrammar.Context
import TagGrammar.Json.Text

namespace TagGrammar

inductive Token where
  | text (content : String)
  | var (path : String)
  | tag (bits : List String)
  deriving DecidableEq, Repr

namespace Template

/-- Reads up to a tag named by one of the end tags, which is taken off as well. -/
def parseUntil (ends : List String) : List Token → Option (List Token × String) × List Token
  | [] => (none, [])
  | .tag bits :: rest =>
    match bits.head? with
    | some name =>
      if ends.contains name then (some ([], name), rest) else keep (.tag bits) (parseUntil ends rest)
    | none => keep (.tag bits) (parseUntil ends rest)
  | t :: rest => keep t (parseUntil ends rest)
where
  keep (t : Token) : Option (List Token × String) × List Token →
      Option (List Token × String) × List Token
    | (answer, rest) => (answer.map fun (content, found) => (t :: content, found), rest)

def host : BlockHost (List Token) (List Token) := ⟨[], parseUntil⟩

def renderToken {σ : Type} [Context σ] (context : σ) : Token → String
  | .text content => content
  | .var path => ((Context.resolve context path).map Json.render).getD ""
  | .tag _ => ""

def render {σ : Type} [Context σ] (context : σ) (tokens : List Token) : String :=
  String.join (tokens.map (renderToken context))

end Template

end TagGrammar
