import TagGrammar.Json.Basic
import TagGrammar.Number.Digits
import TagGrammar.Text.Pieces

namespace TagGrammar.Json

/-- A position in an array: digits after at most one plus sign, in 64 bits. -/
def readIndex? (segment : List Char) : Option Nat :=
  let ds := match segment with
    | '+' :: rest => rest
    | _ => segment
  (Number.readNat? ds).filter (· < 0x10000000000000000)

def step (j : Json) (segment : List Char) : Option Json :=
  match j with
  | .obj fields => fields.get? (String.ofList segment)
  | .arr items => (readIndex? segment).bind fun i => items[i]?
  | _ => none

def walk (j : Json) (segments : List (List Char)) : Option Json := segments.foldlM step j

def lookupChars (j : Json) (path : List Char) : Option Json := j.walk (Text.pieces '.' path)

def lookup (j : Json) (path : String) : Option Json := j.lookupChars path.toList

end TagGrammar.Json
