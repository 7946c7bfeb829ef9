import TagGrammar.Json.Text
import TagGrammar.Number.Digits
import TagGrammar.Text.Blank

namespace TagGrammar

inductive ErrorMode where
  | strict
  | lenient
  deriving DecidableEq, Repr

def ErrorMode.ofDebug (debug : Bool) : ErrorMode := if debug then .strict else .lenient

structure ValueError where
  category : String
  message : String
  deriving DecidableEq, Repr

/-- The record of a fallback; `value` is the text of the value that failed. -/
structure Warning where
  category : String
  message : String
  value : String
  deriving DecidableEq, Repr

/-- How a resolved value is checked and converted. -/
inductive ValueKind where
  | string
  | integer
  deriving DecidableEq, Repr

namespace ValueKind

def marker : List Char := ['\x7b', 'v', 'a', 'l', 'u', 'e', '\x7d']

def fillTemplate (value : List Char) (template : List Char) : List Char :=
  match template with
  | [] => []
  | c :: rest =>
    if marker.isPrefixOf (c :: rest) then value ++ fillTemplate value (rest.drop 6)
    else c :: fillTemplate value rest
termination_by template.length
decreasing_by
  · simp only [List.length_drop, List.length_cons]; omega
  · simp

def errors : ValueKind → List (String × String)
  | .string => []
  | .integer => [("clean", "\x7bvalue\x7d could not be converted to Integer")]

def fallback : ValueKind → Json
  | .string | .integer => .str ""

/-- The message for `raw` under a category; a category without a template has none. -/
def message (kind : ValueKind) (raw : Json) (category : String) : String :=
  match kind.errors.find? (·.1 = category) with
  | some (_, template) => String.ofList (fillTemplate raw.chars template.toList)
  | none => ""

def fail (kind : ValueKind) (raw : Json) (category : String) :
    ErrorMode → Except ValueError (Json × List Warning)
  | .strict => .error ⟨category, kind.message raw category⟩
  | .lenient => .ok (kind.fallback, [⟨category, kind.message raw category, raw.text⟩])

/-- Blank text counts as nothing written; other text has to be an integer of 64 bits with a
sign, and a float is cut off at the point and has to fit there too. -/
def cleanInteger? : Json → Option Json
  | .null => some .null
  | .bool b => some (.int (.ofBool b))
  | .int n => some (.int n)
  | .float x => (JsonInt.ofFloat? x).map .int
  | .str s =>
    match Text.trim s.toList with
    | [] => some .null
    | cs => ((Number.readInt? cs).bind JsonInt.ofSigned?).map .int
  | .arr _ => none
  | .obj _ => none

/-- An empty string is nothing, unless it was written in the template. -/
def cleanString (raw : Json) (constant : Bool) : Json :=
  match raw with
  | .str s => if s.isEmpty && !constant then .null else .str s
  | j => j

/-- The converted value, or the category of its error. -/
def clean (kind : ValueKind) (raw : Json) (constant : Bool) : Except String Json :=
  match kind with
  | .string => .ok (cleanString raw constant)
  | .integer =>
    match cleanInteger? raw with
    | some j => .ok j
    | none => .error "clean"

def check (kind : ValueKind) (raw : Json) (constant : Bool) (mode : ErrorMode) :
    Except ValueError (Json × List Warning) :=
  match kind.clean raw constant with
  | .ok j => .ok (j, [])
  | .error category => kind.fail raw category mode

end ValueKind

end TagGrammar
