import TagGrammar.Text.Ranges
import TagGrammar.Text.Lowercase.Table

namespace TagGrammar.Text

def CaseRun.has (r : CaseRun) (n : Nat) : Bool :=
  r.first ≤ n && n ≤ r.last && (n - r.first) % r.step == 0

def smallLetter (c : Char) : Char :=
  match caseRuns.find? (·.has c.toNat) with
  | some r => Char.ofNat (c.toNat + r.offset).toNat
  | none => c

/-- The capital I with a dot is the only character whose small form is two characters. -/
def lowerChar (c : Char) : List Char :=
  if c = '\u0130' then ['i', '\u0307'] else [smallLetter c]

def isCaseIgnorable (c : Char) : Bool := inRanges caseIgnorableRanges c

/-- The first character that is not passed over is a letter with case. -/
def letterFirst (s : List Char) : Bool :=
  match s.dropWhile isCaseIgnorable with
  | c :: _ => inRanges casedRanges c
  | [] => false

/-- A capital sigma with a letter before it and none after it takes its final form. -/
def lowerSigma (before after : List Char) : Char :=
  if letterFirst before && !letterFirst after then '\u03c2' else '\u03c3'

/-- Lowers a text whose earlier characters are `before`, the nearest first. -/
def lowerFrom (before : List Char) : List Char → List Char
  | [] => []
  | c :: after =>
    (if c = '\u03a3' then [lowerSigma before after] else lowerChar c) ++
      lowerFrom (c :: before) after

def lowerChars (s : List Char) : List Char := lowerFrom [] s

def lowercase (s : String) : String := String.ofList (lowerChars s.toList)

end TagGrammar.Text
