import TagGrammar.Number.Decimal

namespace TagGrammar.Toml

/-- Digits with single underscores between them; the answer is without these. -/
def digitRun? (isDigit : Char → Bool) (cs : List Char) : Option (List Char) :=
  let rec go : List Char → Option (List Char)
    | [] => none
    | [c] => if isDigit c then some [c] else none
    | c :: '_' :: rest => if isDigit c then (go rest).map (c :: ·) else none
    | c :: rest => if isDigit c then (go rest).map (c :: ·) else none
  go cs

/-- A decimal number that begins with zero is zero. -/
def wholeDigits? (cs : List Char) : Option (List Char) :=
  (digitRun? Char.isDigit cs).filter fun ds => ds.length = 1 || ds.head? != some '0'

def radixDigits? (radix : Nat) (cs : List Char) : Option Nat :=
  let value (c : Char) : Nat :=
    if c.isDigit then c.toNat - 0x30
    else if 'a' ≤ c ∧ c ≤ 'f' then c.toNat - 0x57
    else if 'A' ≤ c ∧ c ≤ 'F' then c.toNat - 0x37
    else 16
  (digitRun? (fun c => value c < radix) cs).map fun ds =>
    ds.foldl (fun n d => radix * n + value d) 0

def integer? (cs : List Char) : Option Int :=
  match cs with
  | '0' :: 'x' :: ds => (radixDigits? 16 ds).map Int.ofNat
  | '0' :: 'o' :: ds => (radixDigits? 8 ds).map Int.ofNat
  | '0' :: 'b' :: ds => (radixDigits? 2 ds).map Int.ofNat
  | _ => (wholeDigits? (Number.cutSign cs).2).map fun ds =>
    if (Number.cutSign cs).1 then -(Number.ofDigits ds : Int) else Number.ofDigits ds

def exponent? (cs : List Char) : Option (List Char) :=
  (digitRun? Char.isDigit (Number.cutSign cs).2).map fun ds =>
    if (Number.cutSign cs).1 then '-' :: ds else ds

/-- The text of a float that has a point or an exponent, without underscores. -/
def floatText? (body : List Char) : Option (List Char) :=
  let isMark (c : Char) : Bool := c == 'e' || c == 'E'
  let mantissa := body.takeWhile (!isMark ·)
  let withPoint : Option (List Char) :=
    match mantissa.dropWhile (· ≠ '.') with
    | _ :: part => do
      let whole ← wholeDigits? (mantissa.takeWhile (· ≠ '.'))
      let part ← digitRun? Char.isDigit part
      some (whole ++ '.' :: part)
    | [] => wholeDigits? mantissa
  match body.dropWhile (!isMark ·) with
  | _ :: e => do
    let m ← withPoint
    let e ← exponent? e
    some (m ++ 'e' :: e)
  | [] => if mantissa.contains '.' then withPoint else none

/-- Whether a float is in the range of 64 bits, as are the words for what is not finite; `none` for
what is no float. -/
def floatInRange? (cs : List Char) : Option Bool :=
  let body := (Number.cutSign cs).2
  if body = ['i', 'n', 'f'] ∨ body = ['n', 'a', 'n'] then some true
  else (floatText? body).map fun text => (Number.Binary64.read? text).isSome

def fixedDigits? (n : Nat) (cs : List Char) : Option (Nat × List Char) :=
  if (cs.take n).length = n ∧ (cs.take n).all Char.isDigit then
    some (Number.ofDigits (cs.take n), cs.drop n)
  else none

def isLeap (year : Nat) : Bool := year % 4 == 0 && (year % 100 != 0 || year % 400 == 0)

def daysIn (year month : Nat) : Nat :=
  if month = 2 then if isLeap year then 29 else 28
  else if month = 4 ∨ month = 6 ∨ month = 9 ∨ month = 11 then 30
  else 31

/-- A calendar date at the front; the answer is what follows it. -/
def date? (cs : List Char) : Option (List Char) :=
  match fixedDigits? 4 cs with
  | some (year, '-' :: rest) =>
    match fixedDigits? 2 rest with
    | some (month, '-' :: rest) =>
      match fixedDigits? 2 rest with
      | some (day, rest) =>
        if 1 ≤ month ∧ month ≤ 12 ∧ 1 ≤ day ∧ day ≤ daysIn year month then some rest else none
      | none => none
    | _ => none
  | _ => none

/-- Seconds and their fraction, both of which may be missing. -/
def seconds? : List Char → Option (List Char)
  | ':' :: cs =>
    match fixedDigits? 2 cs with
    | some (s, '.' :: rest) =>
      if s ≤ 60 ∧ (rest.head?.any Char.isDigit) then some (rest.dropWhile Char.isDigit) else none
    | some (s, rest) => if s ≤ 60 then some rest else none
    | none => none
  | cs => some cs

/-- Hours and minutes at the front, within a day. -/
def hourMinute? (cs : List Char) : Option (List Char) :=
  match fixedDigits? 2 cs with
  | some (h, ':' :: rest) =>
    match fixedDigits? 2 rest with
    | some (m, rest) => if h ≤ 23 ∧ m ≤ 59 then some rest else none
    | none => none
  | _ => none

def time? (cs : List Char) : Option (List Char) := (hourMinute? cs).bind seconds?

def isOffset : List Char → Bool
  | [] => true
  | [c] => c == 'Z' || c == 'z'
  | c :: rest => (c == '+' || c == '-') && hourMinute? rest == some []

/-- A date, a time, or both with an optional offset. -/
def isDateTime (cs : List Char) : Bool :=
  match date? cs with
  | some [] => true
  | some (c :: rest) => (c == 'T' || c == 't' || c == ' ') && (time? rest).any isOffset
  | none => time? cs == some []

end TagGrammar.Toml
