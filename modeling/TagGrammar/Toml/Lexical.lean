namespace TagGrammar.Toml

abbrev Reading (α : Type) := Option (α × List Char)

def isSpace (c : Char) : Bool := c == ' ' || c == '\t'

/-- Characters that may stand nowhere, but for line breaks where these are read on their own. -/
def isControl (c : Char) : Bool := (c.toNat < 0x20 && c != '\t') || c.toNat == 0x7F

def skipSpaces (cs : List Char) : List Char := cs.dropWhile isSpace

def newline? : List Char → Option (List Char)
  | '\n' :: rest => some rest
  | '\r' :: '\n' :: rest => some rest
  | _ => none

/-- Spaces and a comment up to the end of the line, which is left standing. -/
def skipComment (cs : List Char) : List Char :=
  match skipSpaces cs with
  | '#' :: rest => rest.dropWhile fun c => !isControl c
  | rest => rest

/-- The next line, where nothing but a comment stands on the rest of this one. -/
def endLine? (cs : List Char) : Option (List Char) :=
  match skipComment cs with
  | [] => some []
  | rest => newline? rest

/-- Passes over spaces, comments and line breaks; `none` where a comment holds a character that it
may not. -/
def skipLinesWith (fuel : Nat) (cs : List Char) : Option (List Char) :=
  match fuel with
  | 0 => none
  | fuel + 1 =>
    match skipSpaces cs with
    | '#' :: rest =>
      match rest.dropWhile fun c => !isControl c with
      | [] => some []
      | rest => (newline? rest).bind (skipLinesWith fuel)
    | rest =>
      match newline? rest with
      | some rest => skipLinesWith fuel rest
      | none => some rest

def skipLines? (cs : List Char) : Option (List Char) := skipLinesWith (cs.length + 1) cs

def hexValue? (c : Char) : Option Nat :=
  if c.isDigit then some (c.toNat - 0x30)
  else if 'a' ≤ c ∧ c ≤ 'f' then some (c.toNat - 0x57)
  else if 'A' ≤ c ∧ c ≤ 'F' then some (c.toNat - 0x37)
  else none

def hexChar? (ds : List Char) : Option Char := do
  let n ← ds.foldlM (fun n d => (hexValue? d).map (16 * n + ·)) 0
  if n.isValidChar then some (Char.ofNat n) else none

def simpleEscape? (c : Char) : Option Char :=
  if c = 'b' then some '\x08'
  else if c = 't' then some '\t'
  else if c = 'n' then some '\n'
  else if c = 'f' then some '\x0c'
  else if c = 'r' then some '\r'
  else if c = 'e' then some '\x1b'
  else if c = '\x22' ∨ c = '\x5c' then some c
  else none

def escape? : List Char → Reading Char
  | 'x' :: a :: b :: rest => (hexChar? [a, b]).map (·, rest)
  | 'u' :: a :: b :: c :: d :: rest => (hexChar? [a, b, c, d]).map (·, rest)
  | 'U' :: a :: b :: c :: d :: e :: f :: g :: h :: rest =>
    (hexChar? [a, b, c, d, e, f, g, h]).map (·, rest)
  | c :: rest => (simpleEscape? c).map (·, rest)
  | [] => none

def prepend (c : Char) : Reading (List Char) → Reading (List Char)
  | some (cs, rest) => some (c :: cs, rest)
  | none => none

def basicString (fuel : Nat) (cs : List Char) : Reading (List Char) :=
  match fuel, cs with
  | fuel + 1, c :: rest =>
    if c = '\x22' then some ([], rest)
    else if c = '\x5c' then
      match escape? rest with
      | some (e, rest) => prepend e (basicString fuel rest)
      | none => none
    else if isControl c then none
    else prepend c (basicString fuel rest)
  | _, _ => none

def literalString : List Char → Reading (List Char)
  | [] => none
  | c :: rest =>
    if c = '\x27' then some ([], rest)
    else if isControl c then none
    else prepend c (literalString rest)

/-- Passes over the line breaks and spaces behind a backslash at the end of a line. -/
def skipBreaks (fuel : Nat) (cs : List Char) : List Char :=
  match fuel with
  | 0 => cs
  | fuel + 1 =>
    match newline? (skipSpaces cs) with
    | some rest => skipBreaks fuel rest
    | none => skipSpaces cs

/-- The quotes at the end of a string over several lines: three close it, and one or two more
before them belong to it. -/
def closingQuotes? (q : Char) (cs : List Char) : Reading (List Char) :=
  let n := (cs.takeWhile (· = q)).length
  if n < 3 then none else some (List.replicate (min n 5 - 3) q, cs.drop (min n 5))

/-- The rest of a string over several lines, behind its opening quotes `q`; only between double
quotes there are escapes. -/
def longString (fuel : Nat) (q : Char) (cs : List Char) : Reading (List Char) :=
  match fuel with
  | 0 => none
  | fuel + 1 =>
    match cs with
    | [] => none
    | c :: rest =>
      if c = q then
        match closingQuotes? q cs with
        | some answer => some answer
        | none => prepend c (longString fuel q rest)
      else if c = '\x5c' ∧ q = '\x22' then
        match newline? (skipSpaces rest), escape? rest with
        | some after, _ => longString fuel q (skipBreaks after.length after)
        | none, some (e, after) => prepend e (longString fuel q after)
        | none, none => none
      else
        match newline? cs with
        | some after => prepend '\n' (longString fuel q after)
        | none => if isControl c then none else prepend c (longString fuel q rest)

/-- A line break right behind the opening quotes does not count. -/
def openLong (q : Char) (cs : List Char) : Reading (List Char) :=
  let body := (newline? cs).getD cs
  longString (body.length + 1) q body

def string? : List Char → Reading String
  | '\x22' :: '\x22' :: '\x22' :: rest => (openLong '\x22' rest).map fun r => (.ofList r.1, r.2)
  | '\x27' :: '\x27' :: '\x27' :: rest => (openLong '\x27' rest).map fun r => (.ofList r.1, r.2)
  | '\x22' :: rest => (basicString (rest.length + 1) rest).map fun r => (.ofList r.1, r.2)
  | '\x27' :: rest => (literalString rest).map fun r => (.ofList r.1, r.2)
  | _ => none

def isBareKeyChar (c : Char) : Bool := c.isAlphanum || c == '_' || c == '-'

/-- One part of a key: letters, digits, underscores and hyphens, or a string on one line. -/
def keyPart? : List Char → Reading String
  | '\x22' :: rest => (basicString (rest.length + 1) rest).map fun r => (.ofList r.1, r.2)
  | '\x27' :: rest => (literalString rest).map fun r => (.ofList r.1, r.2)
  | cs =>
    let bare := cs.takeWhile isBareKeyChar
    if bare.isEmpty then none else some (.ofList bare, cs.dropWhile isBareKeyChar)

/-- Key parts joined by points, with the spaces around them. -/
def keyWith (fuel : Nat) (cs : List Char) : Reading (List String) :=
  match fuel with
  | 0 => none
  | fuel + 1 =>
    match keyPart? (skipSpaces cs) with
    | none => none
    | some (part, rest) =>
      match skipSpaces rest with
      | '.' :: after => (keyWith fuel after).map fun r => (part :: r.1, r.2)
      | after => some ([part], after)

/-- Brackets may stand in one another this often, and a key may have as many parts. -/
def maxDepth : Nat := 80

def key? (cs : List Char) : Reading (List String) := keyWith maxDepth cs

end TagGrammar.Toml
