namespace TagGrammar.Number

def digitValue (c : Char) : Nat := c.toNat - 0x30

def ofDigits (cs : List Char) : Nat := cs.foldl (fun n c => 10 * n + digitValue c) 0

def digits (n : Nat) : List Char :=
  if n < 10 then [Char.ofNat (0x30 + n)]
  else digits (n / 10) ++ [Char.ofNat (0x30 + n % 10)]

/-- At least one digit and nothing else. -/
def readNat? (cs : List Char) : Option Nat :=
  if !cs.isEmpty && cs.all Char.isDigit then some (ofDigits cs) else none

def cutSign : List Char → Bool × List Char
  | '-' :: rest => (true, rest)
  | '+' :: rest => (false, rest)
  | cs => (false, cs)

def readInt? (cs : List Char) : Option Int :=
  match cutSign cs with
  | (negative, rest) => (readNat? rest).map fun n => if negative then -(n : Int) else n

def intDigits (n : Int) : List Char :=
  if n < 0 then '-' :: digits n.natAbs else digits n.natAbs

theorem digitValue_ofNat {n : Nat} (h : n < 10) : digitValue (Char.ofNat (0x30 + n)) = n := by
  revert n; decide

theorem isDigit_ofNat {n : Nat} (h : n < 10) : (Char.ofNat (0x30 + n)).isDigit = true := by
  revert n; decide

theorem ofDigits_concat (cs : List Char) (c : Char) :
    ofDigits (cs ++ [c]) = 10 * ofDigits cs + digitValue c := by
  simp [ofDigits]

theorem ofDigits_digits (n : Nat) : ofDigits (digits n) = n := by
  fun_induction digits n with
  | case1 n h => simp [ofDigits, digitValue_ofNat h]
  | case2 n _ ih =>
    rw [ofDigits_concat, ih, digitValue_ofNat (Nat.mod_lt _ (by decide))]
    omega

theorem digits_ne_nil (n : Nat) : digits n ≠ [] := by
  unfold digits; split <;> simp

theorem all_isDigit_digits (n : Nat) : (digits n).all Char.isDigit = true := by
  fun_induction digits n with
  | case1 n h => simp [isDigit_ofNat h]
  | case2 n _ ih => simp [ih, isDigit_ofNat (Nat.mod_lt n (by decide : 0 < 10))]

theorem readNat?_digits (n : Nat) : readNat? (digits n) = some n := by
  simp [readNat?, digits_ne_nil, all_isDigit_digits, ofDigits_digits]

end TagGrammar.Number
