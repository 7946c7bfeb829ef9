import TagGrammar.Grammar.Basic
import TagGrammar.Parse.Error

namespace TagGrammar

/-- Who reads the template: `parseUntil` captures content up to one of the end tags and tells
which one it was, or nothing when the template ends first. -/
structure BlockHost (σ ν : Type) where
  empty : ν
  parseUntil : List String → σ → Option (ν × String) × σ

namespace BlockHost

variable {σ ν : Type}

def noBlocks : BlockHost Unit Unit := ⟨(), fun _ _ => (none, ())⟩

structure Request where
  asked : List String
  found : Option String
  deriving DecidableEq, Repr

def recorded (h : BlockHost σ ν) : BlockHost (σ × List Request) ν where
  empty := h.empty
  parseUntil ends s :=
    let (answer, next) := h.parseUntil ends s.1
    (answer, next, s.2 ++ [⟨ends, answer.map (·.2)⟩])

/-- Stores the content under the first pending block, and empty content under those that the end
tag skips, its own included. The rest is still pending. -/
def assign (h : BlockHost σ ν) (found : String) (content : ν) (blocks : Table ν) :
    List BlockSpec → Table ν × List BlockSpec
  | [] => (blocks, [])
  | b :: rest =>
    if b.identifier = found then (blocks.insert b.name content, rest)
    else h.assign found h.empty (blocks.insert b.name content) rest

theorem length_assign_le (h : BlockHost σ ν) (found : String) (content : ν) (blocks : Table ν)
    (pending : List BlockSpec) :
    (h.assign found content blocks pending).2.length ≤ pending.length := by
  induction pending generalizing content blocks with
  | nil => simp [assign]
  | cons b rest ih =>
    unfold assign
    split
    · simp
    · exact Nat.le_succ_of_le (ih _ _)

theorem length_assign_lt (h : BlockHost σ ν) (found : String) (content : ν) (blocks : Table ν)
    (b : BlockSpec) (rest : List BlockSpec) :
    (h.assign found content blocks (b :: rest)).2.length < (b :: rest).length := by
  unfold assign
  split
  · simp
  · exact Nat.lt_succ_of_le (length_assign_le h found _ _ rest)

def captureFrom (h : BlockHost σ ν) (tagname : String) (blocks : Table ν) :
    List BlockSpec → σ → Except ParseError (Table ν) × σ
  | [], s => (.ok blocks, s)
  | b :: rest, s =>
    let ends := (b :: rest).map BlockSpec.identifier
    match h.parseUntil ends s with
    | (none, s) => (.error (.unclosedBlock tagname ends), s)
    | (some (content, found), s) =>
      let next := h.assign found content blocks (b :: rest)
      h.captureFrom tagname next.1 next.2 s
termination_by pending => pending.length
decreasing_by exact length_assign_lt ..

def capture (h : BlockHost σ ν) (tagname : String) (specs : List BlockSpec) (s : σ) :
    Except ParseError (Table ν) × σ :=
  h.captureFrom tagname .empty specs s

end BlockHost

end TagGrammar
