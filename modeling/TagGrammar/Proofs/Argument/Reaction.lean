import TagGrammar.Argument.Offer

namespace TagGrammar

/-- What an argument would make of a bit if it had no exclusions. -/
inductive Reaction where
  | leave
  | take (value : Value)
  | refuse (e : ParseError)

namespace Leaf

variable {l : Leaf} {tagname bit : String} {kwargs : Kwargs}

/-- The truth value a bit stands for: the one whose word it is or, where a required flag has words
for one value only, the other one. -/
def reading? (l : Leaf) (w : FlagWords) (bit : String) : Option Bool :=
  match w.meaning? bit with
  | some truth => some truth
  | none => if !w.twoSided && l.header.required then some w.trueValues.isEmpty else none

def listReaction (l : Leaf) (item : ValueKind) (max : Option Nat) (bit : String) (items : List Value)
    (sequence : SequenceKind) : Reaction :=
  if hasRoom max items.length then .take (.list (items ++ [l.header.capture item bit]) sequence)
  else .leave

def dictReaction (l : Leaf) (item : ValueKind) (max : Option Nat) (tagname key raw : String)
    (entries : List (String × Value)) : Reaction :=
  if !hasRoom max entries.length then .leave
  else if entries.any (·.1 == key) then .refuse (.keywordInUse tagname key)
  else .take (.dict (entries ++ [(key, l.header.capture item raw)]))

/-- All that counts is the bit and what is held under the name of the argument. -/
def reaction (l : Leaf) (tagname bit : String) (held : Option Value) : Reaction :=
  match l.kind with
  | .single kind => if held.isSome then .leave else .take (l.header.capture kind bit)
  | .multi item max sequence =>
    match held with
    | none => l.listReaction item max bit [] sequence
    | some (.list items sequence) => l.listReaction item max bit items sequence
    | some _ => .leave
  | .keyword item max =>
    match Bit.cutKeyword? bit with
    | none => .leave
    | some (key, raw) =>
      match held with
      | none => l.dictReaction item max tagname key raw []
      | some (.dict entries) => l.dictReaction item max tagname key raw entries
      | some _ => .leave
  | .flag w =>
    if held.isSome then .leave
    else
      match l.reading? w bit with
      | some truth => .take (.fixed (.bool truth))
      | none => if w.twoSided then .refuse (.invalidFlag tagname l.name bit w.allowed) else .leave

/-- A bit that is not left is checked against the exclusions first. -/
def answer (l : Leaf) (tagname bit : String) (kwargs : Kwargs) : Reaction → Offer
  | .leave => .declined
  | .take value => l.store tagname bit kwargs value
  | .refuse e =>
    if l.excludes bit then .failed (.invalidArgument tagname l.name bit) else .failed e

theorem answer_listReaction (item : ValueKind) (max : Option Nat) (items : List Value)
    (sequence : SequenceKind) :
    l.answer tagname bit kwargs (l.listReaction item max bit items sequence) =
      if hasRoom max items.length then
        l.store tagname bit kwargs (.list (items ++ [l.header.capture item bit]) sequence)
      else .declined := by
  unfold listReaction
  split <;> rfl

theorem answer_dictReaction (item : ValueKind) (max : Option Nat) (key raw : String)
    (entries : List (String × Value)) :
    l.answer tagname bit kwargs (l.dictReaction item max tagname key raw entries) =
      if !hasRoom max entries.length then .declined
      else if l.excludes bit then .failed (.invalidArgument tagname l.name bit)
      else if entries.any (·.1 == key) then .failed (.keywordInUse tagname key)
      else .accepted
        (kwargs.insert l.name (.dict (entries ++ [(key, l.header.capture item raw)]))) := by
  unfold dictReaction
  split
  · rfl
  · cases entries.any (·.1 == key) <;> rfl

theorem listReaction_take {item : ValueKind} {max : Option Nat} {items : List Value}
    {sequence : SequenceKind} {value : Value}
    (taken : l.listReaction item max bit items sequence = .take value) :
    hasRoom max items.length = true ∧
      value = .list (items ++ [l.header.capture item bit]) sequence := by
  unfold listReaction at taken
  split at taken
  · rename_i room
    exact ⟨room, (Reaction.take.inj taken).symm⟩
  · cases taken

theorem dictReaction_take {item : ValueKind} {max : Option Nat} {key raw : String}
    {entries : List (String × Value)} {value : Value}
    (taken : l.dictReaction item max tagname key raw entries = .take value) :
    hasRoom max entries.length = true ∧ key ∉ entries.map (·.1) ∧
      value = .dict (entries ++ [(key, l.header.capture item raw)]) := by
  unfold dictReaction at taken
  split at taken
  · cases taken
  · rename_i room
    split at taken
    · cases taken
    · rename_i fresh
      refine ⟨by simpa using room, ?_, (Reaction.take.inj taken).symm⟩
      simpa using fresh

theorem listReaction_ne_refuse (item : ValueKind) (max : Option Nat) (items : List Value)
    (sequence : SequenceKind) (e : ParseError) :
    l.listReaction item max bit items sequence ≠ .refuse e := by
  intro refused
  unfold listReaction at refused
  split at refused <;> cases refused

theorem dictReaction_refuse {item : ValueKind} {max : Option Nat} {key raw : String}
    {entries : List (String × Value)} {e : ParseError}
    (refused : l.dictReaction item max tagname key raw entries = .refuse e) :
    e = .keywordInUse tagname key := by
  unfold dictReaction at refused
  split at refused
  · cases refused
  · split at refused
    · exact (Reaction.refuse.inj refused).symm
    · cases refused

theorem offerFlag_eq_answer (w : FlagWords) (shape : l.kind = .flag w) :
    l.offerFlag w tagname bit kwargs =
      l.answer tagname bit kwargs (l.reaction tagname bit (kwargs.get? l.name)) := by
  unfold reaction reading?
  rw [offerFlag, shape, Table.contains]
  dsimp only
  split
  · rfl
  · cases w.meaning? bit with
    | some truth => rfl
    | none => cases w.twoSided <;> cases l.header.required <;> rfl

/-- An offer is decided by the reaction, the exclusions and nothing else. -/
theorem offer_eq_answer :
    l.offer tagname bit kwargs =
      l.answer tagname bit kwargs (l.reaction tagname bit (kwargs.get? l.name)) := by
  rw [offer]
  cases shape : l.kind with
  | single kind =>
    rw [reaction, shape, Table.contains]
    dsimp only
    split <;> rfl
  | multi item max sequence =>
    rw [reaction, shape]
    dsimp only
    rw [offerMulti]
    cases kwargs.get? l.name with
    | none => exact (answer_listReaction item max [] sequence).symm
    | some v =>
      cases v with
      | list items sequence' => exact (answer_listReaction item max items sequence').symm
      | _ => rfl
  | keyword item max =>
    rw [reaction, shape]
    dsimp only
    rw [offerKeyword]
    cases Bit.cutKeyword? bit with
    | none => rfl
    | some cut =>
      obtain ⟨key, raw⟩ := cut
      dsimp only
      cases kwargs.get? l.name with
      | none => exact (answer_dictReaction item max key raw []).symm
      | some v =>
        cases v with
        | dict entries => exact (answer_dictReaction item max key raw entries).symm
        | _ => rfl
  | flag w => exact offerFlag_eq_answer w shape

/-- A bit that is taken is stored under the argument's own name. -/
theorem offer_accepted {kwargs' : Kwargs} (taken : l.offer tagname bit kwargs = .accepted kwargs') :
    ∃ value, l.reaction tagname bit (kwargs.get? l.name) = .take value ∧
      kwargs' = kwargs.insert l.name value := by
  rw [offer_eq_answer] at taken
  cases reacted : l.reaction tagname bit (kwargs.get? l.name) with
  | leave =>
    rw [reacted] at taken
    cases taken
  | take value =>
    rw [reacted, answer, store] at taken
    split at taken
    · cases taken
    · exact ⟨value, rfl, (Offer.accepted.inj taken).symm⟩
  | refuse e =>
    rw [reacted, answer] at taken
    split at taken <;> cases taken

end Leaf

end TagGrammar
