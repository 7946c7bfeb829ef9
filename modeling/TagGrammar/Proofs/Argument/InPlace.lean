import TagGrammar.Parse.State
import TagGrammar.Proofs.Argument.Growth
import TagGrammar.Proofs.Table.Entries

namespace TagGrammar

/-- Code that works on one table: what it has written stays written when it stops at an error. -/
abbrev InPlace := ExceptT ParseError (StateM Kwargs)

/-- The answer of such code, and the table that it leaves. -/
def InPlace.on (kwargs : Kwargs) (code : InPlace Bool) : Except ParseError Bool × Kwargs :=
  code.run.run kwargs

namespace InPlace

variable {kwargs : Kwargs}

@[simp] theorem on_pure (b : Bool) : on kwargs (pure b) = (.ok b, kwargs) := rfl

@[simp] theorem on_get_bind (next : Kwargs → InPlace Bool) :
    on kwargs (get >>= next) = on kwargs (next kwargs) := rfl

@[simp] theorem on_modify_bind (f : Kwargs → Kwargs) (next : PUnit → InPlace Bool) :
    on kwargs (modify f >>= next) = on (f kwargs) (next ⟨⟩) := rfl

end InPlace

/-- An offer as a change of the table it was made on. -/
def Offer.onto (kwargs : Kwargs) : Offer → Except ParseError Bool × Kwargs
  | accepted kwargs' => (.ok true, kwargs')
  | declined => (.ok false, kwargs)
  | failed e => (.error e, kwargs)

namespace Offer

variable {offer : Offer} {kwargs after : Kwargs} {verdict : Except ParseError Bool}

theorem onto_eq_true (taken : offer.onto kwargs = (.ok true, after)) : offer = .accepted after := by
  cases offer with
  | accepted kwargs' =>
    cases taken
    rfl
  | declined => cases taken
  | failed e => cases taken

theorem onto_unchanged (made : offer.onto kwargs = (verdict, after)) (untaken : verdict ≠ .ok true) :
    after = kwargs := by
  cases offer with
  | accepted kwargs' =>
    cases made
    exact absurd rfl untaken
  | declined =>
    cases made
    rfl
  | failed e =>
    cases made
    rfl

end Offer

namespace Kwargs

/-- Makes an entry where there is none. -/
def orInsert (kwargs : Kwargs) (name : String) (value : Value) : Kwargs :=
  if kwargs.contains name then kwargs else kwargs.insert name value

def amend (kwargs : Kwargs) (name : String) (f : Value → Value) : Kwargs :=
  match kwargs.get? name with
  | some v => kwargs.insert name (f v)
  | none => kwargs

theorem amend_orInsert (kwargs : Kwargs) (name : String) (value : Value) (f : Value → Value) :
    (kwargs.orInsert name value).amend name f =
      kwargs.insert name (f ((kwargs.get? name).getD value)) := by
  cases held : kwargs.get? name with
  | none =>
    simp [orInsert, amend, Table.contains, held, Table.insert_insert]
  | some v => simp [orInsert, amend, Table.contains, held]

end Kwargs

namespace Value

def pushItem (item : Value) : Value → Value
  | list items sequence => list (items ++ [item]) sequence
  | v => v

def pushEntry (key : String) (value : Value) : Value → Value
  | dict entries => dict (entries ++ [(key, value)])
  | v => v

end Value

namespace Leaf

def checkExcluded (l : Leaf) (tagname bit : String) : InPlace Unit :=
  if l.excludes bit then throw (.invalidArgument tagname l.name bit) else pure ()

/-- Makes the entry first where it is missing, and then adds to it. -/
def extend (l : Leaf) (first : Value) (push : Value → Value) : InPlace Bool := do
  modify (Kwargs.orInsert · l.name first)
  modify (Kwargs.amend · l.name push)
  return true

def feedSingle (l : Leaf) (kind : ValueKind) (tagname bit : String) : InPlace Bool := do
  if (← get).contains l.name then return false
  l.checkExcluded tagname bit
  modify (·.insert l.name (l.header.capture kind bit))
  return true

def feedItem (l : Leaf) (item : ValueKind) (max : Option Nat) (sequence : SequenceKind)
    (tagname bit : String) (items : List Value) : InPlace Bool := do
  if !hasRoom max items.length then return false
  l.checkExcluded tagname bit
  l.extend (.list [] sequence) (Value.pushItem (l.header.capture item bit))

def feedMulti (l : Leaf) (item : ValueKind) (max : Option Nat) (sequence : SequenceKind)
    (tagname bit : String) : InPlace Bool := do
  match (← get).get? l.name with
  | none => l.feedItem item max sequence tagname bit []
  | some (.list items _) => l.feedItem item max sequence tagname bit items
  | some _ => return false

def feedEntry (l : Leaf) (item : ValueKind) (max : Option Nat) (tagname bit key raw : String)
    (entries : List (String × Value)) : InPlace Bool := do
  if !hasRoom max entries.length then return false
  l.checkExcluded tagname bit
  if entries.any (·.1 == key) then throw (.keywordInUse tagname key)
  l.extend (.dict []) (Value.pushEntry key (l.header.capture item raw))

def feedKeyword (l : Leaf) (item : ValueKind) (max : Option Nat) (tagname bit : String) :
    InPlace Bool := do
  let some (key, raw) := Bit.cutKeyword? bit | return false
  match (← get).get? l.name with
  | none => l.feedEntry item max tagname bit key raw []
  | some (.dict entries) => l.feedEntry item max tagname bit key raw entries
  | some _ => return false

def feedFlag (l : Leaf) (w : FlagWords) (tagname bit : String) : InPlace Bool := do
  if (← get).contains l.name then return false
  let matched := w.meaning? bit
  if matched.isNone && !w.twoSided && !l.header.required then return false
  l.checkExcluded tagname bit
  let truth ← match matched with
    | some truth => pure truth
    | none =>
      if w.twoSided then throw (.invalidFlag tagname l.name bit w.allowed)
      else pure w.trueValues.isEmpty
  modify (·.insert l.name (.fixed (.bool truth)))
  return true

/-- Offers a bit by writing to the table step by step. -/
def feed (l : Leaf) (tagname bit : String) : InPlace Bool :=
  match l.kind with
  | .single kind => l.feedSingle kind tagname bit
  | .multi item max sequence => l.feedMulti item max sequence tagname bit
  | .keyword item max => l.feedKeyword item max tagname bit
  | .flag w => l.feedFlag w tagname bit

variable {l : Leaf} {tagname bit : String} {kwargs : Kwargs}

theorem on_checkExcluded_bind (next : Unit → InPlace Bool) :
    (l.checkExcluded tagname bit >>= next).on kwargs =
      if l.excludes bit then (.error (.invalidArgument tagname l.name bit), kwargs)
      else (next ()).on kwargs := by
  unfold checkExcluded
  split <;> rfl

theorem feedSingle_on (kind : ValueKind) :
    (l.feedSingle kind tagname bit).on kwargs =
      (if kwargs.contains l.name then Offer.declined
        else l.store tagname bit kwargs (l.header.capture kind bit)).onto kwargs := by
  rw [feedSingle, store, InPlace.on_get_bind]
  split
  · rfl
  · rw [on_checkExcluded_bind]
    split <;> rfl

theorem extend_on (first : Value) (push : Value → Value) :
    (l.extend first push).on kwargs =
      (.ok true, kwargs.insert l.name (push ((kwargs.get? l.name).getD first))) := by
  rw [extend, InPlace.on_modify_bind, InPlace.on_modify_bind, InPlace.on_pure, Kwargs.amend_orInsert]

theorem feedItem_on {item : ValueKind} {max : Option Nat} {sequence sequence' : SequenceKind}
    {items : List Value} (held : (kwargs.get? l.name).getD (.list [] sequence) = .list items sequence') :
    (l.feedItem item max sequence tagname bit items).on kwargs =
      (l.answer tagname bit kwargs (l.listReaction item max bit items sequence')).onto kwargs := by
  rw [feedItem, answer_listReaction]
  cases hasRoom max items.length
  · rfl
  · change (l.checkExcluded tagname bit >>= _).on kwargs = (l.store _ _ _ _).onto kwargs
    rw [on_checkExcluded_bind, store, extend_on, held]
    split <;> rfl

theorem feedEntry_on {item : ValueKind} {max : Option Nat} {key raw : String}
    {entries : List (String × Value)} (held : (kwargs.get? l.name).getD (.dict []) = .dict entries) :
    (l.feedEntry item max tagname bit key raw entries).on kwargs =
      (l.answer tagname bit kwargs (l.dictReaction item max tagname key raw entries)).onto kwargs := by
  rw [feedEntry, answer_dictReaction]
  cases hasRoom max entries.length
  · rfl
  · change (l.checkExcluded tagname bit >>= _).on kwargs = _
    rw [on_checkExcluded_bind]
    cases l.excludes bit
    · cases entries.any (·.1 == key)
      · change (l.extend _ _).on kwargs = _
        rw [extend_on, held]
        rfl
      · rfl
    · rfl

theorem feedFlag_on (w : FlagWords) :
    (l.feedFlag w tagname bit).on kwargs = (l.offerFlag w tagname bit kwargs).onto kwargs := by
  rw [feedFlag, offerFlag, InPlace.on_get_bind]
  split
  · rfl
  · simp only [checkExcluded, store]
    cases w.meaning? bit with
    | some truth => cases l.excludes bit <;> rfl
    | none =>
      cases w.twoSided <;> cases l.header.required <;> cases l.excludes bit <;> rfl

/-- Writing to the table step by step comes to the same as the offer. -/
theorem feed_on : (l.feed tagname bit).on kwargs = (l.offer tagname bit kwargs).onto kwargs := by
  cases shape : l.kind with
  | single kind =>
    rw [feed, offer, shape]
    exact feedSingle_on kind
  | multi item max sequence =>
    rw [offer_eq_answer, feed, reaction, shape]
    change (l.feedMulti item max sequence tagname bit).on kwargs = _
    rw [feedMulti, InPlace.on_get_bind]
    cases held : kwargs.get? l.name with
    | none => exact feedItem_on (by rw [held]; rfl)
    | some v =>
      cases v with
      | list items sequence' => exact feedItem_on (by rw [held]; rfl)
      | _ => rfl
  | keyword item max =>
    rw [offer_eq_answer, feed, reaction, shape]
    change (l.feedKeyword item max tagname bit).on kwargs = _
    rw [feedKeyword]
    cases Bit.cutKeyword? bit with
    | none => rfl
    | some cut =>
      obtain ⟨key, raw⟩ := cut
      dsimp only
      rw [InPlace.on_get_bind]
      cases held : kwargs.get? l.name with
      | none => exact feedEntry_on (by rw [held]; rfl)
      | some v =>
        cases v with
        | dict entries => exact feedEntry_on (by rw [held]; rfl)
        | _ => rfl
  | flag w =>
    rw [feed, offer, shape]
    exact feedFlag_on w

end Leaf

namespace Argument

mutual

/-- Offers a bit to a group as well: a trial works on a copy, and the copy takes the table's place only
when it is taken. -/
def feed (tagname bit : String) : Argument → InPlace Bool
  | leaf l => l.feed tagname bit
  | group h alternatives => do
    match feedChosen? tagname bit (← get) alternatives with
    | some chosen => chosen
    | none => feedTrial tagname bit h alternatives

def feedChosen? (tagname bit : String) (kwargs : Kwargs) : List Argument → Option (InPlace Bool)
  | [] => none
  | a :: rest =>
    if a.isSatisfied kwargs then some (a.feed tagname bit)
    else feedChosen? tagname bit kwargs rest

def feedTrial (tagname bit : String) (h : Header) : List Argument → InPlace Bool
  | [] => return false
  | a :: rest => do
    match (a.feed tagname bit).on (← get) with
    | (.ok true, trial) =>
      if h.exclude.contains bit then throw (.invalidArgument tagname h.name bit)
      set trial
      return true
    | _ => feedTrial tagname bit h rest

end

variable {a : Argument} {tagname bit : String} {kwargs : Kwargs}

theorem feedChosen?_eq_find? (alternatives : List Argument) :
    feedChosen? tagname bit kwargs alternatives =
      (alternatives.find? (·.isSatisfied kwargs)).map (·.feed tagname bit) := by
  induction alternatives with
  | nil => rfl
  | cons a rest ih =>
    rw [feedChosen?, List.find?_cons, ih]
    cases a.isSatisfied kwargs <;> rfl

theorem feedTrial_on (h : Header) {alternatives : List Argument}
    (same : ∀ a ∈ alternatives,
      (a.feed tagname bit).on kwargs = (a.offer tagname bit kwargs).onto kwargs) :
    (feedTrial tagname bit h alternatives).on kwargs =
      (match alternatives.findSome? fun a : Argument => (a.offer tagname bit kwargs).kwargs? with
        | none => Offer.declined
        | some kwargs' =>
          if h.exclude.contains bit then .failed (.invalidArgument tagname h.name bit)
          else .accepted kwargs').onto kwargs := by
  induction alternatives with
  | nil => rfl
  | cons a rest ih =>
    rw [feedTrial, InPlace.on_get_bind, same a List.mem_cons_self, List.findSome?_cons]
    have later := ih fun b member => same b (List.mem_cons_of_mem a member)
    cases a.offer tagname bit kwargs with
    | accepted trial =>
      dsimp only [Offer.onto, Offer.kwargs?]
      cases h.exclude.contains bit <;> rfl
    | declined => exact later
    | failed e => exact later

theorem feed_on (a : Argument) (tagname bit : String) (kwargs : Kwargs) :
    (a.feed tagname bit).on kwargs = (a.offer tagname bit kwargs).onto kwargs := by
  induction a using induction with
  | leaf l =>
    rw [feed, offer]
    exact Leaf.feed_on
  | group h alternatives ih =>
    rw [feed, offer_group, InPlace.on_get_bind, feedChosen?_eq_find?]
    cases found : alternatives.find? (·.isSatisfied kwargs) with
    | some a => exact ih a (List.mem_of_find?_eq_some found)
    | none => exact feedTrial_on h ih

end Argument

theorem ParseState.offerIn_failed_frame {bit : String} {s t : ParseState}
    {arguments : List Argument} {e : ParseError}
    (failed : offerIn bit s arguments = .failed e t) : t.kwargs = s.kwargs ∧ t.cursor = s.cursor := by
  induction arguments with
  | nil =>
    cases failed
    exact ⟨rfl, rfl⟩
  | cons a rest ih =>
    rw [offerIn] at failed
    split at failed
    · cases failed
    · cases failed
      exact ⟨rfl, rfl⟩
    · exact ih failed

open Kwargs (AgreeOn)

namespace Argument

/-- A bit that an argument does not take leaves no trace in the table, also where alternatives were
tried on the way. One that it takes changes one name of its own, by a value that is new or one entry
longer. Both the answer and the change depend on what is held under these names only. -/
theorem one_change (a : Argument) (tagname bit : String) (kwargs : Kwargs) :
    let (verdict, after) := (a.feed tagname bit).on kwargs
    (verdict, after) = (a.offer tagname bit kwargs).onto kwargs ∧
    (verdict ≠ .ok true → after = kwargs) ∧
    (verdict = .ok true → ∃ name ∈ a.storedNames, ∃ value, value.Grows (kwargs.get? name) ∧
      after = kwargs.insert name value ∧ ∀ n, after.get? n ≠ kwargs.get? n ↔ n = name) ∧
    (∀ other, AgreeOn a.storedNames kwargs other →
      Offer.Alike a.storedNames kwargs other (a.offer tagname bit kwargs) (a.offer tagname bit other)) ∧
    ∀ s e t, ParseState.handleArgument bit s = .failed e t →
      t.kwargs = s.kwargs ∧ t.cursor = s.cursor := by
  have same := a.feed_on tagname bit kwargs
  generalize (a.feed tagname bit).on kwargs = result at same
  obtain ⟨verdict, after⟩ := result
  refine ⟨same, ?_, ?_, fun other => offer_alike, fun s e t => ParseState.offerIn_failed_frame⟩
  · exact Offer.onto_unchanged same.symm
  · rintro rfl
    obtain ⟨name, own, value, grows, stored⟩ := offer_grows (Offer.onto_eq_true same.symm)
    refine ⟨name, own, value, grows, stored, ?_⟩
    rw [stored]
    exact grows.get?_insert_ne_iff

end Argument

end TagGrammar
