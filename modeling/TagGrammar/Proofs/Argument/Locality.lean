import TagGrammar.Proofs.Argument.Holds

namespace TagGrammar

/-- Two tables that hold the same under each of the names. -/
def Kwargs.AgreeOn (names : List String) (left right : Kwargs) : Prop :=
  ∀ n ∈ names, left.get? n = right.get? n

namespace Kwargs.AgreeOn

variable {names : List String} {left right : Kwargs}

theorem mono {fewer : List String} (same : AgreeOn names left right) (subset : fewer ⊆ names) :
    AgreeOn fewer left right := fun n member => same n (subset member)

theorem insert (same : AgreeOn names left right) (name : String) (value : Value) :
    AgreeOn names (left.insert name value) (right.insert name value) := by
  intro n member
  rw [Table.get?_insert, Table.get?_insert, same n member]

theorem contains (same : AgreeOn names left right) {n : String} (member : n ∈ names) :
    left.contains n = right.contains n := by
  unfold Table.contains
  rw [same n member]

end Kwargs.AgreeOn

open Kwargs (AgreeOn)

/-- The same answer from two tables: both take the bit by storing one value under one of the names,
or neither does. -/
inductive Offer.Alike (names : List String) (left right : Kwargs) : Offer → Offer → Prop
  | stored {name : String} (value : Value) (own : name ∈ names) :
    Offer.Alike names left right (.accepted (left.insert name value))
      (.accepted (right.insert name value))
  | declined : Offer.Alike names left right .declined .declined
  | failed (e : ParseError) : Offer.Alike names left right (.failed e) (.failed e)

def Offer.kwargs? : Offer → Option Kwargs
  | .accepted kwargs => some kwargs
  | .declined => none
  | .failed _ => none

theorem Offer.kwargs?_eq_some {answer : Offer} {kwargs : Kwargs} (h : answer.kwargs? = some kwargs) :
    answer = .accepted kwargs := by
  cases answer <;> simp_all [kwargs?]

theorem Offer.Alike.mono {fewer names : List String} {left right : Kwargs} {first second : Offer}
    (alike : Offer.Alike fewer left right first second) (subset : fewer ⊆ names) :
    Offer.Alike names left right first second := by
  cases alike with
  | stored value own => exact .stored value (subset own)
  | declined => exact .declined
  | failed e => exact .failed e

namespace Leaf

variable {l : Leaf} {tagname bit : String} {left right : Kwargs}

theorem answer_alike (r : Reaction) :
    Offer.Alike [l.name] left right (l.answer tagname bit left r) (l.answer tagname bit right r) := by
  cases r with
  | leave => exact .declined
  | take value =>
    rw [answer, answer, store, store]
    split
    · exact .failed _
    · exact .stored value (List.mem_singleton.mpr rfl)
  | refuse e =>
    rw [answer, answer]
    split
    · exact .failed _
    · exact .failed e

theorem offer_alike (held : left.get? l.name = right.get? l.name) :
    Offer.Alike [l.name] left right (l.offer tagname bit left) (l.offer tagname bit right) := by
  rw [offer_eq_answer, offer_eq_answer, held]
  exact answer_alike _

end Leaf

namespace Argument

variable {a : Argument} {tagname bit : String} {left right kwargs kwargs' : Kwargs}

@[elab_as_elim]
theorem induction {motive : Argument → Prop} (leaf : ∀ l, motive (.leaf l))
    (group : ∀ h alternatives, (∀ a ∈ alternatives, motive a) → motive (.group h alternatives)) :
    ∀ a, motive a
  | .leaf l => leaf l
  | .group h alternatives => group h alternatives fun a _ => induction leaf group a

theorem storedNames_leaf (l : Leaf) : (leaf l).storedNames = [l.name] := by
  simp [storedNames, leaves]

theorem leaves_group (h : Header) (alternatives : List Argument) :
    (group h alternatives).leaves = alternatives.flatMap leaves := by
  rw [leaves, leavesIn_eq_flatMap]

theorem storedNames_group (h : Header) (alternatives : List Argument) :
    (group h alternatives).storedNames = alternatives.flatMap storedNames := by
  rw [storedNames, leaves_group, List.map_flatMap]
  rfl

theorem storedNames_subset {h : Header} {alternatives : List Argument}
    (member : a ∈ alternatives) : a.storedNames ⊆ (group h alternatives).storedNames := by
  intro n own
  rw [storedNames_group]
  exact List.mem_flatMap.mpr ⟨a, member, own⟩

theorem isSatisfied_iff :
    a.isSatisfied kwargs = true ↔ ∃ n ∈ a.storedNames, kwargs.contains n = true := by
  simp only [isSatisfied, storedNames, List.any_eq_true, List.mem_map]
  constructor
  · intro given
    obtain ⟨l, member, present⟩ := given
    exact ⟨l.name, ⟨l, member, rfl⟩, present⟩
  · intro given
    obtain ⟨_, ⟨l, member, rfl⟩, present⟩ := given
    exact ⟨l, member, present⟩

theorem isSatisfied_of_absent (absent : ∀ n ∈ a.storedNames, kwargs.get? n = none) :
    a.isSatisfied kwargs = false := by
  rw [← Bool.not_eq_true, isSatisfied_iff]
  intro given
  obtain ⟨n, own, present⟩ := given
  simp [Table.contains, absent n own] at present

theorem isSatisfied_group (h : Header) (alternatives : List Argument) :
    (group h alternatives).isSatisfied kwargs = true ↔
      ∃ a ∈ alternatives, a.isSatisfied kwargs = true := by
  simp only [isSatisfied_iff, storedNames_group, List.mem_flatMap]
  constructor
  · intro satisfied
    obtain ⟨n, ⟨a, member, own⟩, present⟩ := satisfied
    exact ⟨a, member, n, own, present⟩
  · intro satisfied
    obtain ⟨a, member, n, own, present⟩ := satisfied
    exact ⟨n, ⟨a, member, own⟩, present⟩

theorem isSatisfied_congr (same : AgreeOn a.storedNames left right) :
    a.isSatisfied left = a.isSatisfied right := by
  rw [Bool.eq_iff_iff, isSatisfied_iff, isSatisfied_iff]
  constructor
  · intro given
    obtain ⟨n, own, present⟩ := given
    exact ⟨n, own, same.contains own ▸ present⟩
  · intro given
    obtain ⟨n, own, present⟩ := given
    exact ⟨n, own, same.contains own ▸ present⟩

theorem offerChosen?_eq_find? (alternatives : List Argument) :
    offerChosen? tagname bit kwargs alternatives =
      (alternatives.find? (·.isSatisfied kwargs)).map (·.offer tagname bit kwargs) := by
  induction alternatives with
  | nil => rfl
  | cons a rest ih =>
    rw [offerChosen?, List.find?_cons, ih]
    cases a.isSatisfied kwargs <;> rfl

theorem offerFirst?_eq_findSome? (alternatives : List Argument) :
    offerFirst? tagname bit kwargs alternatives =
      alternatives.findSome? fun a => (a.offer tagname bit kwargs).kwargs? := by
  induction alternatives with
  | nil => rfl
  | cons a rest ih =>
    rw [offerFirst?, List.findSome?_cons, ih]
    cases a.offer tagname bit kwargs <;> rfl

theorem offer_group (h : Header) (alternatives : List Argument) :
    (group h alternatives).offer tagname bit kwargs =
      match alternatives.find? (·.isSatisfied kwargs) with
      | some a => a.offer tagname bit kwargs
      | none =>
        match alternatives.findSome? fun a => (a.offer tagname bit kwargs).kwargs? with
        | none => .declined
        | some kwargs' =>
          if h.exclude.contains bit then .failed (.invalidArgument tagname h.name bit)
          else .accepted kwargs' := by
  rw [offer, offerChosen?_eq_find?, offerFirst?_eq_findSome?]
  cases alternatives.find? (·.isSatisfied kwargs) <;> rfl

theorem find?_isSatisfied_congr {names : List String} {alternatives : List Argument}
    (own : ∀ a ∈ alternatives, a.storedNames ⊆ names) (same : AgreeOn names left right) :
    alternatives.find? (·.isSatisfied left) = alternatives.find? (·.isSatisfied right) := by
  induction alternatives with
  | nil => rfl
  | cons a rest ih =>
    have head := isSatisfied_congr (same.mono (own a List.mem_cons_self))
    have tail := ih fun b member => own b (List.mem_cons_of_mem a member)
    rw [List.find?_cons, List.find?_cons, head, tail]

theorem findSome?_alike {names : List String} {alternatives : List Argument}
    (alike : ∀ a ∈ alternatives, Offer.Alike names left right (a.offer tagname bit left)
      (a.offer tagname bit right)) :
    (alternatives.findSome? (fun a => (a.offer tagname bit left).kwargs?) = none ∧
      alternatives.findSome? (fun a => (a.offer tagname bit right).kwargs?) = none) ∨
    ∃ name ∈ names, ∃ value,
      alternatives.findSome? (fun a => (a.offer tagname bit left).kwargs?) =
        some (left.insert name value) ∧
      alternatives.findSome? (fun a => (a.offer tagname bit right).kwargs?) =
        some (right.insert name value) := by
  induction alternatives with
  | nil => exact .inl ⟨rfl, rfl⟩
  | cons a rest ih =>
    have head := alike a List.mem_cons_self
    have tail := ih fun b member => alike b (List.mem_cons_of_mem a member)
    rw [List.findSome?_cons, List.findSome?_cons]
    generalize a.offer tagname bit left = first, a.offer tagname bit right = second at head
    cases head with
    | stored value own => exact .inr ⟨_, own, value, rfl, rfl⟩
    | declined => exact tail
    | failed e => exact tail

/-- The answer to a bit depends on what is held under the names of the argument only. -/
theorem offer_alike (same : AgreeOn a.storedNames left right) :
    Offer.Alike a.storedNames left right (a.offer tagname bit left) (a.offer tagname bit right) := by
  induction a using induction with
  | leaf l =>
    rw [offer, offer, storedNames_leaf]
    exact Leaf.offer_alike (same _ (by simp [storedNames_leaf]))
  | group h alternatives ih =>
    have inner : ∀ a ∈ alternatives, Offer.Alike (group h alternatives).storedNames left right
        (a.offer tagname bit left) (a.offer tagname bit right) := by
      intro a member
      have subset := storedNames_subset (h := h) member
      exact (ih a member (same.mono subset)).mono subset
    have own : ∀ a ∈ alternatives, a.storedNames ⊆ (group h alternatives).storedNames :=
      fun a member => storedNames_subset member
    have chosen := find?_isSatisfied_congr own same
    rw [offer_group, offer_group, chosen]
    cases found : alternatives.find? (·.isSatisfied right) with
    | some a => exact inner a (List.mem_of_find?_eq_some found)
    | none =>
      dsimp only
      rcases findSome?_alike inner with ⟨first, second⟩ | ⟨name, own, value, first, second⟩
      · rw [first, second]
        exact .declined
      · rw [first, second]
        dsimp only
        split
        · exact .failed _
        · exact .stored value own

theorem offer_stored (taken : a.offer tagname bit kwargs = .accepted kwargs') :
    ∃ name ∈ a.storedNames, ∃ value, kwargs' = kwargs.insert name value := by
  have alike : Offer.Alike a.storedNames kwargs kwargs (a.offer tagname bit kwargs)
      (a.offer tagname bit kwargs) := offer_alike fun _ _ => rfl
  rw [taken] at alike
  generalize answer : Offer.accepted kwargs' = first at alike
  cases alike with
  | stored value own =>
    cases answer
    exact ⟨_, own, value, rfl⟩
  | declined => cases answer
  | failed e => cases answer

theorem get?_offer_of_notMem (taken : a.offer tagname bit kwargs = .accepted kwargs') {n : String}
    (foreign : n ∉ a.storedNames) : kwargs'.get? n = kwargs.get? n := by
  obtain ⟨name, own, value, rfl⟩ := offer_stored taken
  rw [Table.get?_insert, if_neg]
  rintro rfl
  exact foreign own

theorem exists_alternative_offer {h : Header} {alternatives : List Argument}
    (taken : (group h alternatives).offer tagname bit kwargs = .accepted kwargs') :
    ∃ a ∈ alternatives, a.offer tagname bit kwargs = .accepted kwargs' := by
  rw [offer_group] at taken
  split at taken
  · rename_i a found
    exact ⟨a, List.mem_of_find?_eq_some found, taken⟩
  · split at taken
    · cases taken
    · rename_i found
      obtain ⟨a, member, answer⟩ := List.exists_of_findSome?_eq_some found
      split at taken
      · cases taken
      · cases taken
        exact ⟨a, member, Offer.kwargs?_eq_some answer⟩

theorem exists_leaf_offer (taken : a.offer tagname bit kwargs = .accepted kwargs') :
    ∃ l ∈ a.leaves, l.offer tagname bit kwargs = .accepted kwargs' := by
  induction a using induction with
  | leaf l => exact ⟨l, by simp [leaves], by rwa [offer] at taken⟩
  | group h alternatives ih =>
    obtain ⟨a, member, taken⟩ := exists_alternative_offer taken
    obtain ⟨l, below, taken⟩ := ih a member taken
    rw [leaves_group]
    exact ⟨l, List.mem_flatMap.mpr ⟨a, member, below⟩, taken⟩

end Argument

end TagGrammar
