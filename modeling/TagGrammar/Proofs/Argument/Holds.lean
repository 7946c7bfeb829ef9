import TagGrammar.Proofs.Argument.Reaction

namespace TagGrammar

namespace Bit

theorem cutKeyword?_eq_some {bit key raw : String} (cut : cutKeyword? bit = some (key, raw)) :
    isIdentifier key.toList = true ∧ bit = key ++ "=" ++ raw := by
  unfold cutKeyword? at cut
  split at cut
  · cases cut
  · split at cut
    · rename_i c rest split
      have whole := List.takeWhile_append_dropWhile (p := (· ≠ '=')) (l := bit.toList)
      have sign := List.head?_dropWhile_not (· ≠ '=') bit.toList
      rw [split] at whole sign
      have equals : c = '=' := by simpa using sign
      subst equals
      dsimp only at cut
      split at cut
      · rename_i identifier
        obtain ⟨rfl, rfl⟩ := Prod.mk.inj (Option.some.inj cut)
        refine ⟨by simpa using identifier, ?_⟩
        apply String.toList_injective
        simpa using whole.symm
      · cases cut
    · cases cut

end Bit

namespace Leaf

variable {l : Leaf} {tagname bit : String} {kwargs kwargs' : Kwargs}

/-- What the argument stores for exactly these bits. -/
inductive Holds (l : Leaf) : List String → Value → Prop
  | default : l.Holds [] l.defaultValue
  | single {kind : ValueKind} (bit : String) (shape : l.kind = .single kind) :
    l.Holds [bit] (l.header.capture kind bit)
  | multi {item : ValueKind} {max : Option Nat} {sequence : SequenceKind} {bits : List String}
      (shape : l.kind = .multi item max sequence) (some_bit : bits ≠ [])
      (room : ∀ m ∈ max, bits.length ≤ m) :
    l.Holds bits (.list (bits.map (l.header.capture item)) sequence)
  | keyword {item : ValueKind} {max : Option Nat} {pairs : List (String × String)}
      (shape : l.kind = .keyword item max) (some_pair : pairs ≠ [])
      (room : ∀ m ∈ max, pairs.length ≤ m)
      (identifiers : ∀ p ∈ pairs, Bit.isIdentifier p.1.toList = true)
      (distinct : (pairs.map (·.1)).Nodup) :
    l.Holds (pairs.map fun p => p.1 ++ "=" ++ p.2)
      (.dict (pairs.map fun p => (p.1, l.header.capture item p.2)))
  | flag {w : FlagWords} {truth : Bool} (bit : String) (shape : l.kind = .flag w)
      (reading : l.reading? w bit = some truth) :
    l.Holds [bit] (.fixed (.bool truth))

/-- The table has nothing for the argument, which then got no bit, or what the bits amount to. -/
def HeldIn (l : Leaf) (kwargs : Kwargs) (bits : List String) : Prop :=
  (kwargs.get? l.name = none ∧ bits = []) ∨ ∃ v, kwargs.get? l.name = some v ∧ l.Holds bits v

theorem hasRoom_iff {max : Option Nat} {count : Nat} :
    hasRoom max count = true ↔ ∀ m ∈ max, count + 1 ≤ m := by
  cases max with
  | none => simp [hasRoom]
  | some m =>
    rw [hasRoom, Option.all_some, decide_eq_true_eq]
    refine ⟨fun less n same => ?_, fun all => all m rfl⟩
    cases Option.some.inj same
    exact less

theorem Holds.list_items {item : ValueKind} {max : Option Nat} {sequence sequence' : SequenceKind}
    {bits : List String} {items : List Value} (shape : l.kind = .multi item max sequence)
    (holds : l.Holds bits (.list items sequence')) :
    items = bits.map (l.header.capture item) ∧ sequence' = sequence := by
  generalize value : Value.list items sequence' = v at holds
  cases holds with
  | default =>
    cases default : l.header.default <;> simp_all [defaultValue]
  | single bit shape' => rw [shape] at shape'; cases shape'
  | multi shape' _ _ =>
    rw [shape] at shape'
    cases shape'
    cases value
    exact ⟨rfl, rfl⟩
  | keyword => cases value
  | flag => cases value

theorem Holds.dict_entries {item : ValueKind} {max : Option Nat} {bits : List String}
    {entries : List (String × Value)} (shape : l.kind = .keyword item max)
    (holds : l.Holds bits (.dict entries)) :
    ∃ pairs : List (String × String),
      bits = pairs.map (fun p => p.1 ++ "=" ++ p.2) ∧
      entries = pairs.map (fun p => (p.1, l.header.capture item p.2)) ∧
      (∀ p ∈ pairs, Bit.isIdentifier p.1.toList = true) ∧ (pairs.map (·.1)).Nodup := by
  generalize value : Value.dict entries = v at holds
  cases holds with
  | default =>
    cases default : l.header.default <;> simp_all [defaultValue]
  | single bit shape' => rw [shape] at shape'; cases shape'
  | multi => cases value
  | keyword shape' _ _ identifiers distinct =>
    rw [shape] at shape'
    cases shape'
    cases value
    exact ⟨_, rfl, rfl, identifiers, distinct⟩
  | flag => cases value

structure Takes (l : Leaf) (bit : String) (bits : List String) (kwargs kwargs' : Kwargs)
    (value : Value) : Prop where
  stored : kwargs' = kwargs.insert l.name value
  holds : l.Holds (bits ++ [bit]) value

theorem holds_listReaction {item : ValueKind} {max : Option Nat} {sequence : SequenceKind}
    (bits : List String) {value : Value} (shape : l.kind = .multi item max sequence)
    (taken : l.listReaction item max bit (bits.map (l.header.capture item)) sequence = .take value) :
    l.Holds (bits ++ [bit]) value := by
  obtain ⟨room, rfl⟩ := listReaction_take taken
  rw [List.length_map] at room
  have room' : ∀ m ∈ max, (bits ++ [bit]).length ≤ m := by
    simpa using hasRoom_iff.mp room
  have holds := Holds.multi shape (List.append_ne_nil_of_right_ne_nil bits (List.cons_ne_nil bit []))
    room'
  rwa [List.map_append] at holds

theorem holds_dictReaction {item : ValueKind} {max : Option Nat} (pairs : List (String × String))
    {key raw : String} {value : Value} (shape : l.kind = .keyword item max)
    (identifiers : ∀ p ∈ pairs, Bit.isIdentifier p.1.toList = true)
    (distinct : (pairs.map (·.1)).Nodup) (identifier : Bit.isIdentifier key.toList = true)
    (taken : l.dictReaction item max tagname key raw
      (pairs.map fun p => (p.1, l.header.capture item p.2)) = .take value) :
    l.Holds (pairs.map (fun p => p.1 ++ "=" ++ p.2) ++ [key ++ "=" ++ raw]) value := by
  obtain ⟨room, fresh, rfl⟩ := dictReaction_take taken
  rw [List.length_map] at room
  rw [List.map_map] at fresh
  have holds : l.Holds ((pairs ++ [(key, raw)]).map fun p => p.1 ++ "=" ++ p.2)
      (.dict ((pairs ++ [(key, raw)]).map fun p => (p.1, l.header.capture item p.2))) := by
    apply Holds.keyword shape
    · simp
    · simpa using hasRoom_iff.mp room
    · intro p member
      rcases List.mem_append.mp member with earlier | last
      · exact identifiers p earlier
      · cases List.mem_singleton.mp last
        exact identifier
    · rw [List.map_append, List.nodup_append]
      refine ⟨distinct, by simp, ?_⟩
      rintro k earlier _ last rfl
      cases List.mem_singleton.mp last
      exact fresh earlier
  rwa [List.map_append, List.map_append] at holds

/-- What a reaction takes up goes on top of the bits before. -/
theorem HeldIn.holds_reaction {bits : List String} {value : Value} (held : l.HeldIn kwargs bits)
    (taken : l.reaction tagname bit (kwargs.get? l.name) = .take value) :
    l.Holds (bits ++ [bit]) value := by
  unfold reaction at taken
  cases shape : l.kind with
  | single kind =>
    rw [shape] at taken
    rcases held with ⟨nothing, rfl⟩ | ⟨v, present, _⟩
    · rw [nothing] at taken
      cases taken
      exact .single bit shape
    · rw [present] at taken
      cases taken
  | multi item max sequence =>
    rw [shape] at taken
    rcases held with ⟨nothing, rfl⟩ | ⟨v, present, holds⟩
    · rw [nothing] at taken
      exact holds_listReaction [] shape taken
    · rw [present] at taken
      cases v with
      | list items sequence' =>
        obtain ⟨rfl, rfl⟩ := holds.list_items shape
        exact holds_listReaction bits shape taken
      | _ => cases taken
  | keyword item max =>
    rw [shape] at taken
    dsimp only at taken
    split at taken
    · cases taken
    rename_i key raw cut
    obtain ⟨identifier, rfl⟩ := Bit.cutKeyword?_eq_some cut
    rcases held with ⟨nothing, rfl⟩ | ⟨v, present, holds⟩
    · rw [nothing] at taken
      exact holds_dictReaction [] shape (by simp) (by simp) identifier taken
    · rw [present] at taken
      cases v with
      | dict entries =>
        obtain ⟨pairs, rfl, rfl, identifiers, distinct⟩ := holds.dict_entries shape
        exact holds_dictReaction pairs shape identifiers distinct identifier taken
      | _ => cases taken
  | flag w =>
    rw [shape] at taken
    rcases held with ⟨nothing, rfl⟩ | ⟨v, present, _⟩
    · rw [nothing] at taken
      dsimp only at taken
      rw [if_neg (by simp)] at taken
      split at taken
      · rename_i reading
        cases taken
        exact .flag bit shape reading
      · split at taken <;> cases taken
    · rw [present] at taken
      cases taken

/-- A bit that is taken is stored on top of those before it, under the argument's own name. -/
theorem offer_takes {bits : List String} (held : l.HeldIn kwargs bits)
    (taken : l.offer tagname bit kwargs = .accepted kwargs') :
    ∃ value, l.Takes bit bits kwargs kwargs' value := by
  obtain ⟨value, reacted, stored⟩ := offer_accepted taken
  exact ⟨value, stored, held.holds_reaction reacted⟩

end Leaf

end TagGrammar
