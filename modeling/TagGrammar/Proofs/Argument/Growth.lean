import TagGrammar.Proofs.Argument.Locality

namespace TagGrammar

/-- What one bit makes of the value under a name: the first one there, or one more entry at the end of
a list or of a dictionary. -/
inductive Value.Grows : Option Value → Value → Prop
  | fresh (value : Value) : Grows none value
  | list (items : List Value) (item : Value) (sequence : SequenceKind) :
    Grows (some (.list items sequence)) (.list (items ++ [item]) sequence)
  | dict (entries : List (String × Value)) (entry : String × Value) :
    Grows (some (.dict entries)) (.dict (entries ++ [entry]))

namespace Value.Grows

variable {held : Option Value} {value : Value} {kwargs : Kwargs} {name : String}

theorem ne (grows : value.Grows held) : held ≠ some value := by
  cases grows <;> simp

theorem get?_insert_ne_iff (grows : value.Grows (kwargs.get? name)) (n : String) :
    (kwargs.insert name value).get? n ≠ kwargs.get? n ↔ n = name := by
  by_cases same : name = n
  · subst same
    simpa using grows.ne.symm
  · simp [Table.get?_insert, same, Ne.symm same]

end Value.Grows

variable {tagname bit : String} {kwargs kwargs' : Kwargs}

namespace Leaf

variable {l l' : Leaf} {held : Option Value} {value : Value}

theorem reaction_grows (taken : l.reaction tagname bit held = .take value) : value.Grows held := by
  unfold reaction at taken
  cases shape : l.kind with
  | single kind =>
    rw [shape] at taken
    cases held with
    | none => exact .fresh value
    | some v => cases taken
  | multi item max sequence =>
    rw [shape] at taken
    dsimp only at taken
    split at taken
    · exact .fresh value
    · obtain ⟨_, rfl⟩ := listReaction_take taken
      exact .list _ _ _
    · cases taken
  | keyword item max =>
    rw [shape] at taken
    dsimp only at taken
    split at taken
    · cases taken
    · split at taken
      · exact .fresh value
      · obtain ⟨_, _, rfl⟩ := dictReaction_take taken
        exact .dict _ _
      · cases taken
  | flag w =>
    rw [shape] at taken
    cases held with
    | none => exact .fresh value
    | some v => cases taken

theorem offer_grows (taken : l.offer tagname bit kwargs = .accepted kwargs') :
    ∃ value, value.Grows (kwargs.get? l.name) ∧ kwargs' = kwargs.insert l.name value := by
  obtain ⟨value, reacted, stored⟩ := offer_accepted taken
  exact ⟨value, reaction_grows reacted, stored⟩

/-- The table shows under which name a bit went into it. -/
theorem name_eq_of_offer (taken : l.offer tagname bit kwargs = .accepted kwargs')
    (taken' : l'.offer tagname bit kwargs = .accepted kwargs') : l.name = l'.name := by
  obtain ⟨value, grows, stored⟩ := offer_grows taken
  obtain ⟨value', grows', stored'⟩ := offer_grows taken'
  have changed := (grows.get?_insert_ne_iff l.name).mpr rfl
  rw [← stored, stored'] at changed
  exact (grows'.get?_insert_ne_iff l.name).mp changed

end Leaf

theorem Argument.offer_grows {a : Argument} (taken : a.offer tagname bit kwargs = .accepted kwargs') :
    ∃ name ∈ a.storedNames, ∃ value, value.Grows (kwargs.get? name) ∧
      kwargs' = kwargs.insert name value := by
  obtain ⟨l, below, taken⟩ := exists_leaf_offer taken
  obtain ⟨value, grows, stored⟩ := Leaf.offer_grows taken
  exact ⟨l.name, List.mem_map.mpr ⟨l, below, rfl⟩, value, grows, stored⟩

end TagGrammar
