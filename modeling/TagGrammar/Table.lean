namespace TagGrammar

/-- Entries in the order of their names, each name once and all behind the bound, if there is one. The
order is said entry by entry, as no proof about a list of entries can stand in the objects of `Json`. -/
inductive Table.Entries (α : Type) : Option String → Type where
  | nil {bound : Option String} : Entries α bound
  | cons {bound : Option String} (name : String) (value : α) (behind : ∀ b ∈ bound, b < name)
      (rest : Entries α (some name)) : Entries α bound

namespace Table.Entries

variable {α : Type} {bound : Option String}

def toList {bound : Option String} : Entries α bound → List (String × α)
  | nil => []
  | cons name value _ rest => (name, value) :: rest.toList

def widen {name : String} (behind : ∀ b ∈ bound, b < name) : Entries α (some name) → Entries α bound
  | nil => nil
  | cons next value later rest =>
    cons next value (fun b bounds => String.lt_trans (behind b bounds) (later name rfl)) rest

def insert {bound : Option String} (name : String) (value : α) (inside : ∀ b ∈ bound, b < name) :
    Entries α bound → Entries α bound
  | nil => cons name value inside nil
  | cons k v behind rest =>
    if before : name < k then
      cons name value inside (cons k v (fun _ bounds => Option.some.inj bounds ▸ before) rest)
    else if own : k = name then cons k value behind rest
    else
      have after : k < name := Std.lt_of_le_of_ne (String.not_lt.mp before) own
      cons k v behind (rest.insert name value fun _ bounds => Option.some.inj bounds ▸ after)

def erase {bound : Option String} (name : String) : Entries α bound → Entries α bound
  | nil => nil
  | cons k v behind rest =>
    if k = name then rest.widen behind else cons k v behind (rest.erase name)

theorem toList_widen {name : String} (behind : ∀ b ∈ bound, b < name) (entries : Entries α (some name)) :
    (entries.widen behind).toList = entries.toList := by
  cases entries <;> rfl

theorem behind_toList (entries : Entries α bound) : ∀ b ∈ bound, ∀ e ∈ entries.toList, b < e.1 := by
  induction entries with
  | nil => exact fun _ _ _ member => nomatch member
  | cons name value behind rest ih =>
    intro b bounds e member
    rcases List.mem_cons.mp member with rfl | later
    · exact behind b bounds
    · exact String.lt_trans (behind b bounds) (ih name rfl e later)

theorem pairwise_toList (entries : Entries α bound) : entries.toList.Pairwise (·.1 < ·.1) := by
  induction entries with
  | nil => exact .nil
  | cons name value behind rest ih => exact .cons (rest.behind_toList name rfl) ih

theorem toList_inj {left right : Entries α bound} (same : left.toList = right.toList) : left = right := by
  induction left with
  | nil =>
    cases right with
    | nil => rfl
    | cons => cases same
  | cons name value behind rest ih =>
    cases right with
    | nil => cases same
    | cons name' value' behind' rest' =>
      obtain ⟨first, later⟩ := List.cons.inj same
      cases first
      rw [ih later]

end Table.Entries

/-- Values under names, one under each. -/
structure Table (α : Type) where
  ordered : Table.Entries α none

namespace Table

variable {α β : Type}

def entries (t : Table α) : List (String × α) := t.ordered.toList

def names (t : Table α) : List String := t.entries.map (·.1)

theorem entries_inj {t u : Table α} (same : t.entries = u.entries) : t = u :=
  congrArg mk (Entries.toList_inj same)

theorem pairwise_entries (t : Table α) : t.entries.Pairwise (·.1 < ·.1) := t.ordered.pairwise_toList

/-- The names stand in their order, each once. -/
theorem sorted (t : Table α) : t.names.Pairwise (· < ·) := List.pairwise_map.mpr t.pairwise_entries

instance [Repr α] : Repr (Table α) := ⟨fun t => reprPrec t.entries⟩

def empty : Table α := ⟨.nil⟩

instance : Inhabited (Table α) := ⟨empty⟩

def get?In (name : String) : List (String × α) → Option α
  | [] => none
  | (k, v) :: rest => if k = name then some v else get?In name rest

def get? (t : Table α) (name : String) : Option α := get?In name t.entries

def contains (t : Table α) (name : String) : Bool := (t.get? name).isSome

def insert (t : Table α) (name : String) (value : α) : Table α :=
  ⟨t.ordered.insert name value nofun⟩

def erase (t : Table α) (name : String) : Table α := ⟨t.ordered.erase name⟩

def ofList (entries : List (String × α)) : Table α :=
  entries.foldl (fun t e => t.insert e.1 e.2) empty

theorem get?In_insert {bound : Option String} (name other : String) (value : α)
    (inside : ∀ b ∈ bound, b < name) (es : Entries α bound) :
    get?In other (es.insert name value inside).toList =
      if name = other then some value else get?In other es.toList := by
  induction es with
  | nil => rfl
  | cons k v behind rest ih =>
    rw [Entries.insert]
    split
    · rfl
    · split
      · rename_i own
        subst own
        simp only [Entries.toList, get?In]
        split <;> rfl
      · rename_i different
        simp only [Entries.toList, get?In, ih]
        split
        · rename_i here
          subst here
          rw [if_neg (Ne.symm different)]
        · rfl

/-- The name just written holds the new value, and no other name is touched. -/
theorem get?_insert (t : Table α) (name other : String) (value : α) :
    (t.insert name value).get? other = if name = other then some value else t.get? other :=
  get?In_insert name other value _ t.ordered

@[simp] theorem get?_insert_self (t : Table α) (name : String) (value : α) :
    (t.insert name value).get? name = some value := by simp [get?_insert]

theorem contains_iff {t : Table α} {name : String} :
    t.contains name = true ↔ ∃ v, t.get? name = some v := Option.isSome_iff_exists

theorem contains_eq_false_iff {t : Table α} {name : String} :
    t.contains name = false ↔ t.get? name = none := Option.isSome_eq_false_iff.trans Option.isNone_iff_eq_none

theorem contains_insert (t : Table α) (name other : String) (value : α) :
    (t.insert name value).contains other = true ↔ name = other ∨ t.contains other = true := by
  unfold contains
  rw [get?_insert]
  split <;> simp_all

theorem get?In_eq_none_iff {es : List (String × α)} {n : String} :
    get?In n es = none ↔ n ∉ es.map (·.1) := by
  induction es with
  | nil => simp [get?In]
  | cons e rest ih =>
    obtain ⟨k, v⟩ := e
    rw [get?In, List.map_cons, List.mem_cons]
    by_cases own : k = n
    · simp [own]
    · rw [if_neg own, ih]
      simp [Ne.symm own]

theorem get?In_of_bound {name : String} (es : Entries α (some name)) : get?In name es.toList = none := by
  rw [get?In_eq_none_iff]
  intro member
  obtain ⟨e, inside, own⟩ := List.mem_map.mp member
  exact String.lt_irrefl name (own ▸ es.behind_toList name rfl e inside)

theorem get?In_erase {bound : Option String} (name other : String) (es : Entries α bound) :
    get?In other (es.erase name).toList = if name = other then none else get?In other es.toList := by
  induction es with
  | nil => exact (ite_self none).symm
  | cons k v behind rest ih =>
    rw [Entries.erase]
    by_cases own : k = name
    · subst own
      rw [if_pos rfl, Entries.toList_widen]
      split
      · rename_i same
        rw [← same, get?In_of_bound]
      · rename_i different
        exact (if_neg different).symm
    · rw [if_neg own]
      simp only [Entries.toList, get?In, ih]
      split
      · rename_i here
        subst here
        rw [if_neg (Ne.symm own)]
      · rfl

theorem get?_erase (t : Table α) (name other : String) :
    (t.erase name).get? other = if name = other then none else t.get? other :=
  get?In_erase name other t.ordered

end Table

end TagGrammar
