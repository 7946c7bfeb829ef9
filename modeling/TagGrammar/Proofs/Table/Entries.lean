import Mathlib.Data.List.Nodup
import Mathlib.Data.String.Basic
import TagGrammar.Table

namespace TagGrammar.Table

variable {α : Type} {t : Table α} {n name : String} {value : α} {es entries : List (String × α)}

/-- The table with all of the entries written to it, one after the other. -/
def insertAll (t : Table α) (entries : List (String × α)) : Table α :=
  entries.foldl (fun t e => t.insert e.1 e.2) t

theorem insertAll_cons (t : Table α) (e : String × α) (rest : List (String × α)) :
    t.insertAll (e :: rest) = (t.insert e.1 e.2).insertAll rest := rfl

theorem insertAll_append (t : Table α) (first second : List (String × α)) :
    t.insertAll (first ++ second) = (t.insertAll first).insertAll second := List.foldl_append

theorem mem_names_iff : n ∈ t.names ↔ t.contains n = true := by
  unfold contains get? names
  rw [← Option.ne_none_iff_isSome, ne_eq, get?In_eq_none_iff, not_not]

theorem contains_erase : (t.erase name).contains n = true ↔ t.contains n = true ∧ n ≠ name := by
  rw [contains, get?_erase]
  by_cases own : name = n
  · simp [own]
  · rw [if_neg own]
    exact (and_iff_left (Ne.symm own)).symm

theorem mem_of_get?In (found : get?In n es = some value) : (n, value) ∈ es := by
  induction es with
  | nil => cases found
  | cons e rest ih =>
    obtain ⟨k, v⟩ := e
    rw [get?In] at found
    split at found
    · rename_i own
      cases found
      rw [own]
      exact List.mem_cons_self
    · exact List.mem_cons_of_mem _ (ih found)

theorem get?In_of_mem (distinct : (es.map (·.1)).Nodup) {e : String × α} (member : e ∈ es) :
    get?In e.1 es = some e.2 := by
  induction es with
  | nil => cases member
  | cons first rest ih =>
    obtain ⟨fresh, distinct⟩ := List.nodup_cons.mp distinct
    rw [get?In]
    rcases List.mem_cons.mp member with rfl | later
    · exact if_pos rfl
    · rw [if_neg, ih distinct later]
      rintro same
      exact fresh (List.mem_map.mpr ⟨e, later, same.symm⟩)

theorem mem_iff_get?In (distinct : (es.map (·.1)).Nodup) :
    (n, value) ∈ es ↔ get?In n es = some value :=
  ⟨get?In_of_mem distinct, mem_of_get?In⟩

theorem nodup_names (t : Table α) : t.names.Nodup := t.sorted.imp ne_of_lt

theorem get?_insertAll_of_notMem (foreign : n ∉ entries.map (·.1)) :
    (t.insertAll entries).get? n = t.get? n := by
  induction entries generalizing t with
  | nil => rfl
  | cons e rest ih =>
    rw [List.map_cons, List.mem_cons, not_or] at foreign
    rw [insertAll_cons, ih foreign.2, get?_insert, if_neg (Ne.symm foreign.1)]

/-- Entries under names of their own are all found again. -/
theorem get?_insertAll_of_mem (distinct : (entries.map (·.1)).Nodup) {e : String × α}
    (member : e ∈ entries) : (t.insertAll entries).get? e.1 = some e.2 := by
  induction entries generalizing t with
  | nil => cases member
  | cons first rest ih =>
    obtain ⟨fresh, distinct⟩ := List.nodup_cons.mp distinct
    rw [insertAll_cons]
    rcases List.mem_cons.mp member with rfl | member
    · rw [get?_insertAll_of_notMem fresh, get?_insert_self]
    · exact ih distinct member

theorem contains_insertAll :
    (t.insertAll entries).contains n = true ↔ t.contains n = true ∨ n ∈ entries.map (·.1) := by
  induction entries generalizing t with
  | nil => simp [insertAll]
  | cons e rest ih =>
    rw [insertAll_cons, ih, contains_insert, List.map_cons, List.mem_cons, eq_comm (a := n)]
    tauto

theorem mem_names_ofList : n ∈ (ofList entries).names ↔ n ∈ entries.map (·.1) := by
  rw [mem_names_iff]
  exact contains_insertAll.trans (or_iff_right Bool.false_ne_true)

/-- Entries under names of their own make a table of just these names. -/
theorem names_ofList_perm (distinct : (entries.map (·.1)).Nodup) :
    (ofList entries).names.Perm (entries.map (·.1)) :=
  (List.perm_ext_iff_of_nodup (nodup_names _) distinct).mpr fun _ => mem_names_ofList

theorem get?_ofList (distinct : (entries.map (·.1)).Nodup) :
    (ofList entries).get? n = get?In n entries := by
  cases found : get?In n entries with
  | none => exact get?_insertAll_of_notMem (get?In_eq_none_iff.mp found)
  | some value => exact get?_insertAll_of_mem distinct (mem_of_get?In found)

/-- A table is what it gives under each name. -/
theorem ext {u : Table α} (same : ∀ n, t.get? n = u.get? n) : t = u := by
  have perm : t.entries.Perm u.entries := by
    rw [List.perm_ext_iff_of_nodup (List.Nodup.of_map _ t.nodup_names)
      (List.Nodup.of_map _ u.nodup_names)]
    rintro ⟨n, value⟩
    rw [mem_iff_get?In t.nodup_names, mem_iff_get?In u.nodup_names]
    exact Eq.congr_left (same n)
  apply entries_inj
  exact perm.eq_of_pairwise (fun _ _ _ _ before behind => absurd before behind.asymm)
    t.pairwise_entries u.pairwise_entries

theorem insert_insert (t : Table α) (name : String) (v w : α) :
    (t.insert name v).insert name w = t.insert name w := by
  refine ext fun n => ?_
  rw [get?_insert, get?_insert, get?_insert]
  split <;> rfl

/-- Entries under names of their own make the same table in any order. -/
theorem ofList_eq_of_perm {others : List (String × α)} (distinct : (entries.map (·.1)).Nodup)
    (perm : entries.Perm others) : ofList entries = ofList others := by
  have distinct' : (others.map (·.1)).Nodup := (perm.map _).nodup_iff.mp distinct
  refine ext fun n => ?_
  rw [get?_ofList distinct, get?_ofList distinct']
  refine Option.ext fun value => ?_
  rw [← mem_iff_get?In distinct, ← mem_iff_get?In distinct', perm.mem_iff]

end TagGrammar.Table
