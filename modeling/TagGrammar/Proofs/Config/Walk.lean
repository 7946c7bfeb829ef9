import Mathlib.Data.List.Induction
import TagGrammar.Config.Load

namespace TagGrammar.Config.FileSystem

/-- Where one part of a path leads from a directory. -/
inductive Step (fs : FileSystem) : List String → String → List String → Prop
  | stay {place : List String} {part : String} (inside : fs.get? place = some .directory)
      (idle : part = "" ∨ part = ".") : Step fs place part place
  | up {outer : List String} {name : String} (inside : fs.get? (outer ++ [name]) = some .directory) :
      Step fs (outer ++ [name]) ".." outer
  | root : Step fs [] ".." []
  | down {place : List String} {name : String} (present : (fs.get? (place ++ [name])).isSome) :
      Step fs place name (place ++ [name])

/-- Where the parts of a path lead, one after the other. -/
inductive Walk (fs : FileSystem) : List String → List String → List String → Prop
  | done {place : List String} : Walk fs place [] place
  | step {place next final : List String} {part : String} {parts : List String}
      (step : Step fs place part next) (walk : Walk fs next parts final) : Walk fs place (part :: parts) final

/-- What a written path leads to: its parts stand between slashes, and are gone along from the root
where a slash stands before them all, and from the directory otherwise. -/
inductive Leads (fs : FileSystem) (directory : List String) : String → Entry → Prop
  | absolute {parts place : List String} {entry : Entry} (walk : fs.Walk [] parts place)
      (found : fs.get? place = some entry) : Leads fs directory ("/" ++ "/".intercalate parts) entry
  | relative {first : String} {parts place : List String} {entry : Entry} (filled : first ≠ "")
      (walk : fs.Walk directory (first :: parts) place) (found : fs.get? place = some entry) :
      Leads fs directory ("/".intercalate (first :: parts)) entry

variable {fs : FileSystem} {directory place next final : List String} {part path : String}
  {parts : List String} {entry : Entry}

theorem isName_iff : isName part = true ↔
    part ≠ "" ∧ part ≠ "." ∧ part ≠ ".." ∧ '/' ∉ part.toList ∧ '\x00' ∉ part.toList := by
  simp [isName, and_assoc]

theorem Step.inside (step : fs.Step place part next) : fs.get? place = some .directory := by
  cases step with
  | stay inside _ => exact inside
  | up inside => exact inside
  | root => exact fs.root
  | down present => exact (fs.inside present).2

theorem Step.plain (step : fs.Step place part next) : '/' ∉ part.toList := by
  cases step with
  | stay _ idle => rcases idle with rfl | rfl <;> decide
  | up _ => decide
  | root => decide
  | down present => exact (isName_iff.mp (fs.inside present).1).2.2.2.1

theorem step?_eq_some_iff : fs.step? place part = some next ↔ fs.Step place part next := by
  constructor
  · intro led
    rw [step?] at led
    split at led
    · rename_i inside
      split at led
      · rename_i idle
        cases led
        exact .stay inside idle
      · split at led
        · rename_i back
          subst back
          cases led
          cases place using List.reverseRecOn with
          | nil => exact .root
          | append_singleton outer name =>
            rw [List.dropLast_concat]
            exact .up inside
        · split at led
          · rename_i present
            cases led
            exact .down present
          · cases led
    · cases led
  · intro step
    rw [step?, if_pos step.inside]
    cases step with
    | stay _ idle => exact if_pos idle
    | up _ =>
      rw [if_neg (by decide), if_pos rfl, List.dropLast_concat]
    | root => rfl
    | down present =>
      obtain ⟨filled, other, forth, _⟩ := isName_iff.mp (fs.inside present).1
      rw [if_neg (not_or.mpr ⟨filled, other⟩), if_neg forth, if_pos present]

theorem foldlM_step?_eq_some_iff :
    parts.foldlM fs.step? place = some final ↔ fs.Walk place parts final := by
  induction parts generalizing place with
  | nil =>
    constructor
    · intro same
      cases same
      exact .done
    · intro walk
      cases walk
      rfl
  | cons part rest ih =>
    rw [List.foldlM_cons, Option.bind_eq_bind, Option.bind_eq_some_iff]
    constructor
    · intro led
      obtain ⟨next, step, walk⟩ := led
      exact .step (step?_eq_some_iff.mp step) (ih.mp walk)
    · intro walk
      cases walk with
      | step step walk => exact ⟨_, step?_eq_some_iff.mpr step, ih.mpr walk⟩

theorem Walk.plain (walk : fs.Walk place parts final) : ∀ part ∈ parts, '/' ∉ part.toList := by
  induction walk with
  | done => exact nofun
  | step step _ ih => exact List.forall_mem_cons.mpr ⟨step.plain, ih⟩

theorem Walk.concat (walk : fs.Walk place parts next) (step : fs.Step next part final) :
    fs.Walk place (parts ++ [part]) final := by
  induction walk with
  | done => exact .step step .done
  | step first _ ih => exact .step first (ih step)

/-- Every place with an entry is reached from the root by the names that it is told by. -/
theorem walk_of_present (present : (fs.get? place).isSome) : fs.Walk [] place place := by
  induction place using List.reverseRecOn with
  | nil => exact .done
  | append_singleton outer name ih =>
    have inside := (fs.inside present).2
    exact (ih (Option.isSome_of_eq_some inside)).concat (.down present)

theorem leads_absolutePath (found : fs.get? place = some entry) :
    fs.Leads directory (absolutePath place) entry :=
  .absolute (walk_of_present (Option.isSome_of_eq_some found)) found

theorem toList_intercalate (parts : List String) :
    ("/".intercalate parts).toList = Text.joinPieces ['/'] (parts.map String.toList) := by
  rw [String.toList_intercalate, Text.joinPieces_eq_intercalate]
  rfl

theorem intercalate_pathParts (path : String) : "/".intercalate (pathParts path) = path := by
  apply String.toList_inj.mp
  rw [toList_intercalate, pathParts, List.map_map]
  have same : String.toList ∘ String.ofList = id := funext fun s => String.toList_ofList
  rw [same, List.map_id, Text.joinPieces_pieces]

theorem exists_pathParts (path : String) : ∃ first parts, pathParts path = first :: parts := by
  apply List.exists_cons_of_ne_nil
  simpa [pathParts] using Text.pieces_ne_nil '/' path.toList

theorem notMem_of_mem_pathParts (member : part ∈ pathParts path) : '/' ∉ part.toList := by
  obtain ⟨piece, inside, rfl⟩ := List.mem_map.mp member
  rw [String.toList_ofList]
  exact Text.notMem_of_mem_pieces inside

theorem pathParts_intercalate (some_part : parts ≠ []) (plain : ∀ part ∈ parts, '/' ∉ part.toList) :
    pathParts ("/".intercalate parts) = parts := by
  have plain' : ∀ p ∈ parts.map String.toList, '/' ∉ p := by simpa using plain
  rw [pathParts, toList_intercalate, Text.pieces_joinPieces (by simpa using some_part) plain',
    List.map_map]
  have same : String.ofList ∘ String.toList = id := funext fun s => String.ofList_toList
  rw [same, List.map_id]

theorem Step.eq_of_empty (step : fs.Step place "" next) : next = place := by
  have led := step?_eq_some_iff.mpr step
  rw [step?, if_pos step.inside, if_pos (.inl rfl)] at led
  exact (Option.some.inj led).symm

theorem head?_intercalate {first : String} (plain : '/' ∉ first.toList) :
    ("/".intercalate (first :: parts)).toList.head? = some '/' ↔ first = "" ∧ parts ≠ [] := by
  rw [toList_intercalate, ← String.toList_eq_nil_iff]
  cases parts with
  | nil =>
    refine iff_of_false (fun head => plain (List.mem_of_head? head)) fun bare => bare.2 rfl
  | cons part rest =>
    cases letters : first.toList with
    | nil => simp [Text.joinPieces, letters]
    | cons c more =>
      rw [letters] at plain
      have other : c ≠ '/' := fun same => plain (same ▸ List.mem_cons_self)
      simp [Text.joinPieces, letters, other]

theorem intercalate_ne_empty {first : String} (filled : first = "" → parts ≠ []) :
    "/".intercalate (first :: parts) ≠ "" := by
  rw [ne_eq, ← String.toList_eq_nil_iff, toList_intercalate]
  cases parts with
  | nil =>
    intro nothing
    exact filled (String.toList_eq_nil_iff.mp nothing) rfl
  | cons part rest => simp [Text.joinPieces]

/-- The empty part in front is the slash that a path from the root starts with. -/
theorem locate?_intercalate {first : String} (plain : ∀ part ∈ first :: parts, '/' ∉ part.toList)
    (filled : first = "" → parts ≠ []) :
    fs.locate? directory ("/".intercalate (first :: parts)) =
      ((first :: parts).foldlM fs.step? (if first = "" then [] else directory)).bind fs.get? := by
  have starts : ("/".intercalate (first :: parts)).toList.head? = some '/' ↔ first = "" ∧ parts ≠ [] :=
    head?_intercalate (plain first List.mem_cons_self)
  have some_path := String.isEmpty_eq_false_iff.mpr (intercalate_ne_empty filled)
  rw [locate?, some_path, pathParts_intercalate (List.cons_ne_nil first parts) plain]
  simp only [starts, Bool.false_eq_true, if_false]
  by_cases rooted : first = ""
  · rw [if_pos ⟨rooted, filled rooted⟩, if_pos rooted]
  · rw [if_neg fun both => rooted both.1, if_neg rooted]

theorem Leads.of_walk {first : String} (filled : first = "" → parts ≠ [])
    (walk : fs.Walk (if first = "" then [] else directory) (first :: parts) place)
    (found : fs.get? place = some entry) :
    fs.Leads directory ("/".intercalate (first :: parts)) entry := by
  by_cases rooted : first = ""
  · subst rooted
    rw [if_pos rfl] at walk
    cases walk with
    | step step walk =>
      rw [step.eq_of_empty] at walk
      obtain ⟨part, rest, rfl⟩ := List.exists_cons_of_ne_nil (filled rfl)
      rw [String.intercalate_cons_cons, String.empty_append]
      exact .absolute walk found
  · rw [if_neg rooted] at walk
    exact .relative rooted walk found

theorem Leads.exists_walk (leads : fs.Leads directory path entry) :
    ∃ first parts place, path = "/".intercalate (first :: parts) ∧ (first = "" → parts ≠ []) ∧
      fs.Walk (if first = "" then [] else directory) (first :: parts) place ∧
      fs.get? place = some entry := by
  have rooted : fs.Step [] "" [] := .stay fs.root (.inl rfl)
  cases leads with
  | @absolute parts place _ walk found =>
    cases parts with
    | nil =>
      have walk' : fs.Walk [] ["", ""] place := .step rooted (.step rooted walk)
      exact ⟨"", [""], place, rfl, fun _ => List.cons_ne_nil _ _, walk', found⟩
    | cons part rest =>
      refine ⟨"", part :: rest, place, ?_, fun _ => List.cons_ne_nil _ _, .step rooted walk, found⟩
      rw [String.intercalate_cons_cons, String.empty_append]
  | @relative first parts place _ filled walk found =>
    exact ⟨first, parts, place, rfl, fun empty => absurd empty filled, by rwa [if_neg filled], found⟩

/-- Cutting a path at its slashes and going along the parts finds what the path leads to. -/
theorem locate?_eq_some_iff : fs.locate? directory path = some entry ↔ fs.Leads directory path entry := by
  constructor
  · intro found
    have written := intercalate_pathParts path
    obtain ⟨first, parts, cut⟩ := exists_pathParts path
    have plain : ∀ part ∈ first :: parts, '/' ∉ part.toList := fun part member =>
      notMem_of_mem_pathParts (cut ▸ member)
    rw [cut] at written
    have filled : first = "" → parts ≠ [] := by
      rintro rfl rfl
      rw [← written] at found
      cases found
    rw [← written, locate?_intercalate plain filled, Option.bind_eq_some_iff] at found
    obtain ⟨place, led, found⟩ := found
    rw [← written]
    exact .of_walk filled (foldlM_step?_eq_some_iff.mp led) found
  · intro leads
    obtain ⟨first, parts, place, rfl, filled, walk, found⟩ := leads.exists_walk
    rw [locate?_intercalate walk.plain filled, foldlM_step?_eq_some_iff.mpr walk]
    exact found

end TagGrammar.Config.FileSystem
