import TagGrammar.Text.Pieces

namespace TagGrammar.Config

inductive Entry where
  | file (content : ByteArray)
  | directory

instance : (found : Option Entry) → Decidable (found = some .directory)
  | none => isFalse nofun
  | some (.file _) => isFalse nofun
  | some .directory => isTrue rfl

/-- What an entry may be called: nothing with a slash or a zero in it, and no part of a path that leads
nowhere or back. -/
def isName (name : String) : Bool :=
  name ≠ "" && name ≠ "." && name ≠ ".." && !name.toList.contains '/' && !name.toList.contains '\x00'

/-- What stands at each place, told by the names from the root on. -/
structure FileSystem where
  get? : List String → Option Entry
  root : get? [] = some .directory
  /-- Every other entry stands under a name in a directory. -/
  inside {place : List String} {name : String} (present : (get? (place ++ [name])).isSome) :
    isName name ∧ get? place = some .directory

namespace FileSystem

def empty : FileSystem where
  get? place := if place = [] then some .directory else none
  root := rfl
  inside present := by simp at present

/-- Puts an entry under a name in a directory, in place of a file of that name. Where there is no such
directory nothing happens. -/
def put (fs : FileSystem) (directory : List String) (name : String) (entry : Entry) : FileSystem :=
  if h : isName name ∧ fs.get? directory = some .directory ∧
      fs.get? (directory ++ [name]) ≠ some .directory then
    { get? := fun place => if place = directory ++ [name] then some entry else fs.get? place
      root := by rw [if_neg (by simp), fs.root]
      inside := by
        intro place other present
        obtain ⟨isName, inDirectory, free⟩ := h
        by_cases own : place ++ [other] = directory ++ [name]
        · obtain ⟨rfl, last⟩ := List.append_inj' own rfl
          cases last
          exact ⟨isName, by rwa [if_neg (by simp)]⟩
        · rw [if_neg own] at present
          obtain ⟨isName, inDirectory⟩ := fs.inside present
          refine ⟨isName, ?_⟩
          rw [if_neg, inDirectory]
          rintro rfl
          exact free inDirectory }
  else fs

/-- Puts an entry at a place, and directories on the way there. -/
def write (fs : FileSystem) (directory : List String) : List String → Entry → FileSystem
  | [], _ => fs
  | [name], entry => fs.put directory name entry
  | name :: rest, entry => (fs.put directory name .directory).write (directory ++ [name]) rest entry

/-- The entries listed, the last one where files are listed at one place. -/
def ofList (entries : List (List String × Entry)) : FileSystem :=
  entries.foldl (fun fs e => fs.write [] e.1 e.2) empty

end FileSystem

def pathParts (path : String) : List String := (Text.pieces '/' path.toList).map String.ofList

namespace FileSystem

/-- Goes on by one part of a path; only directories lead on, and the root is its own parent. -/
def step? (fs : FileSystem) (place : List String) (part : String) : Option (List String) :=
  if fs.get? place = some .directory then
    if part = "" ∨ part = "." then some place
    else if part = ".." then some place.dropLast
    else if (fs.get? (place ++ [part])).isSome then some (place ++ [part])
    else none
  else none

/-- What a written path leads to from a directory, or from the root where it starts with a slash; the
empty path leads nowhere. -/
def locate? (fs : FileSystem) (directory : List String) (path : String) : Option Entry :=
  if path.isEmpty then none
  else
    let start := if path.toList.head? = some '/' then [] else directory
    ((pathParts path).foldlM fs.step? start).bind fs.get?

end FileSystem

/-- The path of a place, from the root on. -/
def absolutePath (place : List String) : String := "/" ++ "/".intercalate place

end TagGrammar.Config
