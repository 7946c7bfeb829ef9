import TagGrammar.Context

namespace TagGrammar

namespace Table

variable {α : Type}

/-- The entries of the inner table written over the outer one. -/
def laidOver (inner outer : Table α) : Table α :=
  inner.entries.foldr (fun e t => t.insert e.1 e.2) outer

theorem get?_laidOver (inner outer : Table α) (n : String) :
    (inner.laidOver outer).get? n = (inner.get? n).or (outer.get? n) := by
  change (inner.entries.foldr _ outer).get? n = (get?In n inner.entries).or _
  induction inner.entries with
  | nil => rfl
  | cons e rest ih =>
    rw [List.foldr_cons, get?_insert, ih, get?In]
    split <;> rfl

end Table

namespace Context

/-- A table reads a path as the object of its entries does. -/
theorem resolveIn_eq_lookup (table : Table Json) (path : String) :
    resolveIn table path = (Json.obj table).lookup path := by
  rw [Json.lookup, Json.lookupChars, Json.walk, Text.pieces_eq_cons, List.foldlM_cons, resolveIn,
    pathRest?]
  change _ = (table.get? (pathHead path)).bind _
  congr 1
  funext value
  cases path.toList.dropWhile (· ≠ '.') <;> rfl

theorem lookup_obj (table : Table Json) (path : String) :
    (Json.obj table).lookup path =
      (table.get? (pathHead path)).bind fun value =>
        match pathRest? path with
        | some rest => value.lookupChars rest
        | none => some value :=
  (resolveIn_eq_lookup table path).symm

theorem lookup_obj_congr {left right : Table Json} {path : String}
    (same : left.get? (pathHead path) = right.get? (pathHead path)) :
    (Json.obj left).lookup path = (Json.obj right).lookup path := by
  rw [lookup_obj, lookup_obj, same]

/-- What may be done to the scopes of a context. -/
inductive Change where
  | push
  | pop
  | set (name : String) (value : Json)

variable {σ : Type} [Context σ]

def change (context : σ) : Change → σ
  | .push => push context
  | .pop => pop context
  | .set name value => set context name value

def changes (context : σ) (steps : List Change) : σ := steps.foldl change context

end Context

/-- Scopes that each hold all that can be seen in them: a new one starts as a copy of the one
around it. -/
structure Snapshots where
  current : Table Json
  outer : List (Table Json)

namespace Snapshots

def ofBase (base : Table Json) : Snapshots := ⟨base, []⟩

def set (s : Snapshots) (name : String) (value : Json) : Snapshots :=
  { s with current := s.current.insert name value }

def push (s : Snapshots) : Snapshots := ⟨s.current, s.current :: s.outer⟩

def pop (s : Snapshots) : Snapshots :=
  match s.outer with
  | [] => s
  | t :: rest => ⟨t, rest⟩

instance : Context Snapshots := ⟨fun s path => (Json.obj s.current).lookup path, set, push, pop⟩

end Snapshots

namespace Layers

open Context (pathHead)

/-- All that can be seen, as one table: from the base outwards, each layer written over those below. -/
def overlay (s : Layers) : Table Json := s.inner.foldr Table.laidOver s.base

theorem get?_overlay (s : Layers) (n : String) :
    s.overlay.get? n = (s.all.find? (·.contains n)).bind (·.get? n) := by
  obtain ⟨inner, base⟩ := s
  unfold overlay all
  induction inner with
  | nil =>
    rw [List.nil_append, List.find?_singleton]
    split
    · rfl
    · rename_i absent
      exact Table.contains_eq_false_iff.mp (by simpa using absent)
  | cons layer rest ih =>
    rw [List.foldr_cons, Table.get?_laidOver, ih, List.cons_append, List.find?_cons]
    cases held : layer.contains n with
    | true =>
      obtain ⟨value, found⟩ := Table.contains_iff.mp held
      rw [found, Option.some_or]
      exact found.symm
    | false =>
      rw [Table.contains_eq_false_iff.mp held]
      rfl

theorem resolve_overlay (s : Layers) (path : String) :
    s.resolve path = (Json.obj s.overlay).lookup path := by
  rw [resolve, Context.lookup_obj, get?_overlay, Option.bind_assoc]
  rfl

theorem get?_overlay_set (s : Layers) (name : String) (value : Json) (n : String) :
    (s.set name value).overlay.get? n = (s.overlay.insert name value).get? n := by
  obtain ⟨inner, base⟩ := s
  cases inner with
  | nil => rfl
  | cons layer rest =>
    change ((layer.insert name value).laidOver _).get? n = ((layer.laidOver _).insert name value).get? n
    rw [Table.get?_laidOver, Table.get?_insert, Table.get?_insert, Table.get?_laidOver]
    split <;> rfl

/-- Scope by scope, the innermost first, the tables hold what can be seen. -/
inductive ShownBy (base : Table Json) : List (Table Json) → List (Table Json) → Prop
  | base {t : Table Json} (same : ∀ n, base.get? n = t.get? n) : ShownBy base [] [t]
  | scope {layer t : Table Json} {inner outer : List (Table Json)}
      (same : ∀ n, (overlay ⟨layer :: inner, base⟩).get? n = t.get? n)
      (around : ShownBy base inner outer) : ShownBy base (layer :: inner) (t :: outer)

def Shows (s : Layers) (f : Snapshots) : Prop := ShownBy s.base s.inner (f.current :: f.outer)

variable {s : Layers} {f : Snapshots}

theorem Shows.get?_overlay (shows : Shows s f) (n : String) :
    s.overlay.get? n = f.current.get? n := by
  obtain ⟨inner, base⟩ := s
  obtain ⟨current, outer⟩ := f
  cases shows with
  | base same => exact same n
  | scope same around => exact same n

theorem Shows.push (shows : Shows s f) : Shows s.push f.push :=
  .scope shows.get?_overlay shows

theorem Shows.pop (shows : Shows s f) : Shows s.pop f.pop := by
  obtain ⟨inner, base⟩ := s
  obtain ⟨current, outer⟩ := f
  cases shows with
  | base same => exact .base same
  | scope _ around =>
    cases around with
    | base same' => exact .base same'
    | scope same' around' => exact .scope same' around'

theorem Shows.set (shows : Shows s f) (name : String) (value : Json) :
    Shows (s.set name value) (f.set name value) := by
  have same (n : String) :
      (s.set name value).overlay.get? n = (f.current.insert name value).get? n := by
    rw [get?_overlay_set, Table.get?_insert, Table.get?_insert, shows.get?_overlay]
  obtain ⟨inner, base⟩ := s
  obtain ⟨current, outer⟩ := f
  cases shows with
  | base _ => exact .base same
  | scope _ around => exact .scope same around

theorem Shows.change (shows : Shows s f) (step : Context.Change) :
    Shows (Context.change s step) (Context.change f step) := by
  cases step with
  | push => exact shows.push
  | pop => exact shows.pop
  | set name value => exact shows.set name value

theorem Shows.changes (shows : Shows s f) (steps : List Context.Change) :
    Shows (Context.changes s steps) (Context.changes f steps) := by
  induction steps generalizing s f with
  | nil => exact shows
  | cons step rest ih => exact ih (shows.change step)

/-- After any steps, the scopes resolve as one object: their layers written over each other from the
base outwards, which is what scopes that copy all they can see would hold. The innermost layer that
has the head of a path decides alone, whether or not the path leads anywhere in it. A table resolves
as the object that it is. -/
theorem resolve_eq_overlay_lookup (root : Table Json) (steps : List Context.Change) :
    let s := Context.changes (ofBase root) steps
    (∀ path, Context.resolve s path = (Json.obj s.overlay).lookup path) ∧
    (∀ path, Context.resolve s path =
      Context.resolve (Context.changes (Snapshots.ofBase root) steps) path) ∧
    (∀ inner layer outer path, s.all = inner ++ layer :: outer →
      (∀ t ∈ inner, t.contains (pathHead path) = false) → layer.contains (pathHead path) = true →
      Context.resolve s path = (Json.obj layer).lookup path) ∧
    ∀ (table : Table Json) (path : String),
      Context.resolve table path = (Json.obj table).lookup path := by
  intro s
  refine ⟨s.resolve_overlay, ?_, ?_, Context.resolveIn_eq_lookup⟩
  · intro path
    have start : Shows (ofBase root) (Snapshots.ofBase root) := .base fun _ => rfl
    exact (s.resolve_overlay path).trans
      (Context.lookup_obj_congr ((start.changes steps).get?_overlay _))
  · intro inner layer outer path split absent present
    have first : s.all.find? (·.contains (pathHead path)) = some layer := by
      rw [List.find?_eq_some_iff_append]
      exact ⟨present, inner, outer, split, fun t member => by simp [absent t member]⟩
    change s.resolve path = _
    rw [resolve, first]
    exact Context.resolveIn_eq_lookup layer path

end Layers

end TagGrammar
