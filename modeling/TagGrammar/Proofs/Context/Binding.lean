import TagGrammar.Proofs.Context.Lawful
import TagGrammar.Proofs.Context.Overlay

namespace TagGrammar

/-- A path goes on from where its front leads, whatever its segments are. -/
theorem Json.lookup_append (j : Json) (front back : String) :
    j.lookup (front ++ "." ++ back) = (j.lookup front).bind (·.lookup back) := by
  rw [lookup, lookupChars, String.toList_append, String.toList_append, List.append_assoc]
  change j.walk (Text.pieces '.' (front.toList ++ '.' :: back.toList)) = _
  rw [Text.pieces_append, walk, List.foldlM_append]
  rfl

namespace Layers

open Context (pathHead)

theorem resolve_append (s : Layers) (front back : String) :
    Context.resolve s (front ++ "." ++ back) = (Context.resolve s front).bind (·.lookup back) := by
  change s.resolve _ = (s.resolve front).bind _
  rw [resolve_overlay, resolve_overlay, Json.lookup_append]

theorem get?_overlay_bind (s : Layers) (name other : String) (value : Json) :
    (s.push.set name value).overlay.get? other =
      if name = other then some value else s.overlay.get? other := by
  rw [get?_overlay_set, Table.get?_insert]
  rfl

/-- A name without a point that is bound to what a path leads to, in a scope of its own, stands for
that path in front of any other; a path that starts with another name leads where it did. -/
theorem bound_name_stands_for_path (s : Layers) {path : String} {value : Json}
    (leads : Context.resolve s path = some value) {name : String} (plain : '.' ∉ name.toList) :
    let bound := Context.set (Context.push s) name value
    (∀ rest, Context.resolve bound (name ++ "." ++ rest) = Context.resolve s (path ++ "." ++ rest)) ∧
    Context.resolve bound name = some value ∧
    ∀ other, pathHead other ≠ name → Context.resolve bound other = Context.resolve s other := by
  intro bound
  have named : Context.resolve bound name = some value := LawfulContext.resolve_set _ _ _ plain
  refine ⟨fun rest => ?_, named, fun other different => ?_⟩
  · rw [resolve_append, resolve_append, named, leads]
  · have same : bound.overlay.get? (pathHead other) = s.overlay.get? (pathHead other) :=
      (s.get?_overlay_bind name (pathHead other) value).trans (if_neg (Ne.symm different))
    calc
      bound.resolve other = (Json.obj bound.overlay).lookup other := bound.resolve_overlay other
      _ = (Json.obj s.overlay).lookup other := Context.lookup_obj_congr same
      _ = s.resolve other := (s.resolve_overlay other).symm

theorem bound_name_stands_for_element :
    let fields : Json := .obj (.ofList [("", .bool true)])
    let s : Layers := ⟨[.ofList [("b", .null)]], .ofList [("a", .arr [fields]), ("b", fields)]⟩
    Context.resolve s "a.+0" = some fields ∧ '.' ∉ "".toList ∧
      Context.resolve (Context.set (Context.push s) "" fields) ("" ++ "." ++ "") =
        Context.resolve s ("a.+0" ++ "." ++ "") ∧
      Context.resolve s ("a.+0" ++ "." ++ "") = some (.bool true) := by
  intro fields s
  have leads : Context.resolve s "a.+0" = some fields := by
    simp only [s, fields]
    rfl
  have inside : Context.resolve s ("a.+0" ++ "." ++ "") = some (.bool true) := by
    simp only [s, fields]
    rfl
  exact ⟨leads, by decide, (bound_name_stands_for_path s leads (by decide)).1 "", inside⟩

end Layers

end TagGrammar
