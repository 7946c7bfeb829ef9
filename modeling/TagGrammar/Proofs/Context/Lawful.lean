import Mathlib.Data.List.TakeWhile
import TagGrammar.Context

namespace TagGrammar

/-- A variable whose name is no path holds the value it was set to last. -/
class LawfulContext (σ : Type) [Context σ] : Prop where
  resolve_set (context : σ) (name : String) (value : Json) (plain : '.' ∉ name.toList) :
    Context.resolve (Context.set context name value) name = some value

variable {name : String}

namespace Context

theorem pathHead_of_plain (plain : '.' ∉ name.toList) : pathHead name = name := by
  have all : name.toList.takeWhile (· ≠ '.') = name.toList :=
    List.takeWhile_eq_self_iff.mpr fun c member => decide_eq_true fun dot => plain (dot ▸ member)
  rw [pathHead, all, String.ofList_toList]

theorem pathRest?_of_plain (plain : '.' ∉ name.toList) : pathRest? name = none := by
  have nothing : name.toList.dropWhile (· ≠ '.') = [] :=
    List.dropWhile_eq_nil_iff.mpr fun c member => decide_eq_true fun dot => plain (dot ▸ member)
  rw [pathRest?, nothing]

theorem resolveIn_insert (plain : '.' ∉ name.toList) (table : Table Json) (value : Json) :
    resolveIn (table.insert name value) name = some value := by
  rw [resolveIn, pathHead_of_plain plain, Table.get?_insert_self, pathRest?_of_plain plain]
  rfl

end Context

instance : LawfulContext (Table Json) where
  resolve_set table _ value plain := Context.resolveIn_insert plain table value

namespace Layers

theorem resolve_cons (plain : '.' ∉ name.toList) (layer : Table Json) (rest : List (Table Json))
    (value : Json) :
    ((layer.insert name value :: rest).find? (·.contains (Context.pathHead name))).bind
      (Context.resolveIn · name) = some value := by
  rw [Context.pathHead_of_plain plain, List.find?_cons_of_pos]
  · exact Context.resolveIn_insert plain layer value
  · exact (Table.contains_insert layer name name value).mpr (.inl rfl)

instance : LawfulContext Layers where
  resolve_set context name value plain := by
    obtain ⟨inner, base⟩ := context
    cases inner with
    | nil => exact resolve_cons plain base [] value
    | cons layer rest => exact resolve_cons plain layer (rest ++ [base]) value

end Layers

end TagGrammar
