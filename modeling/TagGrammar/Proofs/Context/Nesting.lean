import Mathlib.Data.List.Infix
import TagGrammar.Proofs.Context.Overlay

namespace TagGrammar

namespace Context

/-- What a tag does with its context while it renders. -/
inductive Use where
  | change (step : Change)
  | lookup (path : String)

namespace Use

def opens : Use → Bool
  | .change .push => true
  | _ => false

def closes : Use → Bool
  | .change .pop => true
  | _ => false

/-- How many layers there are once `depth` of them have been used so: the base is never closed. -/
def level (depth : Nat) : Use → Nat
  | .change .push => depth + 1
  | .change .pop => max 1 (depth - 1)
  | _ => depth

end Use

/-- The uses close the scopes that they open, and never one that was open before. -/
structure Balanced (uses : List Use) : Prop where
  own : ∀ front, front <+: uses → front.countP Use.closes ≤ front.countP Use.opens
  closed : uses.countP Use.closes = uses.countP Use.opens

instance (uses : List Use) : Decidable (Balanced uses) :=
  decidable_of_iff ((∀ front ∈ uses.inits, front.countP Use.closes ≤ front.countP Use.opens) ∧
      uses.countP Use.closes = uses.countP Use.opens)
    ⟨fun h => ⟨fun front is_front => h.1 front ((List.mem_inits front uses).mpr is_front), h.2⟩,
      fun h => ⟨fun front member => h.own front ((List.mem_inits front uses).mp member), h.closed⟩⟩

variable {σ : Type} [Context σ]

/-- The context after the uses, and what the lookups among them found. -/
def run (context : σ) : List Use → σ × List (Option Json)
  | [] => (context, [])
  | .change step :: rest => run (change context step) rest
  | .lookup path :: rest => ((run context rest).1, resolve context path :: (run context rest).2)

def after (context : σ) (uses : List Use) : σ := (run context uses).1

theorem run_append (context : σ) (first second : List Use) :
    run context (first ++ second) = (after (after context first) second,
      (run context first).2 ++ (run (after context first) second).2) := by
  induction first generalizing context with
  | nil => rfl
  | cons use rest ih =>
    cases use with
    | change step => exact ih (change context step)
    | lookup path =>
      rw [List.cons_append, run, ih]
      rfl

theorem after_append (context : σ) (first second : List Use) :
    after context (first ++ second) = after (after context first) second := by
  rw [after, run_append]

theorem after_change (context : σ) (step : Change) (rest : List Use) :
    after context (.change step :: rest) = after (change context step) rest := rfl

/-- At no point have the uses closed more than `n` scopes that they did not open. -/
def Within (n : Nat) (uses : List Use) : Prop :=
  ∀ front, front <+: uses → front.countP Use.closes ≤ front.countP Use.opens + n

variable {n : Nat} {use : Use} {rest : List Use}

theorem Within.cons (within : Within n (use :: rest)) {front : List Use} (is_front : front <+: rest) :
    (use :: front).countP Use.closes ≤ (use :: front).countP Use.opens + n :=
  within (use :: front) ((List.prefix_cons_inj use).mpr is_front)

theorem Within.of_push (within : Within n (.change .push :: rest)) : Within (n + 1) rest := by
  intro front is_front
  have count := within.cons is_front
  rw [List.countP_cons_of_neg Bool.false_ne_true, List.countP_cons_of_pos (by rfl)] at count
  omega

theorem Within.of_pop (within : Within n (.change .pop :: rest)) :
    ∃ k, n = k + 1 ∧ Within k rest := by
  have first : 1 ≤ 0 + n := within.cons List.nil_prefix
  obtain ⟨k, rfl⟩ : ∃ k, n = k + 1 := ⟨n - 1, by omega⟩
  refine ⟨k, rfl, fun front is_front => ?_⟩
  have count := within.cons is_front
  rw [List.countP_cons_of_pos (by rfl), List.countP_cons_of_neg Bool.false_ne_true] at count
  omega

end Context

namespace Layers

open Context (Use Balanced Within run run_append after after_append after_change)

theorem all_set (s : Layers) (name : String) (value : Json) :
    ∃ innermost outer, s.all = innermost :: outer ∧
      (s.set name value).all = innermost.insert name value :: outer := by
  obtain ⟨inner, base⟩ := s
  cases inner with
  | nil => exact ⟨base, [], rfl, rfl⟩
  | cons layer rest => exact ⟨layer, rest ++ [base], rfl, rfl⟩

theorem pop_of_depth_eq_one {s : Layers} (shallow : s.depth = 1) : s.pop = s := by
  obtain ⟨inner, base⟩ := s
  cases inner with
  | nil => rfl
  | cons layer rest => cases shallow

theorem depth_pop (s : Layers) : s.pop.depth = max 1 (s.depth - 1) := by
  obtain ⟨inner, base⟩ := s
  cases inner with
  | nil => rfl
  | cons layer rest =>
    change rest.length + 1 = max 1 (rest.length + 1)
    omega

theorem depth_after (s : Layers) (uses : List Use) :
    (after s uses).depth = uses.foldl Use.level s.depth := by
  induction uses generalizing s with
  | nil => rfl
  | cons use rest ih =>
    rw [List.foldl_cons]
    cases use with
    | lookup path => exact ih s
    | change step =>
      rw [after_change, ih]
      cases step with
      | push => rfl
      | pop => exact congrArg (rest.foldl Use.level) s.depth_pop
      | set name value => exact congrArg (rest.foldl Use.level) (s.depth_set name value)

/-- The layers of `s`, with `n` more in front of them. -/
def Over (s : Layers) (n : Nat) (t : Layers) : Prop :=
  t.base = s.base ∧ ∃ opened, opened.length = n ∧ t.inner = opened ++ s.inner

variable {s t : Layers} {n : Nat}

theorem Over.push (above : s.Over n t) : s.Over (n + 1) t.push := by
  obtain ⟨base, opened, rfl, inner⟩ := above
  refine ⟨base, .empty :: opened, rfl, ?_⟩
  change Table.empty :: t.inner = _
  rw [inner]
  rfl

theorem Over.pop (above : s.Over (n + 1) t) : s.Over n t.pop := by
  obtain ⟨base, opened, size, inner⟩ := above
  obtain ⟨layer, rest, rfl⟩ := List.exists_cons_of_length_eq_add_one size
  refine ⟨base, rest, Nat.succ.inj size, ?_⟩
  change t.inner.tail = _
  rw [inner]
  rfl

theorem Over.set (above : s.Over (n + 1) t) (name : String) (value : Json) :
    s.Over (n + 1) (t.set name value) := by
  obtain ⟨base, opened, size, inner⟩ := above
  obtain ⟨layer, rest, rfl⟩ := List.exists_cons_of_length_eq_add_one size
  refine ⟨?_, layer.insert name value :: rest, size, ?_⟩ <;> rw [Layers.set, inner]
  · exact base
  · rfl

theorem Over.eq (above : s.Over 0 t) : t = s := by
  obtain ⟨base, opened, none, inner⟩ := above
  cases List.eq_nil_of_length_eq_zero none
  cases s
  cases t
  cases base
  cases inner
  rfl

/-- Uses that close none but the layers in front leave all the others as they are. -/
theorem Over.exists_after {uses : List Use} (above : s.Over (n + 1) t) (within : Within n uses) :
    ∃ m, m + uses.countP Use.closes = n + uses.countP Use.opens ∧
      s.Over (m + 1) (after t uses) := by
  -- one layer in front is never closed, so that a value is never set in the layers of `s`
  induction uses generalizing n t with
  | nil => exact ⟨n, rfl, above⟩
  | cons use rest ih =>
    cases use with
    | lookup path =>
      rw [List.countP_cons_of_neg Bool.false_ne_true, List.countP_cons_of_neg Bool.false_ne_true]
      exact ih above fun _ is_front => within.cons is_front
    | change step =>
      cases step with
      | set name value =>
        rw [List.countP_cons_of_neg Bool.false_ne_true, List.countP_cons_of_neg Bool.false_ne_true]
        exact ih (above.set name value) fun _ is_front => within.cons is_front
      | push =>
        rw [List.countP_cons_of_neg Bool.false_ne_true, List.countP_cons_of_pos (by rfl)]
        obtain ⟨m, count, above'⟩ := ih above.push within.of_push
        exact ⟨m, by omega, above'⟩
      | pop =>
        rw [List.countP_cons_of_pos (by rfl), List.countP_cons_of_neg Bool.false_ne_true]
        obtain ⟨k, rfl, within'⟩ := within.of_pop
        obtain ⟨m, count, above'⟩ := ih above.pop within'
        exact ⟨m, by omega, above'⟩

/-- Balanced uses in a scope of their own leave the scopes around it as they were. -/
theorem after_scope (s : Layers) {inside : List Use} (balanced : Balanced inside) :
    after s (.change .push :: inside ++ [.change .pop]) = s := by
  have start : s.Over 1 s.push := ⟨rfl, [.empty], rfl, rfl⟩
  have within : Within 0 inside := balanced.own
  obtain ⟨m, count, above⟩ := start.exists_after within
  rw [balanced.closed, Nat.add_right_cancel_iff] at count
  rw [List.cons_append, after_change, after_append]
  rw [count] at above
  exact above.pop.eq

/-- A scope that is opened, used and closed leaves no trace: all that comes later goes as it would
without it. The base is never closed, and a value is set in the innermost layer alone. -/
theorem nested_scope_no_trace (root : Table Json) (before : List Use) :
    let s := after (ofBase root) before
    (∀ inside, Balanced inside →
      let scope := .change .push :: inside ++ [.change .pop]
      after s scope = s ∧ (after s scope).depth = s.depth ∧
      (∀ path, Context.resolve (after s scope) path = Context.resolve s path) ∧
      ∀ later, run s (scope ++ later) = (after s later, (run s scope).2 ++ (run s later).2)) ∧
    s.depth = before.foldl Use.level 1 ∧ 1 ≤ s.depth ∧
    (s.depth = 1 → Context.pop s = s) ∧
    ∀ name value, ∃ innermost outer, s.all = innermost :: outer ∧
      (Context.set s name value).all = innermost.insert name value :: outer := by
  intro s
  refine ⟨fun inside balanced => ?_, depth_after _ _, Nat.le_add_left 1 _, pop_of_depth_eq_one,
    s.all_set⟩
  intro scope
  have back : after s scope = s := s.after_scope balanced
  refine ⟨back, congrArg depth back, fun path => congrArg (Context.resolve · path) back, ?_⟩
  intro later
  rw [run_append, back]

theorem shadowing_scope_no_trace :
    let inside : List Use := [.change (.set "x" .null), .change .push, .lookup "x", .change .pop]
    let s := after (ofBase (.ofList [("x", .bool true)])) [.change .pop, .change .push]
    Balanced inside ∧ (run s (.change .push :: inside ++ [.change .pop])).2 = [some .null] ∧
      after s (.change .push :: inside ++ [.change .pop]) = s := by
  intro inside s
  have balanced : Balanced inside := by decide
  exact ⟨balanced, rfl, ((nested_scope_no_trace _ _).1 inside balanced).1⟩

end Layers

end TagGrammar
