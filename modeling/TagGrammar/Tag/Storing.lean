import TagGrammar.Tag.Basic
import TagGrammar.Text.Quoted

namespace TagGrammar

abbrev Getter (σ : Type) := Table Json → σ → Except RenderError Json × σ

/-- A tag that computes one value, and shows it or stores it `as` a variable. -/
structure StoringTag (σ : Type) where
  name : String
  options : Options
  /-- The argument that holds the name of the variable. -/
  varname : String
  getter : Getter σ

namespace StoringTag

variable {σ ν : Type}

/-- The grammar has to end with `as` and one argument, which must not resolve. -/
def build (name : String) (options : Options) (getter : Getter σ) :
    Except OptionsError (StoringTag σ) :=
  match options.grammar.later.getLast? with
  | some ⟨"as", [argument]⟩ =>
    if argument.header.resolve then .error (.resolvingVarname name)
    else .ok ⟨name, options, argument.name, getter⟩
  | _ => .error (.missingAsBreakpoint name)

/-- Stores the value where the variable has a name, and shows it otherwise. -/
def render [Context σ] (t : StoringTag σ) (arguments : Table Json) (context : σ) :
    Except RenderError String × σ :=
  match t.getter (arguments.erase t.varname) context with
  | (.error e, context) => (.error e, context)
  | (.ok value, context) =>
    match arguments.get? t.varname with
    | some (.str target) =>
      if target.isEmpty then (.ok value.render, context)
      else (.ok "", Context.set context target value)
    | _ => (.ok value.render, context)

def toTag [Context σ] (t : StoringTag σ) : Tag σ ν :=
  ⟨t.name, t.options, fun arguments _ context => t.render arguments context⟩

def describe (t : StoringTag σ) : String :=
  "AsTag \x7b name: " ++ Text.quoted t.name ++ ", varname: " ++ Text.quoted t.varname ++
    ", .. \x7d"

end StoringTag

end TagGrammar
