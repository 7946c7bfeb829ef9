import TagGrammar.Context
import TagGrammar.Options.Basic

namespace TagGrammar

inductive RenderError where
  | value (error : ValueError)
  | tag (tagname message : String)
  deriving DecidableEq, Repr

def RenderError.message : RenderError → String
  | value e => e.message
  | tag tagname message => "Tag '" ++ tagname ++ "' failed to render: " ++ message

/-- A custom tag over contexts `σ` whose blocks hold contents `ν`. Rendering leaves a context behind
also when it fails. -/
structure Tag (σ ν : Type) where
  name : String
  options : Options
  render : Table Json → Table ν → σ → Except RenderError String × σ

structure TagNode (σ ν : Type) where
  tag : Tag σ ν
  tagname : String
  kwargs : Kwargs
  blocks : Table ν

structure Rendered (σ : Type) where
  result : Except RenderError String
  context : σ
  warnings : List Warning

namespace TagNode

variable {σ ν τ : Type}

/-- Compiles the bits of an invocation, the first of which is the name used in messages. -/
def compile (tag : Tag σ ν) (contents : List String) (host : BlockHost τ ν) (s : τ) :
    Except ParseError (TagNode σ ν) × τ :=
  let tagname := contents.head?.getD tag.name
  let outcome := tag.options.parse tagname contents.tail host s
  (outcome.result.map fun p => ⟨tag, tagname, p.kwargs, p.blocks⟩, outcome.host)

def render [Context σ] (node : TagNode σ ν) (mode : ErrorMode) (context : σ) : Rendered σ :=
  match node.kwargs.resolveAll (Context.resolve context) mode with
  | .error e => ⟨.error (.value e), context, []⟩
  | .ok (arguments, warnings) =>
    let (result, context) := node.tag.render arguments node.blocks context
    ⟨result, context, warnings⟩

end TagNode

end TagGrammar
