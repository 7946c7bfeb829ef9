import TagGrammar.Blocks.Capture
import TagGrammar.Parse.State

namespace TagGrammar

structure Options where
  grammar : Grammar
  parser : Parser
  usable : grammar.defect? = none

namespace Options

def empty : Options := ⟨.empty, .breakpoints, rfl⟩

def build (grammar : Grammar) (parser : Parser) : Except OptionsError Options :=
  match h : grammar.defect? with
  | none => .ok ⟨grammar, parser, h⟩
  | some e => .error e

structure Parsed (ν : Type) where
  kwargs : Kwargs
  blocks : Table ν

structure Outcome (σ ν : Type) where
  result : Except ParseError (Parsed ν)
  host : σ
  events : List Event

def parseKwargs (o : Options) (tagname : String) (bits : List String) : Step :=
  o.parser bits (.start o.grammar tagname)

def parse {σ ν : Type} (o : Options) (tagname : String) (bits : List String)
    (host : BlockHost σ ν) (s : σ) : Outcome σ ν :=
  match o.parseKwargs tagname bits with
  | .failed e state => ⟨.error e, s, state.events⟩
  | .done state =>
    let (result, s, requests) := host.recorded.capture tagname o.grammar.blocks (s, [])
    ⟨result.map fun blocks => ⟨state.kwargs, blocks⟩, s,
      state.events ++ (requests.filterMap (·.found)).map (.capturedBlock tagname)⟩

end Options

end TagGrammar
