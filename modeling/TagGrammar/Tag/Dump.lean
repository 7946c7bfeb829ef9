import TagGrammar.Tag.Basic
import TagGrammar.Template.Basic
import TagGrammar.Text.Snake

namespace TagGrammar.Tag

variable {σ : Type} [Context σ]

/-- Every argument and every block, in the order of their names. -/
def dumpText (arguments : Table Json) (blocks : Table (List Token)) (context : σ) : String :=
  String.join (arguments.entries.map fun e => e.1 ++ "=" ++ e.2.render ++ ";") ++
    String.join (blocks.entries.map fun e =>
      "[" ++ e.1 ++ "|" ++ Template.render context e.2 ++ "]")

/-- A tag that writes out its arguments and blocks, in a scope where the variables of `binds`
hold the arguments named beside them. -/
def dump (binds : List (String × String)) (options : Options) : Tag σ (List Token) where
  name := Text.defaultTagName "DumpTag"
  options := options
  render arguments blocks context :=
    let context := binds.foldl
      (fun c b => Context.set c b.1 ((arguments.get? b.2).getD .null)) (Context.push context)
    (.ok (dumpText arguments blocks context), Context.pop context)

end TagGrammar.Tag
