import TagGrammar.Tag.Storing

namespace TagGrammar.Getter

variable {σ : Type}

def arguments : Getter σ := fun args context => (.ok (.obj args), context)

def argument (name : String) : Getter σ := fun args context =>
  (.ok ((args.get? name).getD .null), context)

def const (value : Json) : Getter σ := fun _ context => (.ok value, context)

def lookup [Context σ] (path : String) : Getter σ := fun _ context =>
  (.ok ((Context.resolve context path).getD .null), context)

def assign [Context σ] (name : String) (value : Json) : Getter σ := fun _ context =>
  let context := Context.set context name value
  (.ok ((Context.resolve context name).getD .null), context)

def fail (tagname message : String) : Getter σ := fun _ context =>
  (.error (.tag tagname message), context)

end TagGrammar.Getter
