namespace TagGrammar

inductive OptionsError where
  | flagWithoutValues (argument : String)
  | duplicateArgument (argument : String)
  | zeroMaxValues (argument : String)
  | emptyOneOf (group : String)
  | duplicateBlock (identifier : String)
  | missingAsBreakpoint (tag : String)
  | resolvingVarname (tag : String)
  deriving DecidableEq, Repr

namespace OptionsError

def message : OptionsError → String
  | flagWithoutValues name =>
    "Flag '" ++ name ++ "' must define at least one of true_values or false_values"
  | duplicateArgument name => "Argument '" ++ name ++ "' is defined more than once"
  | zeroMaxValues name => "Argument '" ++ name ++ "' has max_values set to 0"
  | emptyOneOf name => "One-of group '" ++ name ++ "' has no alternatives"
  | duplicateBlock name => "Block identifier '" ++ name ++ "' is defined more than once"
  | missingAsBreakpoint name =>
    "Tag '" ++ name ++ "' must end with an 'as' breakpoint followed by one argument"
  | resolvingVarname name => "The 'as' argument of tag '" ++ name ++ "' must not resolve"

end OptionsError

end TagGrammar
