import TagGrammar.Text.Listing

namespace TagGrammar

inductive ParseError where
  /-- A scope was closed before a required argument got a bit. -/
  | argumentRequired (tagname argument : String)
  | invalidFlag (tagname argument actual : String) (allowed : List String)
  | invalidArgument (tagname argument bit : String)
  | keywordInUse (tagname keyword : String)
  /-- A bit found no argument while breakpoints were still ahead. -/
  | breakpointExpected (tagname : String) (breakpoints : List String) (got : String)
  /-- Bits were left when nothing could take them. -/
  | tooManyArguments (tagname : String) (extra : List String)
  /-- The template ended inside a block. -/
  | unclosedBlock (tagname : String) (expected : List String)
  deriving DecidableEq, Repr

namespace ParseError

def message : ParseError → String
  | argumentRequired tagname argument =>
    "The tag '" ++ tagname ++ "' requires the '" ++ argument ++ "' argument."
  | invalidFlag tagname argument actual allowed =>
    "The flag '" ++ argument ++ "' for the tag '" ++ tagname ++ "' must be one of " ++
      Text.listing allowed ++ ", not '" ++ actual ++ "'."
  | invalidArgument tagname argument bit =>
    "The argument '" ++ argument ++ "' of the tag '" ++ tagname ++ "' does not accept '" ++
      bit ++ "'."
  | keywordInUse tagname keyword =>
    "The keyword '" ++ keyword ++ "' is already in use in the tag '" ++ tagname ++ "'."
  | breakpointExpected tagname breakpoints got =>
    "Expected one of the following breakpoints: " ++ Text.listing breakpoints ++ " in " ++
      tagname ++ ", got '" ++ got ++ "' instead."
  | tooManyArguments tagname extra =>
    "The tag '" ++ tagname ++ "' got too many arguments: " ++ Text.listing extra
  | unclosedBlock tagname expected =>
    "Unclosed tag '" ++ tagname ++ "'. Looking for one of: " ++ Text.listing expected

end ParseError

end TagGrammar
