import TagGrammar.Config.FileSystem
import TagGrammar.Value.Kind

namespace TagGrammar

inductive ConfigError where
  | notFound (path : String)
  | io
  | parse
  deriving DecidableEq, Repr

def ConfigError.message : ConfigError → String
  | notFound path => "Configuration file not found: " ++ path
  | io => "I/O error"
  | parse => "TOML parse error"

structure Config where
  debug : Bool
  path : Option String
  deriving DecidableEq, Repr

structure Overrides where
  debug : Option Bool

namespace Config

def mode (c : Config) : ErrorMode := .ofDebug c.debug

def initial : Config := ⟨false, none⟩

/-- What the text of a file sets. -/
structure Settings where
  debug : Option Bool
  deriving DecidableEq, Repr

/-- Reads the settings of a text, where it has any form that is accepted. -/
abbrev Parser := String → Option Settings

def fileName : String := "customtags.toml"

def read (parse : Parser) (path : String) : Entry → Except ConfigError Config
  | .directory => .error .io
  | .file content =>
    match String.fromUTF8? content with
    | none => .error .io
    | some text =>
      match parse text with
      | none => .error .parse
      | some settings => .ok ⟨settings.debug.getD initial.debug, some path⟩

/-- The nearest configuration entry, in a directory given by its names from the innermost on, or in
one that holds it. -/
def discoverUp (fs : FileSystem) : List String → Option (List String × Entry)
  | [] => (fs.get? [fileName]).map ([fileName], ·)
  | name :: outer =>
    let candidate := (fileName :: name :: outer).reverse
    match fs.get? candidate with
    | some entry => some (candidate, entry)
    | none => discoverUp fs outer

def discover (fs : FileSystem) (directory : List String) : Option (List String × Entry) :=
  discoverUp fs directory.reverse

def find (parse : Parser) (fs : FileSystem) (directory : List String) :
    Option String → Except ConfigError Config
  | some path =>
    match fs.locate? directory path with
    | none => .error (.notFound path)
    | some entry => read parse path entry
  | none =>
    match discover fs directory with
    | none => .ok initial
    | some (place, entry) => read parse (absolutePath place) entry

def override (overrides : Option Overrides) (c : Config) : Config :=
  match overrides.bind Overrides.debug with
  | none => c
  | some debug => { c with debug }

/-- The configuration of a process in a directory, by the path given or, without one, of the nearest
file. -/
def load (parse : Parser) (fs : FileSystem) (directory : List String) (path : Option String)
    (overrides : Option Overrides) : Except ConfigError Config :=
  (find parse fs directory path).map (override overrides)

end Config

end TagGrammar
