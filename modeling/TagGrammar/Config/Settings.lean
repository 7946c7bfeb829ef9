import TagGrammar.Config.Load
import TagGrammar.Toml.Range

namespace TagGrammar.Config

/-- The setting in a table `templates`, which knows no other key than `debug`. -/
def debugAmong (children : Toml.Children) : Option Settings :=
  if children.all (·.1 = "debug") then
    match Toml.find? "debug" children with
    | none => some ⟨none⟩
    | some (.bool b) => some ⟨some b⟩
    | some _ => none
  else none

/-- The setting may also stand first in an array, without its name; what follows it is of no
account. -/
def debugFirst : List Toml.Value → Option Settings
  | [] => some ⟨none⟩
  | .bool b :: _ => some ⟨some b⟩
  | _ :: _ => none

/-- The settings of a document, unless it has anything unexpected under `templates`. Keys beside that
one are of no account, but their numbers have to be in range. -/
def Settings.ofDocument? (root : Toml.Children) : Option Settings :=
  if root.all fun child => child.1 = "templates" || child.2.inRange then
    match Toml.find? "templates" root with
    | none => some ⟨none⟩
    | some (.table _ children) => debugAmong children
    | some (.array items) => debugFirst items
    | some _ => none
  else none

/-- Reads the document that a text is, in whatever syntax, and its settings from that. -/
def Parser.ofDocuments (document? : String → Option Toml.Children) : Parser := fun text =>
  (document? text).bind Settings.ofDocument?

end TagGrammar.Config
