import TagGrammar.Argument.Build
import TagGrammar.Bit.Split
import TagGrammar.Config.Load
import TagGrammar.Tag.Dump
import TagGrammar.Tag.Getter
import TagGrammar.Proofs.Argument.Holds
import TagGrammar.Proofs.Argument.Locality
import TagGrammar.Proofs.Grammar.Scopes
import TagGrammar.Proofs.Argument.Defaults
import TagGrammar.Proofs.Parse.Moves
import TagGrammar.Proofs.Parse.Coherence
import TagGrammar.Proofs.Parse.Routing
import TagGrammar.Proofs.Parse.Opening
import TagGrammar.Proofs.Argument.Errors
import TagGrammar.Proofs.Parse.Beside
import TagGrammar.Proofs.Parse.Independence
import TagGrammar.Proofs.Argument.Segment
import TagGrammar.Proofs.Parse.Segments
import TagGrammar.Proofs.Parse.Required
import TagGrammar.Proofs.Parse.FirstFailure
import TagGrammar.Proofs.Table.Entries
import TagGrammar.Proofs.Blocks.Kept
import TagGrammar.Proofs.Context.Lawful
import TagGrammar.Proofs.Context.Overlay
import TagGrammar.Proofs.Parse.LastScope
import TagGrammar.Proofs.Tag.Arguments
import TagGrammar.Proofs.Value.Modes
import TagGrammar.Proofs.Tag.Storing
import TagGrammar.Proofs.Bit.WellQuoted
import TagGrammar.Proofs.Bit.Joined
import TagGrammar.Proofs.Bit.Lossless
import TagGrammar.Proofs.Parse.Captured
import TagGrammar.Proofs.Tag.Shape
import TagGrammar.Proofs.Tag.Reads
import TagGrammar.Proofs.Argument.Exclusions
import TagGrammar.Proofs.Config.Refused
import TagGrammar.Proofs.Argument.Growth
import TagGrammar.Proofs.Argument.InPlace
import TagGrammar.Proofs.Parse.Commitment
import TagGrammar.Proofs.Parse.Breaking
import TagGrammar.Proofs.Blocks.Protocol
import TagGrammar.Proofs.Context.Nesting
import TagGrammar.Proofs.Value.Grouping
import TagGrammar.Proofs.Value.IntegerText
import TagGrammar.Proofs.Value.Cleaning
import TagGrammar.Proofs.Tag.Order
import TagGrammar.Proofs.Text.Words
import TagGrammar.Proofs.Grammar.Declared
import TagGrammar.Proofs.Argument.FlagWords
import TagGrammar.Proofs.Context.Binding
import TagGrammar.Proofs.Text.Settled
import TagGrammar.Proofs.Config.Nearest
import TagGrammar.Proofs.Config.Loaded
import TagGrammar.Config.Settings
import TagGrammar.Config.Toml
import TagGrammar.Proofs.Config.Walk
