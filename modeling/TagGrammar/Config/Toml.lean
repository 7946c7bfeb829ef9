import TagGrammar.Config.Settings
import TagGrammar.Toml.Document

namespace TagGrammar.Config

def Parser.toml : Parser := .ofDocuments Toml.parse?

end TagGrammar.Config
