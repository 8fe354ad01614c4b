import PropCatalog.Text.Basic

/-!
# The default configuration file

The file that a new project starts with: every key with its default value and a comment.
-/

namespace PropCatalog.Config

/-- The lines of the default configuration file. -/
def defaultLines : List String :=
  ["# propdoc configuration file",
   "",
   "[source]",
   "# Directory containing one template component per file",
   "dir = \"src/components/templates\"",
   "",
   "# File extensions to scan",
   "extensions = [\"tsx\", \"ts\"]",
   "",
   "# Whether to scan subdirectories",
   "recursive = false",
   "",
   "# The props interface of component \x60Card\x60 is \x60Card\x60 + this suffix",
   "props_suffix = \"Props\"",
   "",
   "[target]",
   "# Document receiving the generated schemas",
   "file = \"docs/agent-prompt.md\"",
   "",
   "# Markers delimiting the region propdoc owns",
   "start_marker = \"<!-- TEMPLATE_SCHEMAS:START -->\"",
   "end_marker = \"<!-- TEMPLATE_SCHEMAS:END -->\"",
   "",
   "# Hand-written section converted into the marked region on the first run",
   "legacy_heading = \"## Available Templates\"",
   "",
   "[output]",
   "# Count heading of the generated section",
   "heading = \"Available Templates\"",
   "",
   "# Language of the fenced example blocks",
   "fence_lang = \"json\"",
   "",
   "# Whether to include each template's JSDoc summary line",
   "include_descriptions = true",
   "",
   "[resolver]",
   "# How deep to follow references between interfaces",
   "max_depth = 2"]

def defaultText : Text :=
  defaultLines.flatMap fun line => line.toList ++ ['\n']

end PropCatalog.Config
