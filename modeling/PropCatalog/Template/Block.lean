import PropCatalog.Example.Notation
import PropCatalog.Template.Basic

/-!
# Markdown blocks

A template is shown as a third-level heading with its name, its description on the next line, and
its example in a fenced code block.
-/

namespace PropCatalog.Template

/-- How blocks are written. -/
structure BlockStyle where
  fenceLanguage : Text
  descriptions : Bool

/-- The style of blocks when nothing else is asked for. -/
def BlockStyle.standard : BlockStyle := ⟨"json".toList, true⟩

def fence : Text := ['\x60', '\x60', '\x60']

/-- The markdown block of a template. -/
def block (style : BlockStyle) (template : Template) : Text :=
  "### ".toList ++ template.name ++ ['\n'] ++
    (match style.descriptions, template.description with
      | true, some description => description ++ ['\n']
      | _, _ => []) ++
    '\n' :: fence ++ style.fenceLanguage ++ ['\n'] ++ template.payload.render ++
    '\n' :: fence ++ ['\n']

end PropCatalog.Template
