import Doctest.Document.Basic

/-!
# Settings

Which blocks of a document are checked, and what becomes of the markers that it already has.
-/

namespace Doctest

/-- How a document is checked. -/
structure Settings where
  /-- The languages of the blocks that are checked. -/
  languages : List String := ["js", "javascript"]
  /-- Whether the markers of an earlier check are removed first. -/
  strips : Bool := false
  deriving DecidableEq, Repr

namespace Settings

/-- The settings with one more language, unless it is there. -/
def withLanguage (settings : Settings) (language : String) : Settings :=
  if language ∈ settings.languages then settings
  else { settings with languages := settings.languages ++ [language] }

/-- Whether a block is checked: its language has to be one of those named, letter for letter. -/
def checks (settings : Settings) (block : CodeBlock) : Bool :=
  block.language?.any (· ∈ settings.languages)

end Settings

end Doctest
