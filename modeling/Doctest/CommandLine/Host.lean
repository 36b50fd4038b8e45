import Doctest.CommandLine.File

/-!
# Hosts

What the program needs from the system that it runs on, and a host that only remembers what was
done to it.
-/

namespace Doctest.CommandLine

/-- The system that the program runs on. -/
structure Host (m : Type → Type) where
  /-- The text of the file at a path. -/
  read : String → m (Except FileFault String)
  /-- Gives the file at a path a text. -/
  write : String → String → m (Except FileFault Unit)
  /-- Writes to the standard output. -/
  print : String → m Unit
  /-- Writes to the standard error output. -/
  complain : String → m Unit

/-- What a run of the program did: the files after it, and what it wrote. -/
structure Transcript where
  files : Files
  output : String := ""
  errors : String := ""

/-- The host that remembers. -/
def Transcript.host : Host (StateM Transcript) where
  read path := fun transcript => (transcript.files.read path, transcript)
  write path text := fun transcript =>
    match transcript.files.write path text with
    | .ok files => (.ok (), { transcript with files })
    | .error fault => (.error fault, transcript)
  print text := modify fun transcript => { transcript with output := transcript.output ++ text }
  complain text := modify fun transcript => { transcript with errors := transcript.errors ++ text }

end Doctest.CommandLine
