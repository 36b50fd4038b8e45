import Doctest.CommandLine.Path
import Doctest.Dict

/-!
# Files

A directory of files that is kept as data, and why a file cannot be read or written.
-/

namespace Doctest.CommandLine

/-- Why there is no access to a file. -/
inductive FileFault where
  | missing
  | notDirectory
  | isDirectory
  | denied
  /-- A name in the path, or all of the path, has too many bytes. -/
  | nameTooLong
  /-- The bytes of the file are no text. -/
  | notText
  /-- The system gives another reason. -/
  | other (reason : String)
  deriving DecidableEq, Repr

/-- The reason in words. -/
def FileFault.message : FileFault → String
  | .missing => "No such file or directory (os error 2)"
  | .notDirectory => "Not a directory (os error 20)"
  | .isDirectory => "Is a directory (os error 21)"
  | .denied => "Permission denied (os error 13)"
  | .nameTooLong => "File name too long (os error 36)"
  | .notText => "stream did not contain valid UTF-8"
  | .other reason => reason

/-- Files below a directory, under their paths of names without points. Directories are there if
a file is in them. Files outside of the directory are there only if they were written. -/
structure Files where
  texts : Dict String
  deriving Repr

/-- The greatest number of bytes of a name. -/
def greatestNameSize : Nat :=
  255

/-- The greatest number of bytes of a path. -/
def greatestPathSize : Nat :=
  4095

/-- Whether a name at the front of a path leads away from the directory: to the one above it, or
to the root, which is written as an empty name. -/
def leadsOutside (name : String) : Bool :=
  name = ".." || name = ""

/-- The directory above the place that names lead to. There is none above the root. -/
def parentOf (names : List String) : List String :=
  if names = [""] then names
  else if names.all leadsOutside then names ++ [".."]
  else names.dropLast

namespace Files

/-- The path of names. -/
def pathOf (names : List String) : String :=
  "/".intercalate names

/-- Whether names lead to a file. -/
def hasFile (files : Files) (names : List String) : Bool :=
  files.texts.contains (pathOf names)

/-- Whether names lead to a directory. Outside there are only the directories above. -/
def hasDirectory (files : Files) (names : List String) : Bool :=
  names.all leadsOutside ||
    files.texts.keys.any fun path => (pathOf names ++ "/").toList.isPrefixOf path.toList

/-- Follows the parts of a path from a place on. The last name of a path need not be there. -/
def follow (files : Files) (names : List String) : List String → Except FileFault (List String)
  | [] => .ok names
  | part :: rest =>
    if !files.hasDirectory names then
      .error (if files.hasFile names then .notDirectory else .missing)
    else if part = "" || part = "." then files.follow names rest
    else if part = ".." then files.follow (parentOf names) rest
    else if greatestNameSize < part.utf8ByteSize then .error .nameTooLong
    else files.follow (names ++ [part]) rest

/-- The names that the parts of a path lead to. -/
def resolve (files : Files) (path : String) (parts : List String) :
    Except FileFault (List String) :=
  if path.isEmpty then .error .missing
  else if greatestPathSize < path.utf8ByteSize then .error .nameTooLong
  else files.follow (if parts.head? = some "" then [""] else []) parts

/-- The text of the file at a path. -/
def read (files : Files) (path : String) : Except FileFault String := do
  let names ← files.resolve path (pathParts path)
  match files.texts.get? (pathOf names) with
  | some text => return text
  | none => throw (if files.hasDirectory names then .isDirectory else .missing)

/-- The parts of a path to write to. A path that ends in a slash can only lead to a directory, and
it leads to the one that the last name would be in: whether that name is there does not matter. -/
def partsToWrite (path : String) : List String :=
  let parts := pathParts path
  if parts.getLast? = some "" then
    (parts.reverse.dropWhile (· = "")).tail.reverse ++ ["."]
  else parts

/-- The place that a path to write to leads to. -/
def destination (files : Files) (path : String) : Except FileFault String := do
  let names ← files.resolve path (partsToWrite path)
  if files.hasDirectory names then throw .isDirectory else return pathOf names

/-- The files after the one at a path was given a text. -/
def write (files : Files) (path text : String) : Except FileFault Files := do
  return ⟨files.texts.insert (← files.destination path) text⟩

/-- Whether a place is outside of the directory. -/
def isOutside (place : String) : Bool :=
  (pathParts place).head?.any leadsOutside

/-- The files of the directory that are new or have another text than before, sorted by their
paths. -/
def changesSince (files before : Files) : List (String × String) :=
  let isChanged (place text : String) : Bool :=
    !isOutside place && before.texts.get? place ≠ some text
  (files.texts.entries.filter fun (place, text) => isChanged place text).mergeSort
    fun a b => a.1 ≤ b.1

end Files

end Doctest.CommandLine
