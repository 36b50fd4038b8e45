import Doctest.Text.Search

/-!
# Paths

The parts of a path between slashes.
-/

namespace Doctest.CommandLine

/-- The parts of a path between slashes, the empty ones included. -/
def pathParts (path : String) : List String :=
  (Text.splitOn ['/'] path.toList).map String.ofList

/-- The name of the file that a path leads to. -/
def fileName? (path : String) : Option String :=
  match ((pathParts path).filter fun part => part ≠ "" && part ≠ ".").getLast? with
  | some ".." => none
  | name => name

/-- What stands after the last point of the name of a file. A point at the front of the name does
not count. -/
def extension? (path : String) : Option String :=
  match fileName? path with
  | none => none
  | some name =>
    match (Text.splitOn ['.'] name.toList).reverse with
    | last :: first :: rest =>
      if first.isEmpty && rest.isEmpty then none else some (String.ofList last)
    | _ => none

end Doctest.CommandLine
