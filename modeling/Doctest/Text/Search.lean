/-!
# Searching a text

Positions count characters.
-/

namespace Doctest.Text

/-- The least position at which `needle` stands in the text. -/
def indexOf? (needle : List Char) : List Char → Option Nat
  | [] => if needle.isEmpty then some 0 else none
  | c :: s => if needle.isPrefixOf (c :: s) then some 0 else (indexOf? needle s).map (· + 1)

/-- Whether `needle` stands somewhere in the text. -/
def contains (needle text : List Char) : Bool :=
  (indexOf? needle text).isSome

/-- The pieces of a text between the leftmost occurrences of a separator that do not overlap.
`skip` characters of an occurrence are still to be passed over. -/
def splitAround (separator : List Char) : Nat → List Char → List (List Char)
  | _, [] => [[]]
  | skip + 1, _ :: s => splitAround separator skip s
  | 0, c :: s =>
    if separator.isPrefixOf (c :: s) then [] :: splitAround separator (separator.length - 1) s
    else
      match splitAround separator 0 s with
      | [] => [[c]]
      | piece :: rest => (c :: piece) :: rest

/-- The pieces of a text between the occurrences of a separator that is not empty. -/
def splitOn (separator text : List Char) : List (List Char) :=
  splitAround separator 0 text

/-- The characters from `start` up to but excluding `stop`; none if they cross. -/
def slice {α : Type} (start stop : Nat) (s : List α) : List α :=
  (s.drop start).take (stop - start)

end Doctest.Text
