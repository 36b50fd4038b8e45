import Doctest.Text.CaseTable
import Doctest.Text.Category

/-!
# Upper and lower case

The case of a text, character by character. One character may become several, and a sigma at the
end of a word has a lower case of its own.
-/

namespace Doctest.Text

/-- The code point that some runs map a code point to. -/
def mapped? (runs : List (Nat × Nat × Nat × Int)) (n : Nat) : Option Nat :=
  (runs.find? fun (first, last, step, _) =>
    first ≤ n && n ≤ last && (n - first) % step == 0).map fun (_, _, _, offset) =>
      ((n : Int) + offset).toNat

/-- The upper case of a character. -/
def upperChar (c : Char) : List Char :=
  match upperExpansions.find? (·.1 == c.toNat) with
  | some (_, codes) => codes.map Char.ofNat
  | none => [((mapped? upperRuns c.toNat).map Char.ofNat).getD c]

/-- The lower case of a character where it stands alone. Only the capital I with a dot becomes two
characters. -/
def lowerChar (c : Char) : List Char :=
  if c = '\u0130' then ['i', '\u0307']
  else [((mapped? lowerRuns c.toNat).map Char.ofNat).getD c]

/-- The upper case of a text. -/
def upper (s : List Char) : List Char :=
  s.flatMap upperChar

/-- Whether the nearest character that counts is one with case. -/
def casedNear (s : List Char) : Bool :=
  (s.dropWhile isCaseIgnorable).head?.any isCased

/-- The lower case of a text that stands after `before`, the nearest character first. A sigma is
final if a cased character comes before it and none comes after it. -/
def lowerAfter (before : List Char) : List Char → List Char
  | [] => []
  | c :: s =>
    let here :=
      if c = '\u03A3' then
        [if casedNear before && !casedNear s then '\u03C2' else '\u03C3']
      else lowerChar c
    here ++ lowerAfter (c :: before) s

/-- The lower case of a text. -/
def lower (s : List Char) : List Char :=
  lowerAfter [] s

end Doctest.Text
