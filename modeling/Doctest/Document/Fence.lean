import Doctest.Text.Blank

/-!
# Code fences

The lines that open and close a code block.
-/

namespace Doctest

/-- An opening code fence: the spaces before it, its character, how often that character stands,
and the trimmed text after it. -/
structure Fence where
  indent : Nat
  mark : Char
  width : Nat
  info : List Char
  deriving DecidableEq, Repr

namespace Fence

/-- The number of times a character stands at the front of a line. -/
def leading (c : Char) (line : List Char) : Nat :=
  (line.takeWhile (· = c)).length

/-- The character of a fence that may also stand in running text. -/
def backtick : Char :=
  '\x60'

/-- The greatest indent of a fence. -/
def greatestIndent : Nat :=
  3

/-- The fence that a line without its terminator opens: at least three backticks or tildes after
at most three spaces. The text after backticks holds no backtick. -/
def open? (line : List Char) : Option Fence :=
  let indent := leading ' ' line
  let rest := line.drop indent
  match rest with
  | [] => none
  | mark :: _ =>
    let width := leading mark rest
    let info := Text.trim (rest.drop width)
    if greatestIndent < indent then none
    else if mark ≠ backtick ∧ mark ≠ '~' then none
    else if width < 3 then none
    else if mark = backtick ∧ backtick ∈ info then none
    else some ⟨indent, mark, width, info⟩

/-- Whether a line without its terminator closes a fence: the same character at least as often,
after at most three spaces, and nothing else but blanks. -/
def isClosedBy (fence : Fence) (line : List Char) : Bool :=
  let indent := leading ' ' line
  let rest := line.drop indent
  let width := leading fence.mark rest
  indent ≤ greatestIndent && fence.width ≤ width && Text.allBlank (rest.drop width)

/-- The first word of the text after the fence, which names the language of the block. -/
def language? (fence : Fence) : Option String :=
  (Text.firstWord? fence.info).map String.ofList

end Fence

end Doctest
