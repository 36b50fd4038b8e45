import Doctest.Text.Search

/-!
# Styles

Colours and weights of the words that the program prints to a terminal.
-/

namespace Doctest.CommandLine

/-- A colour or weight, or several. -/
inductive Style where
  | bold
  | underlined
  | green
  | red
  | boldRed
  deriving DecidableEq, Repr

/-- The code of a style. -/
def Style.code : Style → String
  | .bold => "1"
  | .underlined => "4"
  | .green => "32"
  | .red => "31"
  | .boldRed => "1;31"

/-- The mark at which all styles end. -/
def resetMark : String :=
  "\x1b[0m"

/-- A text in a style, if styles are wanted. A mark inside the text that ends all styles is followed
by the start of the style, so that it goes on. -/
def styled (isColored : Bool) (style : Style) (text : String) : String :=
  if isColored then
    let start := "\x1b[" ++ style.code ++ "m"
    let pieces := (Text.splitOn resetMark.toList text.toList).map String.ofList
    start ++ (resetMark ++ start).intercalate pieces ++ resetMark
  else text

/-- Whether styles are wanted, by the variables of the environment and by whether the output is a
terminal. -/
def wantsStyles (environment : String → Option String) (isTerminal : Bool) : Bool :=
  if (environment "NO_COLOR").isSome then false
  else if (environment "FORCE_COLOR").isSome then true
  else if (environment "CLICOLOR_FORCE").any (· ≠ "0") then true
  else environment "CLICOLOR" ≠ some "0" && isTerminal

end Doctest.CommandLine
