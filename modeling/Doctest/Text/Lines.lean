/-!
# Lines

A text is cut after every line feed, so that its lines put together again are the text. Offsets
are byte offsets into the UTF-8 form of the text.
-/

namespace Doctest.Text

/-- The bytes of a text in UTF-8. -/
def byteSize : List Char → Nat
  | [] => 0
  | c :: s => c.utf8Size + byteSize s

/-- The lines of a text, each with its line feed; only the last may lack one. -/
def lines : List Char → List (List Char)
  | [] => []
  | c :: s =>
    if c = '\n' then ['\n'] :: lines s
    else
      match lines s with
      | [] => [[c]]
      | line :: rest => (c :: line) :: rest

/-- The pieces between line feeds; there is one more piece than there are line feeds. -/
def splitLines : List Char → List (List Char)
  | [] => [[]]
  | c :: s =>
    if c = '\n' then [] :: splitLines s
    else
      match splitLines s with
      | [] => [[c]]
      | line :: rest => (c :: line) :: rest

/-- A line without one carriage return at its end. -/
def dropReturn (line : List Char) : List Char :=
  match line.getLast? with
  | some '\r' => line.dropLast
  | _ => line

/-- A line without its terminator, a line feed or a carriage return and a line feed. A carriage
return at the very end of the text also goes. -/
def dropLineEnd (line : List Char) : List Char :=
  match line.getLast? with
  | some '\n' => dropReturn line.dropLast
  | _ => dropReturn line

/-- The byte offsets just after each line feed of a text that starts at offset `start`. -/
def offsetsAfterFeeds (start : Nat) : List Char → List Nat
  | [] => []
  | c :: s =>
    let next := start + c.utf8Size
    if c = '\n' then next :: offsetsAfterFeeds next s else offsetsAfterFeeds next s

/-- A place in a text: line and byte column, both counted from one. -/
structure Position where
  line : Nat
  column : Nat
  deriving DecidableEq, Repr

/-- The byte offsets at which the lines of a text begin. -/
structure LineMap where
  starts : List Nat

/-- The line map of a text. -/
def LineMap.ofText (s : List Char) : LineMap :=
  ⟨0 :: offsetsAfterFeeds 0 s⟩

/-- The place of a byte offset: the last line that begins at or before it. Offsets past the end
count on in the last line. -/
def LineMap.position (map : LineMap) (offset : Nat) : Position :=
  let before := map.starts.takeWhile (· ≤ offset)
  ⟨before.length, offset - before.getLastD 0 + 1⟩

end Doctest.Text
