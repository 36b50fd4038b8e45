import Doctest.Number.Numeral
import Doctest.Script.Token
import Doctest.Text.Lines

/-!
# Scanning

A source text is cut into tokens, the longest one possible at each place. Blanks and comments
stand for nothing; line breaks are tokens.
-/

namespace Doctest.Script

/-- Blanks within a line. -/
def isSpacing (c : Char) : Bool :=
  c = ' ' || c = '\t' || c = '\x0c'

/-- The characters an identifier begins with. -/
def isWordStart (c : Char) : Bool :=
  c.isAlpha || c = '_' || c = '$'

/-- The characters an identifier goes on with. -/
def isWordPart (c : Char) : Bool :=
  isWordStart c || c.isDigit

/-- The number of characters up to the end of a block comment, or of the text if the comment does
not end. Comments do not nest. -/
def commentLength : List Char → Nat
  | [] => 0
  | [_] => 1
  | c :: d :: s => if c = '*' ∧ d = '/' then 2 else commentLength (d :: s) + 1

/-- The characters of a string up to the quote that closes it; none if it is not closed on its
line. A backslash takes the next character with it. -/
def stringBody? (quote : Char) : List Char → Option (List Char)
  | [] => none
  | c :: s =>
    if c = quote then some []
    else if c = '\n' then none
    else if c = '\\' then
      match s with
      | [] => none
      | d :: s => if d = '\n' then none else (stringBody? quote s).map (c :: d :: ·)
    else (stringBody? quote s).map (c :: ·)

/-- The character with a code point. -/
def charOf? (n : Nat) : Option Char :=
  if n.isValidChar then some (Char.ofNat n) else none

/-- The character that the rest of an escape after `\u` stands for, and the number of characters
the rest has: four hexadecimal digits, or one to six between braces. -/
def unicodeEscape? (s : List Char) : Option (Char × Nat) :=
  match s with
  | '\x7b' :: s =>
    let digits := s.takeWhile Number.isHexDigit
    if 1 ≤ digits.length ∧ digits.length ≤ 6 ∧ s[digits.length]? = some '\x7d' then
      (charOf? (Number.ofDigits 16 digits)).map (·, digits.length + 2)
    else none
  | s =>
    let digits := s.take 4
    if digits.length = 4 ∧ digits.all Number.isHexDigit then
      (charOf? (Number.ofDigits 16 digits)).map (·, 4)
    else none

/-- The character that an escape stands for, given what follows the backslash, and the number of
characters it takes. A character without a meaning of its own stands for itself. -/
def escape? : List Char → Option (Char × Nat)
  | [] => none
  | 'n' :: _ => some ('\n', 1)
  | 'r' :: _ => some ('\r', 1)
  | 't' :: _ => some ('\t', 1)
  | 'b' :: _ => some ('\x08', 1)
  | 'f' :: _ => some ('\x0c', 1)
  | 'v' :: _ => some ('\x0b', 1)
  | '0' :: _ => some ('\x00', 1)
  | 'u' :: s => (unicodeEscape? s).map fun (c, n) => (c, n + 1)
  | c :: _ => some (c, 1)

/-- The characters that the body of a string stands for. -/
def unescape? : List Char → Option (List Char)
  | [] => some []
  | c :: s =>
    if c = '\\' then
      match escape? s with
      | some (d, n) => (unescape? (s.drop n)).map (d :: ·)
      | none => none
    else (unescape? s).map (c :: ·)
termination_by s => s.length
decreasing_by all_goals simp +arith

/-- What stands at the front of a text: a token, or something to pass over, and the number of
characters it takes after the first. -/
abbrev Lexeme := Option TokenKind × Nat

/-- The kind of token that an identifier is if it is no keyword and no literal. -/
def wordKind (word : String) : TokenKind :=
  if word = "true" then .bool true
  else if word = "false" then .bool false
  else if word = "null" then .null
  else if word = "undefined" then .undefined
  else
    match Keyword.all.find? (·.text = word) with
    | some keyword => .keyword keyword
    | none => .ident word

/-- The hexadecimal digits of a number whose first character is a zero. -/
def hexDigits? : List Char → Option (List Char)
  | x :: s =>
    if x = 'x' ∨ x = 'X' then
      let digits := s.takeWhile Number.isHexDigit
      if digits.isEmpty then none else some digits
    else none
  | [] => none

/-- The numeral at the front of a text and the number of its characters. A point without a digit
after it, and an `e` without an exponent, do not belong to it. -/
def numeral (s : List Char) : Number.Numeral × Nat :=
  let whole := s.takeWhile Char.isDigit
  let fraction :=
    match s.drop whole.length with
    | '.' :: rest => rest.takeWhile Char.isDigit
    | _ => []
  let length := if fraction.isEmpty then whole.length else whole.length + 1 + fraction.length
  match Number.exponent? (s.drop length) with
  | some (exponent, count) => (⟨whole, fraction, exponent⟩, length + count)
  | none => (⟨whole, fraction, 0⟩, length)

/-- The number at the front of a text. -/
def numberLexeme (c : Char) (s : List Char) : Except FaultCause Lexeme :=
  match (if c = '0' then hexDigits? s else none) with
  | some digits =>
    match Number.ofDigitsBelow? 16 (Nat.pow 2 64) digits with
    | some n => .ok (some (.number (Float.ofNat n)), digits.length + 1)
    | none => .error .badNumber
  | none =>
    let (numeral, length) := numeral (c :: s)
    .ok (some (.number numeral.value), length - 1)

/-- The string that follows an opening quote. -/
def stringLexeme (quote : Char) (s : List Char) : Except FaultCause Lexeme :=
  match stringBody? quote s with
  | none => .error .strayQuote
  | some body =>
    match unescape? body with
    | none => .error .badEscape
    | some text => .ok (some (.string (String.ofList text)), body.length + 1)

/-- The operator or delimiter at the front of a text. -/
def symbolLexeme (c : Char) (s : List Char) : Except FaultCause Lexeme :=
  match Symbol.longestFirst.find? (·.text.toList.isPrefixOf (c :: s)) with
  | some symbol => .ok (some (.symbol symbol), symbol.text.length - 1)
  | none => .error (.strayCharacter c)

/-- What stands at the front of a text of a first character and others. -/
def lexeme (c : Char) (s : List Char) : Except FaultCause Lexeme :=
  if isSpacing c then .ok (none, (s.takeWhile isSpacing).length)
  else if c = '\n' then .ok (some .newline, 0)
  else if c = '\r' ∧ s.head? = some '\n' then .ok (some .newline, 1)
  else if c = '/' ∧ s.head? = some '/' then .ok (none, (s.takeWhile (· ≠ '\n')).length)
  else if c = '/' ∧ s.head? = some '*' then .ok (none, commentLength s.tail + 1)
  else if c.isDigit ∨ (c = '.' ∧ s.head?.any Char.isDigit) then numberLexeme c s
  else if c = '\x22' ∨ c = '\x27' then stringLexeme c s
  else if isWordStart c then
    let word := c :: s.takeWhile isWordPart
    .ok (some (wordKind (String.ofList word)), word.length - 1)
  else symbolLexeme c s

/-- Where a fault of a lexeme lies: a bad number all over, the others at the first character. -/
def faultSpan (cause : FaultCause) (offset : Nat) (c : Char) (s : List Char) : Span :=
  match cause with
  | .badNumber =>
    let digits := (hexDigits? s).getD []
    ⟨offset, offset + 2 + digits.length⟩
  | _ => ⟨offset, offset + c.utf8Size⟩

/-- The tokens of a text that begins at an offset. -/
def tokensFrom (offset : Nat) : List Char → Except Fault (List Token)
  | [] => .ok [⟨.eof, ⟨offset, offset⟩⟩]
  | c :: s =>
    match lexeme c s with
    | .error cause => .error ⟨cause, faultSpan cause offset c s⟩
    | .ok (kind, count) =>
      let stop := offset + Text.byteSize (c :: s.take count)
      match kind, tokensFrom stop (s.drop count) with
      | _, .error fault => .error fault
      | none, .ok tokens => .ok tokens
      | some kind, .ok tokens => .ok (⟨kind, ⟨offset, stop⟩⟩ :: tokens)
termination_by s => s.length
decreasing_by simp +arith

/-- The tokens of a source text, the last of which is its end. -/
def tokens (source : String) : Except Fault (List Token) :=
  tokensFrom 0 source.toList

end Doctest.Script
