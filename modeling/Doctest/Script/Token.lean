/-!
# Tokens

The tokens of the script language, each with the bytes of the source it stands for.
-/

namespace Doctest.Script

/-- A range of byte offsets into the source, its end excluded. -/
structure Span where
  start : Nat
  stop : Nat
  deriving DecidableEq, Repr

/-- The least span around two spans. -/
def Span.join (a b : Span) : Span :=
  ⟨min a.start b.start, max a.stop b.stop⟩

/-- The words that are no identifiers and no literals. -/
inductive Keyword where
  | kwLet
  | kwConst
  | kwVar
  | kwNew
  | kwThrow
  | kwReturn
  | kwIf
  | kwElse
  | kwTypeof
  deriving DecidableEq, Repr

/-- The spelling of a keyword. -/
def Keyword.text : Keyword → String
  | .kwLet => "let"
  | .kwConst => "const"
  | .kwVar => "var"
  | .kwNew => "new"
  | .kwThrow => "throw"
  | .kwReturn => "return"
  | .kwIf => "if"
  | .kwElse => "else"
  | .kwTypeof => "typeof"

/-- Every keyword. -/
def Keyword.all : List Keyword :=
  [.kwLet, .kwConst, .kwVar, .kwNew, .kwThrow, .kwReturn, .kwIf, .kwElse, .kwTypeof]

/-- Operators and delimiters. -/
inductive Symbol where
  | plus
  | minus
  | star
  | starStar
  | slash
  | percent
  | assign
  | looseEq
  | strictEq
  | looseNe
  | strictNe
  | lt
  | gt
  | le
  | ge
  | ampAmp
  | pipePipe
  | questionQuestion
  | question
  | bang
  | dot
  | arrow
  | plusAssign
  | minusAssign
  | starAssign
  | slashAssign
  | lbrace
  | rbrace
  | lparen
  | rparen
  | lbracket
  | rbracket
  | colon
  | semi
  | comma
  deriving DecidableEq, Repr

/-- The spelling of a symbol. -/
def Symbol.text : Symbol → String
  | .plus => "+"
  | .minus => "-"
  | .star => "*"
  | .starStar => "**"
  | .slash => "/"
  | .percent => "%"
  | .assign => "="
  | .looseEq => "=="
  | .strictEq => "==="
  | .looseNe => "!="
  | .strictNe => "!=="
  | .lt => "<"
  | .gt => ">"
  | .le => "<="
  | .ge => ">="
  | .ampAmp => "&&"
  | .pipePipe => "||"
  | .questionQuestion => "??"
  | .question => "?"
  | .bang => "!"
  | .dot => "."
  | .arrow => "=>"
  | .plusAssign => "+="
  | .minusAssign => "-="
  | .starAssign => "*="
  | .slashAssign => "/="
  | .lbrace => "\x7b"
  | .rbrace => "\x7d"
  | .lparen => "("
  | .rparen => ")"
  | .lbracket => "["
  | .rbracket => "]"
  | .colon => ":"
  | .semi => ";"
  | .comma => ","

/-- Every symbol; one comes before those that its spelling begins with. -/
def Symbol.longestFirst : List Symbol :=
  [.strictEq, .strictNe, .starStar, .looseEq, .looseNe, .le, .ge, .ampAmp, .pipePipe,
    .questionQuestion, .arrow, .plusAssign, .minusAssign, .starAssign, .slashAssign, .plus,
    .minus, .star, .slash, .percent, .assign, .lt, .gt, .bang, .question, .dot, .lbrace, .rbrace,
    .lparen, .rparen, .lbracket, .rbracket, .colon, .semi, .comma]

/-- What a token is. -/
inductive TokenKind where
  | number (x : Float)
  | string (s : String)
  | bool (b : Bool)
  | null
  | undefined
  | ident (name : String)
  | keyword (word : Keyword)
  | symbol (mark : Symbol)
  | newline
  | eof
  deriving DecidableEq

/-- A token and its place. -/
structure Token where
  kind : TokenKind
  span : Span
  deriving DecidableEq

/-- What is wrong with a source text. -/
inductive FaultCause where
  /-- A character with which no token begins. -/
  | strayCharacter (c : Char)
  /-- A quote that no string begins with. -/
  | strayQuote
  /-- An escape in a string that stands for no character. -/
  | badEscape
  /-- A hexadecimal number of more than sixty-four bits. -/
  | badNumber
  /-- A token that cannot stand where it does. -/
  | strayToken (kind : TokenKind)
  /-- A `throw` without a value on its line. -/
  | bareThrow
  /-- A `return` outside of every function body. -/
  | strayReturn
  /-- A constant without a value. -/
  | bareConst
  /-- An assignment to what cannot be assigned to. -/
  | badTarget
  /-- More levels of nesting than the parser was given; a parser that starts from the source is
  always given enough. -/
  | tooDeep
  deriving DecidableEq

/-- The message about a token that cannot stand where it does. -/
def TokenKind.strayMessage : TokenKind → String
  | .eof => "Unexpected end of input"
  | .newline => "Unexpected end of line"
  | .ident name => "Unexpected identifier '" ++ name ++ "'"
  | .number _ => "Unexpected number"
  | .string _ => "Unexpected string"
  | .bool b => "Unexpected token '" ++ toString b ++ "'"
  | .null => "Unexpected token 'null'"
  | .undefined => "Unexpected token 'undefined'"
  | .keyword word => "Unexpected token '" ++ word.text ++ "'"
  | .symbol mark => "Unexpected token '" ++ mark.text ++ "'"

/-- The message about what is wrong. -/
def FaultCause.message : FaultCause → String
  | .strayCharacter c => "Invalid or unexpected token '" ++ String.singleton c ++ "'"
  | .strayQuote => "Invalid or unexpected token"
  | .badEscape => "Invalid escape sequence"
  | .badNumber => "Invalid number"
  | .strayToken kind => kind.strayMessage
  | .bareThrow => "Illegal newline after throw"
  | .strayReturn => "Illegal return statement"
  | .bareConst => "Missing initializer in const declaration"
  | .badTarget => "Invalid left-hand side in assignment"
  | .tooDeep => "Nesting too deep"

/-- What is wrong with a source text, and where. -/
structure Fault where
  cause : FaultCause
  span : Span
  deriving DecidableEq

/-- The message of a fault. -/
def Fault.message (fault : Fault) : String :=
  fault.cause.message

end Doctest.Script
