import Doctest.Number.Layout
import Doctest.Script.Scan
import Doctest.Script.Tree

/-!
# Parsing

The tree of a source text, read from its tokens by recursive descent. A line break ends a
statement unless the next line cannot begin one. Each parser is given a number of levels that it
may descend; `parse` gives more than any text needs.
-/

namespace Doctest.Script

/-- Where a parser stands: the span of the last token it took, and the tokens it did not take. -/
structure Cursor where
  last : Span
  rest : List Token

namespace Cursor

/-- The kind of the token some places ahead; past the last token it is the end. -/
def kindAt (cursor : Cursor) (n : Nat) : TokenKind :=
  (cursor.rest[n]?.map Token.kind).getD .eof

/-- The next token; past the last token it is the end. -/
def current (cursor : Cursor) : Token :=
  cursor.rest.headD ⟨.eof, ⟨cursor.last.stop, cursor.last.stop⟩⟩

/-- The cursor after the next token. The end is never passed. -/
def advance (cursor : Cursor) : Cursor :=
  match cursor.rest with
  | [] => cursor
  | token :: rest => if token.kind = .eof then cursor else ⟨token.span, rest⟩

/-- The number of line breaks just ahead. -/
def newlines (cursor : Cursor) : Nat :=
  (cursor.rest.takeWhile (·.kind = .newline)).length

/-- The kind of the first token ahead that is no line break. -/
def kindPastNewlines (cursor : Cursor) : TokenKind :=
  cursor.kindAt cursor.newlines

/-- The cursor after all tokens just ahead with a property. -/
def skipWhile (skips : TokenKind → Bool) (cursor : Cursor) : Cursor :=
  ⟨((cursor.rest.takeWhile (skips ·.kind)).getLast?.map Token.span).getD cursor.last,
    cursor.rest.dropWhile (skips ·.kind)⟩

end Cursor

/-- A parser: it takes tokens off a cursor, or stops at the first fault. -/
abbrev Parser := StateT Cursor (Except Fault)

namespace Parser

/-- The kind of the next token. -/
def kind : Parser TokenKind := do
  return (← get).kindAt 0

/-- Takes the next token. -/
def next : Parser Token := do
  let token := (← get).current
  modify Cursor.advance
  return token

/-- Fails at a span. -/
def failAt {α : Type} (cause : FaultCause) (span : Span) : Parser α :=
  throw ⟨cause, span⟩

/-- Fails because the next token cannot stand there. -/
def failHere {α : Type} : Parser α := do
  let token := (← get).current
  failAt (.strayToken token.kind) token.span

/-- Whether the next token is a symbol. -/
def sees (mark : Symbol) : Parser Bool := do
  return (← kind) = .symbol mark

/-- Takes a symbol if it comes next, and tells whether it did. -/
def accept (mark : Symbol) : Parser Bool := do
  if ← sees mark then
    modify Cursor.advance
    return true
  else return false

/-- Takes a symbol, which has to come next; its span is the result. -/
def expect (mark : Symbol) : Parser Span := do
  if ← sees mark then return (← next).span else failHere

/-- Passes over line breaks. -/
def skipNewlines : Parser Unit :=
  modify (Cursor.skipWhile (· = .newline))

/-- Passes over line breaks and semicolons. -/
def skipSeparators : Parser Unit :=
  modify (Cursor.skipWhile fun kind => kind = .newline ∨ kind = .symbol .semi)

/-- The span from a start to the end of the token taken last. -/
def spanFrom (start : Span) : Parser Span := do
  return start.join (← get).last

/-- Takes an identifier. -/
def identifier : Parser String := do
  match ← kind with
  | .ident name =>
    modify Cursor.advance
    return name
  | _ => failHere

/-- The name that a token is as a property: words of every sort are. -/
def propertyName? : TokenKind → Option String
  | .ident name => some name
  | .bool b => some (toString b)
  | .null => some "null"
  | .undefined => some "undefined"
  | .keyword word => some word.text
  | _ => none

/-- Takes a property name. -/
def propertyName : Parser String := do
  match propertyName? (← kind) with
  | some name =>
    modify Cursor.advance
    return name
  | none => failHere

/-- Takes what separates a statement from the next: a line break or a semicolon. Before a closing
brace and at the end nothing is needed. -/
def separator : Parser Unit := do
  match ← kind with
  | .newline | .symbol .semi => modify Cursor.advance
  | .eof | .symbol .rbrace => return
  | _ => failHere

end Parser

/-- What an infix token does with its operands. -/
inductive InfixOp where
  | binary (op : BinaryOp)
  | logical (op : LogicalOp)
  deriving DecidableEq, Repr

/-- An infix operator with how tightly it binds on each side. -/
structure Infix where
  op : InfixOp
  left : Nat
  right : Nat
  deriving DecidableEq, Repr

/-- The expression that an infix operator makes of its operands. -/
def Infix.build (op : Infix) (left right : Expr) : Expr :=
  let span := left.span.join right.span
  match op.op with
  | .binary op => .binary op left right span
  | .logical op => .logical op left right span

/-- The infix operator that a symbol is. All associate to the left, except the power. -/
def Symbol.infix? : Symbol → Option Infix
  | .questionQuestion => some ⟨.logical .nullish, 1, 2⟩
  | .pipePipe => some ⟨.logical .or, 3, 4⟩
  | .ampAmp => some ⟨.logical .and, 5, 6⟩
  | .looseEq => some ⟨.binary .looseEq, 7, 8⟩
  | .looseNe => some ⟨.binary .looseNe, 7, 8⟩
  | .strictEq => some ⟨.binary .strictEq, 7, 8⟩
  | .strictNe => some ⟨.binary .strictNe, 7, 8⟩
  | .lt => some ⟨.binary .lt, 9, 10⟩
  | .gt => some ⟨.binary .gt, 9, 10⟩
  | .le => some ⟨.binary .le, 9, 10⟩
  | .ge => some ⟨.binary .ge, 9, 10⟩
  | .plus => some ⟨.binary .add, 11, 12⟩
  | .minus => some ⟨.binary .sub, 11, 12⟩
  | .star => some ⟨.binary .mul, 13, 14⟩
  | .slash => some ⟨.binary .div, 13, 14⟩
  | .percent => some ⟨.binary .rem, 13, 14⟩
  | .starStar => some ⟨.binary .pow, 16, 15⟩
  | _ => none

/-- The infix operator that a token is. -/
def TokenKind.infix? : TokenKind → Option Infix
  | .symbol mark => mark.infix?
  | _ => none

/-- The operator before an operand that a token is. -/
def TokenKind.unary? : TokenKind → Option UnaryOp
  | .symbol .bang => some .not
  | .symbol .minus => some .neg
  | .symbol .plus => some .plus
  | .keyword .kwTypeof => some .typeof
  | _ => none

/-- The assignment that a token is: plain, or with an operator. -/
def TokenKind.assignment? : TokenKind → Option (Option BinaryOp)
  | .symbol .assign => some none
  | .symbol .plusAssign => some (some .add)
  | .symbol .minusAssign => some (some .sub)
  | .symbol .starAssign => some (some .mul)
  | .symbol .slashAssign => some (some .div)
  | _ => none

/-- The kind of declaration that a token begins. -/
def TokenKind.declaration? : TokenKind → Option DeclKind
  | .keyword .kwLet => some .byLet
  | .keyword .kwConst => some .byConst
  | .keyword .kwVar => some .byVar
  | _ => none

/-- Whether an arrow follows the parenthesis that closes the outermost of `depth` open ones. -/
def arrowAfterGroup : Nat → List Token → Bool
  | _, [] => false
  | depth, token :: rest =>
    match token.kind with
    | .symbol .lparen => arrowAfterGroup (depth + 1) rest
    | .symbol .rparen =>
      if depth ≤ 1 then rest.head?.any (·.kind = .symbol .arrow)
      else arrowAfterGroup (depth - 1) rest
    | .eof => false
    | _ => arrowAfterGroup depth rest

/-- Whether an arrow function begins here: a name or a parenthesized text before an arrow. -/
def Cursor.startsArrow (cursor : Cursor) : Bool :=
  match cursor.kindAt 0 with
  | .ident _ => cursor.kindAt 1 = .symbol .arrow
  | .symbol .lparen => arrowAfterGroup 0 cursor.rest
  | _ => false

/-- Whether the brace at the start of a statement opens an object: it closes at once, or a key
stands after it with a colon, or a name with a comma or the closing brace. -/
def Cursor.startsObject (cursor : Cursor) : Bool :=
  let inside := cursor.advance
  let n := inside.newlines
  match inside.kindAt n, inside.kindAt (n + 1) with
  | .symbol .rbrace, _ => true
  | .string _, .symbol .colon | .number _, .symbol .colon => true
  | .ident _, .symbol .colon | .ident _, .symbol .comma | .ident _, .symbol .rbrace => true
  | _, _ => false

/-- Whether an expression goes on after line breaks: with an infix operator or a question mark. -/
def Cursor.continues (cursor : Cursor) : Bool :=
  let kind := cursor.kindPastNewlines
  kind = .symbol .question || kind.infix?.isSome

/-- Takes an object key and tells whether it may stand without a value: then it is an identifier
and its own value. -/
def objectKey : Parser (String × Option Expr) := do
  let token := (← get).current
  match token.kind with
  | .string s =>
    modify Cursor.advance
    return (s, none)
  | .number x =>
    modify Cursor.advance
    return (Number.keyText x, none)
  | .ident name =>
    modify Cursor.advance
    return (name, some (.ident name token.span))
  | _ => return (← Parser.propertyName, none)

/-- Takes the parameters of an arrow function up to the closing parenthesis. -/
def parameters : Nat → Parser (List String)
  | 0 => Parser.failHere
  | fuel + 1 => do
    if ← Parser.sees .rparen then return []
    let name ← Parser.identifier
    Parser.skipNewlines
    if ← Parser.accept .comma then
      Parser.skipNewlines
      return name :: (← parameters fuel)
    else return [name]

/-- Fails because there are no levels left. -/
def Parser.failDeep {α : Type} : Parser α := do
  failAt .tooDeep (← get).current.span

mutual

/-- A statement. `inBody` tells whether it stands in the body of a function. -/
def statement : Nat → Bool → Parser Stmt
  | 0, _ => Parser.failDeep
  | fuel + 1, inBody => do
    let start := (← get).current.span
    match ← Parser.kind with
    | .keyword .kwLet | .keyword .kwConst | .keyword .kwVar => declaration fuel inBody
    | .keyword .kwThrow =>
      modify Cursor.advance
      match ← Parser.kind with
      | .newline | .eof | .symbol .semi => Parser.failAt .bareThrow (← get).current.span
      | _ =>
        let value ← assignment fuel inBody
        return .throwing value (start.join value.span)
    | .keyword .kwReturn =>
      if !inBody then Parser.failAt .strayReturn start
      else
        modify Cursor.advance
        match ← Parser.kind with
        | .newline | .symbol .semi | .eof | .symbol .rbrace => return .returning none start
        | _ =>
          let value ← assignment fuel inBody
          return .returning (some value) (start.join value.span)
    | .keyword .kwIf => conditionalStatement fuel inBody
    | .symbol .lbrace =>
      if (← get).startsObject then expressionStatement fuel inBody
      else
        let stmts ← block fuel inBody
        return .block stmts (← Parser.spanFrom start)
    | _ => expressionStatement fuel inBody

/-- A statement that is an expression. -/
def expressionStatement : Nat → Bool → Parser Stmt
  | 0, _ => Parser.failDeep
  | fuel + 1, inBody => do
    let value ← assignment fuel inBody
    return .expr value value.span

/-- A declaration of one name. -/
def declaration : Nat → Bool → Parser Stmt
  | 0, _ => Parser.failDeep
  | fuel + 1, inBody => do
    let word ← Parser.next
    let kind := word.kind.declaration?.getD .byLet
    let name ← Parser.identifier
    if ← Parser.accept .assign then
      Parser.skipNewlines
      let value ← assignment fuel inBody
      return .declare kind name (some value) (← Parser.spanFrom word.span)
    else if kind = .byConst then Parser.failAt .bareConst word.span
    else return .declare kind name none (← Parser.spanFrom word.span)

/-- An `if` with its branches. An `else` may come after line breaks. -/
def conditionalStatement : Nat → Bool → Parser Stmt
  | 0, _ => Parser.failDeep
  | fuel + 1, inBody => do
    let start := (← Parser.next).span
    let _ ← Parser.expect .lparen
    Parser.skipNewlines
    let test ← assignment fuel inBody
    Parser.skipNewlines
    let _ ← Parser.expect .rparen
    Parser.skipNewlines
    let yes ← branchBody fuel inBody
    if (← get).kindPastNewlines = .keyword .kwElse then
      Parser.skipNewlines
      modify Cursor.advance
      Parser.skipNewlines
      let no ←
        if (← Parser.kind) = .keyword .kwIf then do
          pure [← conditionalStatement fuel inBody]
        else branchBody fuel inBody
      return .branch test yes (some no) (← Parser.spanFrom start)
    else return .branch test yes none (← Parser.spanFrom start)

/-- A branch of an `if`: statements between braces, or one statement. -/
def branchBody : Nat → Bool → Parser (List Stmt)
  | 0, _ => Parser.failDeep
  | fuel + 1, inBody => do
    if ← Parser.sees .lbrace then block fuel inBody else return [← statement fuel inBody]

/-- Statements between braces. -/
def block : Nat → Bool → Parser (List Stmt)
  | 0, _ => Parser.failDeep
  | fuel + 1, inBody => do
    let _ ← Parser.expect .lbrace
    let stmts ← blockStatements fuel inBody
    let _ ← Parser.expect .rbrace
    return stmts

/-- Statements up to a closing brace. -/
def blockStatements : Nat → Bool → Parser (List Stmt)
  | 0, _ => Parser.failDeep
  | fuel + 1, inBody => do
    Parser.skipSeparators
    match ← Parser.kind with
    | .symbol .rbrace => return []
    | .eof => Parser.failHere
    | _ =>
      let stmt ← statement fuel inBody
      if stmt.needsSeparator then Parser.separator
      return stmt :: (← blockStatements fuel inBody)

/-- An expression of any sort: an arrow function, an assignment or what binds tighter. -/
def assignment : Nat → Bool → Parser Expr
  | 0, _ => Parser.failDeep
  | fuel + 1, inBody => do
    if (← get).startsArrow then arrow fuel inBody
    else
      let target ← conditional fuel inBody
      match (← Parser.kind).assignment? with
      | none => return target
      | some op =>
        if !target.isTarget then Parser.failAt .badTarget target.span
        else
          modify Cursor.advance
          Parser.skipNewlines
          let value ← assignment fuel inBody
          return .assign target op value (target.span.join value.span)

/-- An arrow function. -/
def arrow : Nat → Bool → Parser Expr
  | 0, _ => Parser.failDeep
  | fuel + 1, inBody => do
    let start := (← get).current.span
    let params ←
      if ← Parser.accept .lparen then do
        Parser.skipNewlines
        let params ← parameters fuel
        let _ ← Parser.expect .rparen
        pure params
      else do pure [← Parser.identifier]
    let _ ← Parser.expect .arrow
    Parser.skipNewlines
    if ← Parser.sees .lbrace then
      let stmts ← block fuel true
      return .arrow params (.block stmts) (← Parser.spanFrom start)
    else
      let value ← assignment fuel inBody
      return .arrow params (.expr value) (← Parser.spanFrom start)

/-- A conditional expression, or an expression that binds tighter. -/
def conditional : Nat → Bool → Parser Expr
  | 0, _ => Parser.failDeep
  | fuel + 1, inBody => do
    let test ← binary fuel inBody 0
    if ← Parser.accept .question then
      Parser.skipNewlines
      let yes ← assignment fuel inBody
      Parser.skipNewlines
      let _ ← Parser.expect .colon
      Parser.skipNewlines
      let no ← assignment fuel inBody
      return .conditional test yes no (test.span.join no.span)
    else return test

/-- Operands with infix operators that bind at least as tightly as `least`. -/
def binary : Nat → Bool → Nat → Parser Expr
  | 0, _, _ => Parser.failDeep
  | fuel + 1, inBody, least => do
    let left ← unary fuel inBody
    binaryRest fuel inBody least left

/-- The infix operators after an operand, with their right operands. -/
def binaryRest : Nat → Bool → Nat → Expr → Parser Expr
  | 0, _, _, _ => Parser.failDeep
  | fuel + 1, inBody, least, left => do
    if (← get).continues then Parser.skipNewlines
    match (← Parser.kind).infix? with
    | none => return left
    | some op =>
      if op.left < least then return left
      else
        modify Cursor.advance
        Parser.skipNewlines
        let right ← binary fuel inBody op.right
        binaryRest fuel inBody least (op.build left right)

/-- An operand with the operators before it. -/
def unary : Nat → Bool → Parser Expr
  | 0, _ => Parser.failDeep
  | fuel + 1, inBody => do
    let start := (← get).current.span
    match (← Parser.kind).unary? with
    | some op =>
      modify Cursor.advance
      let operand ← unary fuel inBody
      return .unary op operand (start.join operand.span)
    | none =>
      let operand ← primary fuel inBody
      suffixes fuel inBody operand

/-- The calls and property accesses after an operand. A point may come after line breaks. -/
def suffixes : Nat → Bool → Expr → Parser Expr
  | 0, _, _ => Parser.failDeep
  | fuel + 1, inBody, operand => do
    match ← Parser.kind with
    | .symbol .lparen =>
      let args ← arguments fuel inBody
      suffixes fuel inBody (.call operand args (← Parser.spanFrom operand.span))
    | .symbol .dot =>
      modify Cursor.advance
      let name ← Parser.propertyName
      suffixes fuel inBody (.member operand name (← Parser.spanFrom operand.span))
    | .symbol .lbracket =>
      modify Cursor.advance
      Parser.skipNewlines
      let key ← assignment fuel inBody
      Parser.skipNewlines
      let _ ← Parser.expect .rbracket
      suffixes fuel inBody (.index operand key (← Parser.spanFrom operand.span))
    | .newline =>
      if (← get).kindPastNewlines = .symbol .dot then
        Parser.skipNewlines
        suffixes fuel inBody operand
      else return operand
    | _ => return operand

/-- Arguments between parentheses. -/
def arguments : Nat → Bool → Parser (List Expr)
  | 0, _ => Parser.failDeep
  | fuel + 1, inBody => do
    let _ ← Parser.expect .lparen
    Parser.skipNewlines
    let args ← elements fuel inBody .rparen
    let _ ← Parser.expect .rparen
    return args

/-- Expressions separated by commas up to a closing symbol; a comma may also be last. -/
def elements : Nat → Bool → Symbol → Parser (List Expr)
  | 0, _, _ => Parser.failDeep
  | fuel + 1, inBody, close => do
    if ← Parser.sees close then return []
    else
      let item ← assignment fuel inBody
      Parser.skipNewlines
      if ← Parser.accept .comma then
        Parser.skipNewlines
        return item :: (← elements fuel inBody close)
      else return [item]

/-- A literal, a name, an expression in parentheses or a construction. -/
def primary : Nat → Bool → Parser Expr
  | 0, _ => Parser.failDeep
  | fuel + 1, inBody => do
    let token := (← get).current
    match token.kind with
    | .number x =>
      modify Cursor.advance
      return .number x token.span
    | .string s =>
      modify Cursor.advance
      return .string s token.span
    | .bool b =>
      modify Cursor.advance
      return .bool b token.span
    | .null =>
      modify Cursor.advance
      return .null token.span
    | .undefined =>
      modify Cursor.advance
      return .undefined token.span
    | .ident name =>
      modify Cursor.advance
      return .ident name token.span
    | .symbol .lparen =>
      modify Cursor.advance
      Parser.skipNewlines
      let inner ← assignment fuel inBody
      Parser.skipNewlines
      let _ ← Parser.expect .rparen
      return inner
    | .symbol .lbracket =>
      modify Cursor.advance
      Parser.skipNewlines
      let items ← elements fuel inBody .rbracket
      let stop ← Parser.expect .rbracket
      return .array items (token.span.join stop)
    | .symbol .lbrace =>
      modify Cursor.advance
      Parser.skipNewlines
      let members ← properties fuel inBody
      let stop ← Parser.expect .rbrace
      return .object members (token.span.join stop)
    | .keyword .kwNew => construction fuel inBody
    | _ => Parser.failHere

/-- The keys and values of an object up to its closing brace. -/
def properties : Nat → Bool → Parser (List (String × Expr))
  | 0, _ => Parser.failDeep
  | fuel + 1, inBody => do
    if ← Parser.sees .rbrace then return []
    else
      let (key, own) ← objectKey
      let value ←
        if ← Parser.accept .colon then do
          Parser.skipNewlines
          assignment fuel inBody
        else
          match own with
          | some value => pure value
          | none => Parser.failHere
      Parser.skipNewlines
      if ← Parser.accept .comma then
        Parser.skipNewlines
        return (key, value) :: (← properties fuel inBody)
      else return [(key, value)]

/-- A construction: a callee without calls in it, and arguments if there are any. -/
def construction : Nat → Bool → Parser Expr
  | 0, _ => Parser.failDeep
  | fuel + 1, inBody => do
    let start := (← Parser.next).span
    let first ← primary fuel inBody
    let callee ← calleeSuffixes fuel inBody first
    if ← Parser.sees .lparen then
      let args ← arguments fuel inBody
      return .construct callee args (← Parser.spanFrom start)
    else return .construct callee [] (← Parser.spanFrom start)

/-- The property accesses of the callee of a construction. -/
def calleeSuffixes : Nat → Bool → Expr → Parser Expr
  | 0, _, _ => Parser.failDeep
  | fuel + 1, inBody, callee => do
    match ← Parser.kind with
    | .symbol .dot =>
      modify Cursor.advance
      let name ← Parser.propertyName
      calleeSuffixes fuel inBody (.member callee name (← Parser.spanFrom callee.span))
    | .symbol .lbracket =>
      modify Cursor.advance
      let key ← assignment fuel inBody
      let _ ← Parser.expect .rbracket
      calleeSuffixes fuel inBody (.index callee key (← Parser.spanFrom callee.span))
    | _ => return callee

end

/-- Statements up to the end of the source. -/
def programStatements : Nat → Nat → Parser (List Stmt)
  | 0, _ => Parser.failDeep
  | fuel + 1, levels => do
    Parser.skipSeparators
    match ← Parser.kind with
    | .eof => return []
    | _ =>
      let stmt ← statement levels false
      if stmt.needsSeparator then Parser.separator
      return stmt :: (← programStatements fuel levels)

/-- The statements that some tokens are. Every token lets a parser descend ten levels at most. -/
def programOf (tokens : List Token) : Except Fault (List Stmt) :=
  (programStatements (tokens.length + 1) (10 * tokens.length + 10)).run' ⟨⟨0, 0⟩, tokens⟩

/-- The statements of a source text. -/
def parse (source : String) : Except Fault (List Stmt) := do
  programOf (← tokens source)

end Doctest.Script
