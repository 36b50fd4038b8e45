import Doctest.Script.Token

/-!
# Syntax trees

Expressions and statements of the script language. Every node carries the bytes of the source it
was read from.
-/

namespace Doctest.Script

/-- Operators before an operand. -/
inductive UnaryOp where
  | not
  | neg
  | plus
  | typeof
  deriving DecidableEq, Repr

/-- Operators that take both of their operands. -/
inductive BinaryOp where
  | add
  | sub
  | mul
  | div
  | rem
  | pow
  | looseEq
  | looseNe
  | strictEq
  | strictNe
  | lt
  | le
  | gt
  | ge
  deriving DecidableEq, Repr

/-- Operators that may leave their right operand alone. -/
inductive LogicalOp where
  | and
  | or
  | nullish
  deriving DecidableEq, Repr

/-- The three ways to declare a name. -/
inductive DeclKind where
  | byLet
  | byConst
  | byVar
  deriving DecidableEq, Repr

mutual

/-- An expression. -/
inductive Expr where
  | number (x : Float) (span : Span)
  | string (s : String) (span : Span)
  | bool (b : Bool) (span : Span)
  | null (span : Span)
  | undefined (span : Span)
  | ident (name : String) (span : Span)
  | array (items : List Expr) (span : Span)
  | object (properties : List (String × Expr)) (span : Span)
  | member (target : Expr) (property : String) (span : Span)
  | index (target key : Expr) (span : Span)
  | call (callee : Expr) (args : List Expr) (span : Span)
  | construct (callee : Expr) (args : List Expr) (span : Span)
  | arrow (params : List String) (body : Body) (span : Span)
  | unary (op : UnaryOp) (operand : Expr) (span : Span)
  | binary (op : BinaryOp) (left right : Expr) (span : Span)
  | logical (op : LogicalOp) (left right : Expr) (span : Span)
  | conditional (test yes no : Expr) (span : Span)
  | assign (target : Expr) (op : Option BinaryOp) (value : Expr) (span : Span)

/-- What an arrow function does: it gives the value of an expression, or runs statements. -/
inductive Body where
  | expr (value : Expr)
  | block (stmts : List Stmt)

/-- A statement. -/
inductive Stmt where
  | expr (value : Expr) (span : Span)
  | declare (kind : DeclKind) (name : String) (init : Option Expr) (span : Span)
  | throwing (value : Expr) (span : Span)
  | returning (value : Option Expr) (span : Span)
  | branch (test : Expr) (yes : List Stmt) (no : Option (List Stmt)) (span : Span)
  | block (stmts : List Stmt) (span : Span)

end

/-- The span of an expression. -/
def Expr.span : Expr → Span
  | .number _ span | .string _ span | .bool _ span | .null span | .undefined span
  | .ident _ span | .array _ span | .object _ span | .member _ _ span | .index _ _ span
  | .call _ _ span | .construct _ _ span | .arrow _ _ span | .unary _ _ span
  | .binary _ _ _ span | .logical _ _ _ span | .conditional _ _ _ span
  | .assign _ _ _ span => span

/-- The span of a statement. -/
def Stmt.span : Stmt → Span
  | .expr _ span | .declare _ _ _ span | .throwing _ span | .returning _ span
  | .branch _ _ _ span | .block _ span => span

/-- Whether an expression may be assigned to. -/
def Expr.isTarget : Expr → Bool
  | .ident .. | .member .. | .index .. => true
  | _ => false

/-- Whether a separator has to follow a statement; after a closing brace of its own it need not. -/
def Stmt.needsSeparator : Stmt → Bool
  | .branch .. | .block .. => false
  | _ => true

end Doctest.Script
