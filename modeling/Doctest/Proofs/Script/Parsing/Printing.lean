import Doctest.Proofs.Script.Parsing.Sentences
import Doctest.Proofs.Script.Parsing.Walk

/-!
# Printed programs are parsed back

A program is printed to tokens with every expression that is no literal and no name in parentheses.
What is printed is parsed, and the result is the program, up to the spans of its parts.
-/

namespace Doctest.Script

/-! ### The marks of operators -/

/-- The symbol of an operator between operands. -/
def BinaryOp.mark : BinaryOp → Symbol
  | .add => .plus
  | .sub => .minus
  | .mul => .star
  | .div => .slash
  | .rem => .percent
  | .pow => .starStar
  | .looseEq => .looseEq
  | .looseNe => .looseNe
  | .strictEq => .strictEq
  | .strictNe => .strictNe
  | .lt => .lt
  | .le => .le
  | .gt => .gt
  | .ge => .ge

/-- The symbol of an operator that may leave its right operand alone. -/
def LogicalOp.mark : LogicalOp → Symbol
  | .and => .ampAmp
  | .or => .pipePipe
  | .nullish => .questionQuestion

/-- The token of an operator before an operand. -/
def UnaryOp.mark : UnaryOp → TokenKind
  | .not => .symbol .bang
  | .neg => .symbol .minus
  | .plus => .symbol .plus
  | .typeof => .keyword .kwTypeof

/-- The keyword of a declaration. -/
def DeclKind.word : DeclKind → Keyword
  | .byLet => .kwLet
  | .byConst => .kwConst
  | .byVar => .kwVar

/-- The symbol of an assignment. The language has none for most operators. -/
def assignmentMark? : Option BinaryOp → Option Symbol
  | none => some .assign
  | some .add => some .plusAssign
  | some .sub => some .minusAssign
  | some .mul => some .starAssign
  | some .div => some .slashAssign
  | some _ => none

theorem infix?_binaryMark (op : BinaryOp) :
    ∃ found, (TokenKind.symbol op.mark).infix? = some found ∧ found.op = .binary op := by
  cases op <;> exact ⟨_, rfl, rfl⟩

theorem infix?_logicalMark (op : LogicalOp) :
    ∃ found, (TokenKind.symbol op.mark).infix? = some found ∧ found.op = .logical op := by
  cases op <;> exact ⟨_, rfl, rfl⟩

theorem unary?_mark (op : UnaryOp) : op.mark.unary? = some op := by
  cases op <;> rfl

theorem declaration?_word (kind : DeclKind) :
    (TokenKind.keyword kind.word).declaration? = some kind := by
  cases kind <;> rfl

theorem assignment?_mark {op : Option BinaryOp} {mark : Symbol}
    (h : assignmentMark? op = some mark) : (TokenKind.symbol mark).assignment? = some op := by
  cases op with
  | none => cases h; rfl
  | some op => cases op <;> cases h <;> rfl

/-! ### Printing -/

/-- Whether an expression is a literal or a name. -/
def Expr.isAtom : Expr → Bool
  | .number .. | .string .. | .bool .. | .null .. | .undefined .. | .ident .. => true
  | _ => false

/-- Tokens in parentheses unless they stand for a literal or a name. -/
def grouped (atom : Bool) (own : List TokenKind) : List TokenKind :=
  match atom with
  | true => own
  | false => .symbol .lparen :: (own ++ [.symbol .rparen])

open Doctest.Script.Parser (separated named terminated braced otherwise)

mutual

/-- The tokens of an expression without the parentheses around it. -/
def Expr.bare : Expr → List TokenKind
  | .number x _ => [.number x]
  | .string s _ => [.string s]
  | .bool b _ => [.bool b]
  | .null _ => [.null]
  | .undefined _ => [.undefined]
  | .ident name _ => [.ident name]
  | .array items _ =>
    .symbol .lbracket :: (separated (Expr.printedAll items) ++ [.symbol .rbracket])
  | .object properties _ =>
    .symbol .lbrace :: (separated (Expr.printedUnder properties) ++ [.symbol .rbrace])
  | .member target property _ =>
    grouped target.isAtom target.bare ++ [.symbol .dot, .ident property]
  | .index target key _ =>
    grouped target.isAtom target.bare ++
      .symbol .lbracket :: (grouped key.isAtom key.bare ++ [.symbol .rbracket])
  | .call callee args _ =>
    grouped callee.isAtom callee.bare ++
      .symbol .lparen :: (separated (Expr.printedAll args) ++ [.symbol .rparen])
  | .construct callee args _ =>
    .keyword .kwNew :: (grouped callee.isAtom callee.bare ++
      .symbol .lparen :: (separated (Expr.printedAll args) ++ [.symbol .rparen]))
  | .arrow params body _ =>
    .symbol .lparen :: (named params ++ .symbol .rparen :: .symbol .arrow :: body.printed)
  | .unary op operand _ => op.mark :: grouped operand.isAtom operand.bare
  | .binary op left right _ =>
    grouped left.isAtom left.bare ++ .symbol op.mark :: grouped right.isAtom right.bare
  | .logical op left right _ =>
    grouped left.isAtom left.bare ++ .symbol op.mark :: grouped right.isAtom right.bare
  | .conditional test yes no _ =>
    grouped test.isAtom test.bare ++ .symbol .question ::
      (grouped yes.isAtom yes.bare ++ .symbol .colon :: grouped no.isAtom no.bare)
  | .assign target op value _ =>
    grouped target.isAtom target.bare ++
      .symbol ((assignmentMark? op).getD .assign) :: grouped value.isAtom value.bare

/-- The tokens of each of some expressions. -/
def Expr.printedAll : List Expr → List (List TokenKind)
  | [] => []
  | expr :: rest => grouped expr.isAtom expr.bare :: Expr.printedAll rest

/-- The tokens of each of some keys with their expressions. A key is printed as a string. -/
def Expr.printedUnder : List (String × Expr) → List (List TokenKind)
  | [] => []
  | (key, expr) :: rest =>
    (.string key :: .symbol .colon :: grouped expr.isAtom expr.bare) :: Expr.printedUnder rest

/-- The tokens of the body of a function. -/
def Body.printed : Body → List TokenKind
  | .expr value => grouped value.isAtom value.bare
  | .block stmts => braced (Stmt.printedAll stmts)

/-- The tokens of a statement, without the semicolon behind it. -/
def Stmt.printed : Stmt → List TokenKind
  | .expr value _ => grouped value.isAtom value.bare
  | .declare kind name none _ => [.keyword kind.word, .ident name]
  | .declare kind name (some init) _ =>
    .keyword kind.word :: .ident name :: .symbol .assign :: grouped init.isAtom init.bare
  | .throwing value _ => .keyword .kwThrow :: grouped value.isAtom value.bare
  | .returning none _ => [.keyword .kwReturn]
  | .returning (some value) _ => .keyword .kwReturn :: grouped value.isAtom value.bare
  | .branch test yes none _ =>
    .keyword .kwIf :: .symbol .lparen :: (grouped test.isAtom test.bare ++ .symbol .rparen ::
      (braced (Stmt.printedAll yes) ++ otherwise none))
  | .branch test yes (some no) _ =>
    .keyword .kwIf :: .symbol .lparen :: (grouped test.isAtom test.bare ++ .symbol .rparen ::
      (braced (Stmt.printedAll yes) ++ otherwise (some (Stmt.printedAll no))))
  | .block stmts _ =>
    .symbol .lbrace :: .symbol .semi :: (terminated (Stmt.printedAll stmts) ++ [.symbol .rbrace])

/-- The tokens of each of some statements. -/
def Stmt.printedAll : List Stmt → List (List TokenKind)
  | [] => []
  | stmt :: rest => stmt.printed :: Stmt.printedAll rest

end

/-- The tokens of an expression. What is no literal and no name stands in parentheses. -/
def Expr.printed (e : Expr) : List TokenKind :=
  grouped e.isAtom e.bare

/-- The tokens of a program, each statement with a semicolon behind it. -/
def printedProgram (program : List Stmt) : List TokenKind :=
  terminated (Stmt.printedAll program)

/-! ### Programs that can be printed -/

mutual

/-- Whether an expression can be written: only names, properties and items are assigned to, with an
operator that has a mark, and so in all functions within it. -/
def Expr.isPrintable : Expr → Bool
  | .number .. | .string .. | .bool .. | .null .. | .undefined .. | .ident .. => true
  | .array items _ => Expr.arePrintable items
  | .object properties _ => Expr.arePrintableUnder properties
  | .member target _ _ => target.isPrintable
  | .index target key _ => target.isPrintable && key.isPrintable
  | .call callee args _ | .construct callee args _ =>
    callee.isPrintable && Expr.arePrintable args
  | .arrow _ body _ => body.isPrintable
  | .unary _ operand _ => operand.isPrintable
  | .binary _ left right _ | .logical _ left right _ => left.isPrintable && right.isPrintable
  | .conditional test yes no _ => test.isPrintable && yes.isPrintable && no.isPrintable
  | .assign target op value _ =>
    target.isTarget && target.isPrintable && (assignmentMark? op).isSome && value.isPrintable

/-- Whether some expressions can be written. -/
def Expr.arePrintable : List Expr → Bool
  | [] => true
  | expr :: rest => expr.isPrintable && Expr.arePrintable rest

/-- Whether some expressions under keys can be written. -/
def Expr.arePrintableUnder : List (String × Expr) → Bool
  | [] => true
  | (_, expr) :: rest => expr.isPrintable && Expr.arePrintableUnder rest

/-- Whether the body of a function can be written. Statements in it may return. -/
def Body.isPrintable : Body → Bool
  | .expr value => value.isPrintable
  | .block stmts => Stmt.arePrintable true stmts

/-- Whether a statement can be written: constants have values, and only statements in the body of a
function return. -/
def Stmt.isPrintable (inBody : Bool) : Stmt → Bool
  | .expr value _ | .throwing value _ => value.isPrintable
  | .declare kind _ none _ => kind != .byConst
  | .declare _ _ (some init) _ => init.isPrintable
  | .returning none _ => inBody
  | .returning (some value) _ => inBody && value.isPrintable
  | .branch test yes none _ => test.isPrintable && Stmt.arePrintable inBody yes
  | .branch test yes (some no) _ =>
    test.isPrintable && Stmt.arePrintable inBody yes && Stmt.arePrintable inBody no
  | .block stmts _ => Stmt.arePrintable inBody stmts

/-- Whether some statements can be written. -/
def Stmt.arePrintable (inBody : Bool) : List Stmt → Bool
  | [] => true
  | stmt :: rest => stmt.isPrintable inBody && Stmt.arePrintable inBody rest

end

theorem Expr.printedAll_eq (items : List Expr) :
    Expr.printedAll items = items.map Expr.printed := by
  induction items with
  | nil => rfl
  | cons e items ih =>
    rw [Expr.printedAll, ih]
    rfl

theorem Expr.printedUnder_eq (properties : List (String × Expr)) :
    Expr.printedUnder properties = properties.map
      (Parser.keyed (fun property => .string property.1) fun property => property.2.printed) := by
  induction properties with
  | nil => rfl
  | cons property properties ih =>
    rw [Expr.printedUnder, ih]
    rfl

theorem Stmt.printedAll_eq (stmts : List Stmt) :
    Stmt.printedAll stmts = stmts.map Stmt.printed := by
  induction stmts with
  | nil => rfl
  | cons stmt stmts ih => rw [Stmt.printedAll, ih, List.map_cons]

/-- Only objects are printed with a brace, and they stand in parentheses. -/
theorem Expr.head?_printed_ne (e : Expr) : e.printed.head? ≠ some (.symbol .lbrace) := by
  cases e <;> exact nofun

/-! ### Groups that are printed are closed -/

namespace Enclosed

variable {own other : List TokenKind} {k : TokenKind}

theorem grouped (h : Enclosed own) (atom : Bool) : Enclosed (grouped atom own) := by
  cases atom with
  | true => exact h
  | false => exact h.group

theorem terminated {all : List (List TokenKind)} (h : ∀ own ∈ all, Enclosed own) :
    Enclosed (terminated all) := by
  induction all with
  | nil => exact .nil
  | cons own all ih =>
    obtain ⟨hown, hothers⟩ := List.forall_mem_cons.mp h
    exact hown.between ⟨nofun, nofun, nofun⟩ (ih hothers)

theorem braced {all : List (List TokenKind)} (h : ∀ own ∈ all, Enclosed own) :
    Enclosed (braced all) :=
  .plain ⟨nofun, nofun, nofun⟩ ((terminated h).between ⟨nofun, nofun, nofun⟩ .nil)

end Enclosed

theorem plain_of_infix? {k : TokenKind} {op : Infix} (h : k.infix? = some op) : k.Plain :=
  .of_some h rfl rfl rfl

theorem plain_assignmentMark (op : Option BinaryOp) :
    (TokenKind.symbol ((assignmentMark? op).getD .assign)).Plain := by
  cases op with
  | none => exact ⟨nofun, nofun, nofun⟩
  | some op => cases op <;> exact ⟨nofun, nofun, nofun⟩

mutual

theorem Expr.enclosed : (e : Expr) → Enclosed e.bare
  | .number .. | .string .. | .bool .. | .null .. | .undefined .. | .ident .. =>
    .plain ⟨nofun, nofun, nofun⟩ .nil
  | .array items _ =>
    .plain ⟨nofun, nofun, nofun⟩
      ((Parser.enclosed_separated (Expr.enclosedAll items)).between ⟨nofun, nofun, nofun⟩ .nil)
  | .object properties _ =>
    .plain ⟨nofun, nofun, nofun⟩
      ((Parser.enclosed_separated (Expr.enclosedUnder properties)).between
        ⟨nofun, nofun, nofun⟩ .nil)
  | .member target _ _ =>
    (target.enclosed.grouped _).between ⟨nofun, nofun, nofun⟩
      (.plain ⟨nofun, nofun, nofun⟩ .nil)
  | .index target key _ =>
    (target.enclosed.grouped _).between ⟨nofun, nofun, nofun⟩
      ((key.enclosed.grouped _).between ⟨nofun, nofun, nofun⟩ .nil)
  | .call callee args _ =>
    (callee.enclosed.grouped _).append (Parser.enclosed_separated (Expr.enclosedAll args)).group
  | .construct callee args _ =>
    .plain ⟨nofun, nofun, nofun⟩
      ((callee.enclosed.grouped _).append (Parser.enclosed_separated (Expr.enclosedAll args)).group)
  | .arrow params body _ => by
    have hnamed : Enclosed (named params) := Parser.enclosed_of_plain Parser.plain_of_mem_named
    have harrow := hnamed.group.between (k := .symbol .arrow) ⟨nofun, nofun, nofun⟩ body.enclosed
    rwa [List.cons_append, List.append_assoc] at harrow
  | .unary op operand _ =>
    .plain (.of_some (unary?_mark op) rfl rfl rfl) (operand.enclosed.grouped _)
  | .binary op left right _ => by
    obtain ⟨found, hop, -⟩ := infix?_binaryMark op
    exact (left.enclosed.grouped _).between (plain_of_infix? hop) (right.enclosed.grouped _)
  | .logical op left right _ => by
    obtain ⟨found, hop, -⟩ := infix?_logicalMark op
    exact (left.enclosed.grouped _).between (plain_of_infix? hop) (right.enclosed.grouped _)
  | .conditional test yes no _ =>
    (test.enclosed.grouped _).between ⟨nofun, nofun, nofun⟩
      ((yes.enclosed.grouped _).between ⟨nofun, nofun, nofun⟩ (no.enclosed.grouped _))
  | .assign target op value _ =>
    (target.enclosed.grouped _).between (plain_assignmentMark op) (value.enclosed.grouped _)

theorem Expr.enclosedAll : (items : List Expr) → ∀ own ∈ Expr.printedAll items, Enclosed own
  | [] => nofun
  | e :: items => List.forall_mem_cons.mpr ⟨e.enclosed.grouped _, Expr.enclosedAll items⟩

theorem Expr.enclosedUnder :
    (properties : List (String × Expr)) → ∀ own ∈ Expr.printedUnder properties, Enclosed own
  | [] => nofun
  | (_, e) :: properties =>
    List.forall_mem_cons.mpr
      ⟨.plain ⟨nofun, nofun, nofun⟩ (.plain ⟨nofun, nofun, nofun⟩ (e.enclosed.grouped _)),
        Expr.enclosedUnder properties⟩

theorem Body.enclosed : (body : Body) → Enclosed body.printed
  | .expr value => value.enclosed.grouped _
  | .block stmts => .braced (Stmt.enclosedAll stmts)

theorem Stmt.enclosed : (stmt : Stmt) → Enclosed stmt.printed
  | .expr value _ => value.enclosed.grouped _
  | .declare kind name none _ =>
    .plain ⟨nofun, nofun, nofun⟩ (.plain ⟨nofun, nofun, nofun⟩ .nil)
  | .declare kind name (some init) _ =>
    .plain ⟨nofun, nofun, nofun⟩ (.plain ⟨nofun, nofun, nofun⟩
      (.plain ⟨nofun, nofun, nofun⟩ (init.enclosed.grouped _)))
  | .throwing value _ | .returning (some value) _ =>
    .plain ⟨nofun, nofun, nofun⟩ (value.enclosed.grouped _)
  | .returning none _ => .plain ⟨nofun, nofun, nofun⟩ .nil
  | .branch test yes none _ => by
    have htest := (test.enclosed.grouped test.isAtom).group.append
      ((Enclosed.braced (Stmt.enclosedAll yes)).append .nil)
    rw [List.cons_append, List.append_assoc] at htest
    exact htest.plain ⟨nofun, nofun, nofun⟩
  | .branch test yes (some no) _ => by
    have htest := (test.enclosed.grouped test.isAtom).group.append
      ((Enclosed.braced (Stmt.enclosedAll yes)).between (k := .keyword .kwElse)
        ⟨nofun, nofun, nofun⟩ (Enclosed.braced (Stmt.enclosedAll no)))
    rw [List.cons_append, List.append_assoc] at htest
    exact htest.plain ⟨nofun, nofun, nofun⟩
  | .block stmts _ =>
    .plain ⟨nofun, nofun, nofun⟩ (.plain ⟨nofun, nofun, nofun⟩
      ((Enclosed.terminated (Stmt.enclosedAll stmts)).between ⟨nofun, nofun, nofun⟩ .nil))

theorem Stmt.enclosedAll : (stmts : List Stmt) → ∀ own ∈ Stmt.printedAll stmts, Enclosed own
  | [] => nofun
  | stmt :: stmts => List.forall_mem_cons.mpr ⟨stmt.enclosed, Stmt.enclosedAll stmts⟩

end

/-! ### Up to spans -/

/-- The second expression is the first one, up to spans. -/
abbrev Expr.Like (e e' : Expr) : Prop :=
  e'.mapSpans noSpan = e.mapSpans noSpan

/-- The second statement is the first one, up to spans. -/
abbrev Stmt.Like (stmt stmt' : Stmt) : Prop :=
  stmt'.mapSpans noSpan = stmt.mapSpans noSpan

theorem Expr.mapSpansAll_of_like {items items' : List Expr}
    (h : List.Forall₂ Expr.Like items items') :
    Expr.mapSpansAll noSpan items' = Expr.mapSpansAll noSpan items := by
  induction h with
  | nil => rfl
  | cons he _ ih => rw [Expr.mapSpansAll, Expr.mapSpansAll, he, ih]

theorem Expr.mapSpansUnder_of_like {properties properties' : List (String × Expr)}
    (h : List.Forall₂ (fun property property' : String × Expr => property'.1 = property.1 ∧
      property.2.Like property'.2) properties properties') :
    Expr.mapSpansUnder noSpan properties' = Expr.mapSpansUnder noSpan properties := by
  induction h with
  | nil => rfl
  | cons he _ ih => rw [Expr.mapSpansUnder, Expr.mapSpansUnder, he.1, he.2, ih]

theorem Stmt.mapSpansAll_of_like {stmts stmts' : List Stmt}
    (h : List.Forall₂ Stmt.Like stmts stmts') :
    Stmt.mapSpansAll noSpan stmts' = Stmt.mapSpansAll noSpan stmts := by
  induction h with
  | nil => rfl
  | cons hstmt _ ih => rw [Stmt.mapSpansAll, Stmt.mapSpansAll, hstmt, ih]

/-! ### What is printed is parsed back -/

open Doctest.Script.Parser

theorem Expr.isPrimary_atom {e : Expr} {k : TokenKind} {make : Span → Expr}
    (he : e.printed = [k]) (hk : k.atom? = some make) (hlike : ∀ span, e.Like (make span)) :
    IsPrimary e.printed e.Like := by
  rw [he]
  refine (Parser.isPrimary_atom hk).mono ?_
  rintro _ ⟨span, rfl⟩
  exact hlike span

theorem Expr.isPrimary_grouped {e : Expr} (hatom : e.isAtom = false)
    (h : IsExpr e.bare e.Like) : IsPrimary e.printed e.Like := by
  rw [Expr.printed, hatom]
  exact h.group e.enclosed

mutual

theorem Expr.isPrimary : (e : Expr) → e.isPrintable = true → IsPrimary e.printed e.Like
  | .number .., _ | .string .., _ | .bool .., _ | .null .., _ | .undefined .., _
  | .ident .., _ => Expr.isPrimary_atom rfl rfl fun _ => rfl
  | .array items _, h => by
    refine Expr.isPrimary_grouped rfl ?_
    rw [Expr.bare, Expr.printedAll_eq]
    refine (isPrimary_array fun e he =>
      (Expr.arePrimary items h e he).operand.expr).operand.expr.mono ?_
    rintro _ ⟨es, span, hes, rfl⟩
    simp only [Expr.Like, Expr.mapSpans, noSpan, Expr.mapSpansAll_of_like hes]
  | .object properties _, h => by
    refine Expr.isPrimary_grouped rfl ?_
    rw [Expr.bare, Expr.printedUnder_eq]
    refine (isPrimary_object (fun property _ => rfl)
      fun property he =>
        (Expr.arePrimaryUnder properties h property he).operand.expr).operand.expr.mono ?_
    rintro _ ⟨es, span, hes, rfl⟩
    simp only [Expr.Like, Expr.mapSpans, noSpan, Expr.mapSpansUnder_of_like hes]
  | .member target property _, h => by
    refine Expr.isPrimary_grouped rfl (((target.isPrimary h).member rfl).expr.mono ?_)
    rintro _ ⟨a, span, ha, rfl⟩
    simp only [Expr.Like, Expr.mapSpans, noSpan, ha]
  | .index target key _, h => by
    rw [Expr.isPrintable, Bool.and_eq_true] at h
    refine Expr.isPrimary_grouped rfl
      (((target.isPrimary h.1).index (key.isPrimary h.2).operand.expr).expr.mono ?_)
    rintro _ ⟨a, b, span, ha, hb, rfl⟩
    simp only [Expr.Like, Expr.mapSpans, noSpan, ha, hb]
  | .call callee args _, h => by
    rw [Expr.isPrintable, Bool.and_eq_true] at h
    refine Expr.isPrimary_grouped rfl ?_
    rw [Expr.bare, Expr.printedAll_eq]
    refine ((callee.isPrimary h.1).call fun e he =>
      (Expr.arePrimary args h.2 e he).operand.expr).expr.mono ?_
    rintro _ ⟨a, es, span, ha, hes, rfl⟩
    simp only [Expr.Like, Expr.mapSpans, noSpan, ha, Expr.mapSpansAll_of_like hes]
  | .construct callee args _, h => by
    rw [Expr.isPrintable, Bool.and_eq_true] at h
    refine Expr.isPrimary_grouped rfl ?_
    rw [Expr.bare, Expr.printedAll_eq]
    refine ((callee.isPrimary h.1).construct fun e he =>
      (Expr.arePrimary args h.2 e he).operand.expr).operand.expr.mono ?_
    rintro _ ⟨a, es, span, ha, hes, rfl⟩
    simp only [Expr.Like, Expr.mapSpans, noSpan, ha, Expr.mapSpansAll_of_like hes]
  | .arrow params (.expr value) _, h => by
    refine Expr.isPrimary_grouped rfl
      ((isExpr_arrow_expr (value.isPrimary h).operand.expr value.head?_printed_ne).mono ?_)
    rintro _ ⟨a, span, ha, rfl⟩
    simp only [Expr.Like, Expr.mapSpans, Body.mapSpans, noSpan, ha]
  | .arrow params (.block stmts) _, h => by
    have hstmts := Stmt.areStmts stmts true h
    refine Expr.isPrimary_grouped rfl ?_
    rw [Expr.bare, Body.printed, Stmt.printedAll_eq]
    refine (isExpr_arrow_block fun hc hlevels => block_reads_braced hstmts hc hlevels).mono ?_
    rintro _ ⟨found, span, hfound, rfl⟩
    simp only [Expr.Like, Expr.mapSpans, Body.mapSpans, noSpan, Stmt.mapSpansAll_of_like hfound]
  | .unary op operand _, h => by
    refine Expr.isPrimary_grouped rfl
      (((operand.isPrimary h).operand.unary (unary?_mark op)).expr.mono ?_)
    rintro _ ⟨a, span, ha, rfl⟩
    simp only [Expr.Like, Expr.mapSpans, noSpan, ha]
  | .binary op left right _, h => by
    rw [Expr.isPrintable, Bool.and_eq_true] at h
    obtain ⟨found, hop, hfound⟩ := infix?_binaryMark op
    refine Expr.isPrimary_grouped rfl
      (((left.isPrimary h.1).operand.joined (right.isPrimary h.2).operand hop).mono ?_)
    rintro _ ⟨a, b, ha, hb, rfl⟩
    simp only [Infix.build, hfound, Expr.Like, Expr.mapSpans, noSpan, ha, hb]
  | .logical op left right _, h => by
    rw [Expr.isPrintable, Bool.and_eq_true] at h
    obtain ⟨found, hop, hfound⟩ := infix?_logicalMark op
    refine Expr.isPrimary_grouped rfl
      (((left.isPrimary h.1).operand.joined (right.isPrimary h.2).operand hop).mono ?_)
    rintro _ ⟨a, b, ha, hb, rfl⟩
    simp only [Infix.build, hfound, Expr.Like, Expr.mapSpans, noSpan, ha, hb]
  | .conditional test yes no _, h => by
    rw [Expr.isPrintable, Bool.and_eq_true, Bool.and_eq_true] at h
    refine Expr.isPrimary_grouped rfl (((test.isPrimary h.1.1).operand.conditional
      (yes.isPrimary h.1.2).operand.expr (no.isPrimary h.2).operand.expr).mono ?_)
    rintro _ ⟨a, b, c, span, ha, hb, hc, rfl⟩
    simp only [Expr.Like, Expr.mapSpans, noSpan, ha, hb, hc]
  | .assign target op value _, h => by
    rw [Expr.isPrintable, Bool.and_eq_true, Bool.and_eq_true, Bool.and_eq_true] at h
    obtain ⟨⟨⟨htarget, hprintable⟩, hop⟩, hvalue⟩ := h
    obtain ⟨mark, hmark⟩ := Option.isSome_iff_exists.mp hop
    refine Expr.isPrimary_grouped rfl ?_
    rw [Expr.bare, hmark, Option.getD_some]
    refine ((target.isPrimary hprintable).operand.assign (value.isPrimary hvalue).operand.expr
      ?_ (assignment?_mark hmark)).mono ?_
    · intro e he
      rw [← Expr.isTarget_mapSpans noSpan, he, Expr.isTarget_mapSpans, htarget]
    · rintro _ ⟨a, b, span, ha, hb, rfl⟩
      simp only [Expr.Like, Expr.mapSpans, noSpan, ha, hb]

theorem Expr.arePrimary : (items : List Expr) → Expr.arePrintable items = true →
    ∀ e ∈ items, IsPrimary e.printed e.Like
  | [], _ => nofun
  | e :: items, h => by
    rw [Expr.arePrintable, Bool.and_eq_true] at h
    exact List.forall_mem_cons.mpr ⟨e.isPrimary h.1, Expr.arePrimary items h.2⟩

theorem Expr.arePrimaryUnder : (properties : List (String × Expr)) →
    Expr.arePrintableUnder properties = true →
    ∀ property ∈ properties, IsPrimary property.2.printed property.2.Like
  | [], _ => nofun
  | (_, e) :: properties, h => by
    rw [Expr.arePrintableUnder, Bool.and_eq_true] at h
    exact List.forall_mem_cons.mpr ⟨e.isPrimary h.1, Expr.arePrimaryUnder properties h.2⟩

theorem Stmt.isStmt : (stmt : Stmt) → (inBody : Bool) → stmt.isPrintable inBody = true →
    IsStmt inBody stmt.printed stmt.Like
  | .expr value _, _, h => by
    refine ((value.isPrimary h).operand.expr.stmt value.head?_printed_ne).mono ?_
    rintro _ ⟨e, span, he, rfl⟩
    simp only [Stmt.Like, Stmt.mapSpans, noSpan, he]
  | .declare kind name none _, _, h => by
    refine (isStmt_declare_bare (declaration?_word kind) (bne_iff_ne.mp h)).mono ?_
    rintro _ ⟨span, rfl⟩
    rfl
  | .declare kind name (some init) _, _, h => by
    refine (isStmt_declare (declaration?_word kind) (init.isPrimary h).operand.expr).mono ?_
    rintro _ ⟨e, span, he, rfl⟩
    simp only [Stmt.Like, Stmt.mapSpans, noSpan, he]
  | .throwing value _, _, h => by
    refine (isStmt_throw (value.isPrimary h).operand.expr).mono ?_
    rintro _ ⟨e, span, he, rfl⟩
    simp only [Stmt.Like, Stmt.mapSpans, noSpan, he]
  | .returning none _, inBody, h => by
    obtain rfl : inBody = true := h
    refine isStmt_return_bare.mono ?_
    rintro _ ⟨span, rfl⟩
    rfl
  | .returning (some value) _, inBody, h => by
    rw [Stmt.isPrintable, Bool.and_eq_true] at h
    obtain ⟨rfl, hvalue⟩ := h
    refine (isStmt_return (value.isPrimary hvalue).operand.expr).mono ?_
    rintro _ ⟨e, span, he, rfl⟩
    simp only [Stmt.Like, Stmt.mapSpans, noSpan, he]
  | .branch test yes none _, inBody, h => by
    rw [Stmt.isPrintable, Bool.and_eq_true] at h
    have hno : ∀ others : List Stmt, none = some others →
        ∀ stmt ∈ others, IsStmt inBody stmt.printed stmt.Like := nofun
    have hbranch := isStmt_branch (test.isPrimary h.1).operand.expr
      (Stmt.areStmts yes inBody h.2) hno
    rw [Stmt.printed, Stmt.printedAll_eq]
    refine hbranch.mono ?_
    rintro _ ⟨a, stmts, _, span, ha, hstmts, ⟨⟩, rfl⟩
    simp only [Stmt.Like, Stmt.mapSpans, noSpan, ha, Stmt.mapSpansAll_of_like hstmts]
  | .branch test yes (some no) _, inBody, h => by
    rw [Stmt.isPrintable, Bool.and_eq_true, Bool.and_eq_true] at h
    have hno : ∀ others, some no = some others →
        ∀ stmt ∈ others, IsStmt inBody stmt.printed stmt.Like := by
      rintro _ ⟨⟩
      exact Stmt.areStmts no inBody h.2
    have hbranch := isStmt_branch (test.isPrimary h.1.1).operand.expr
      (Stmt.areStmts yes inBody h.1.2) hno
    rw [Stmt.printed, Stmt.printedAll_eq, Stmt.printedAll_eq]
    refine hbranch.mono ?_
    rintro _ ⟨a, stmts, _, span, ha, hstmts, ⟨hothers⟩, rfl⟩
    simp only [Stmt.Like, Stmt.mapSpans, noSpan, ha, Stmt.mapSpansAll_of_like hstmts,
      Stmt.mapSpansAll_of_like hothers]
  | .block stmts _, inBody, h => by
    rw [Stmt.printed, Stmt.printedAll_eq]
    refine (isStmt_block (Stmt.areStmts stmts inBody h)).mono ?_
    rintro _ ⟨found, span, hfound, rfl⟩
    simp only [Stmt.Like, Stmt.mapSpans, noSpan, Stmt.mapSpansAll_of_like hfound]

theorem Stmt.areStmts : (stmts : List Stmt) → (inBody : Bool) →
    Stmt.arePrintable inBody stmts = true →
    ∀ stmt ∈ stmts, IsStmt inBody stmt.printed stmt.Like
  | [], _, _ => nofun
  | stmt :: stmts, inBody, h => by
    rw [Stmt.arePrintable, Bool.and_eq_true] at h
    exact List.forall_mem_cons.mpr ⟨stmt.isStmt inBody h.1, Stmt.areStmts stmts inBody h.2⟩

end

/-- **What is printed is parsed back.** Whatever the spans of the tokens that are printed for a
program, these are a program, and it is the same up to spans. -/
theorem programOf_printed {program : List Stmt} {tokens : List Token}
    (hprogram : Stmt.arePrintable false program = true)
    (htokens : tokens.map Token.kind = printedProgram program ++ [.eof]) :
    ∃ program', programOf tokens = .ok program' ∧
      Stmt.mapSpansAll noSpan program' = Stmt.mapSpansAll noSpan program := by
  have hstmts := Stmt.areStmts program false hprogram
  rw [printedProgram, Stmt.printedAll_eq] at htokens
  have hlength := congrArg List.length htokens
  rw [List.length_map, List.length_append, List.length_singleton] at hlength
  have hpassed : (Cursor.kinds ⟨⟨0, 0⟩, tokens⟩).dropWhile TokenKind.separates =
      terminated (program.map Stmt.printed) ++ [.eof] := by
    rw [Cursor.kinds, htokens, dropWhile_terminated hstmts rfl]
  have hreads : Reads [.eof] (List.Forall₂ Stmt.Like program) ⟨⟨0, 0⟩, tokens⟩
      (programStatements (tokens.length + 1) (10 * tokens.length + 10)) :=
    programStatements_reads hstmts hpassed (by omega) (by omega)
  obtain ⟨program', last, hrun, -, hlike⟩ := hreads
  refine ⟨program', ?_, Stmt.mapSpansAll_of_like hlike⟩
  rw [programOf, StateT.run'_eq, StateT.run, hrun]
  rfl

/-- The tokens that are printed for a program, and the end, all without a place. -/
def placeless (program : List Stmt) : List Token :=
  (printedProgram program ++ [TokenKind.eof]).map fun kind => ⟨kind, ⟨0, 0⟩⟩

/-- A constant that is a function, and a branch in the other branch of a branch. -/
def samplePrinted : List Stmt :=
  let place : Span := ⟨0, 0⟩
  let test : Expr := .unary .not (.ident "a" place) place
  let target : Expr := .member (.ident "b" place) "c" place
  let value : Expr := .object [("let", .null place)] place
  [.declare .byConst "f"
      (some (.arrow ["x"] (.block [.returning (some (.ident "x" place)) place]) place)) place,
    .branch (.ident "a" place) [.block [] place]
      (some [.branch test [.expr (.assign target (some .add) value place) place] none place])
      place]

theorem programOf_printed_sample :
    Stmt.arePrintable false samplePrinted = true ∧
      (placeless samplePrinted).map Token.kind = printedProgram samplePrinted ++ [.eof] ∧
      ∃ program, programOf (placeless samplePrinted) = .ok program ∧
        Stmt.mapSpansAll noSpan program = Stmt.mapSpansAll noSpan samplePrinted :=
  ⟨rfl, rfl, programOf_printed rfl rfl⟩

end Doctest.Script
