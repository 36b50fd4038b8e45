import Doctest.Proofs.Script.Parsing.Mirrors

/-!
# What is read before the end

Every parser reads a text that goes on as it reads the one that ends: line breaks before an `else`,
a point or an operator are passed over only where one of these follows, and the seam begins with
none of them. More levels to descend make no difference to what is read.
-/

namespace Doctest.Script

/-! ### Trees up to their spans -/

/-- Whether an expression may be assigned to does not depend on its spans. -/
theorem Expr.isTarget_mapSpans (f : Span → Span) (expr : Expr) :
    (expr.mapSpans f).isTarget = expr.isTarget := by
  cases expr <;> rfl

theorem Stmt.needsSeparator_mapSpans (f : Span → Span) (stmt : Stmt) :
    (stmt.mapSpans f).needsSeparator = stmt.needsSeparator := by
  cases stmt with
  | declare kind name init span => cases init <;> rfl
  | returning value span => cases value <;> rfl
  | branch test yes no span => cases no <;> rfl
  | expr | throwing | block => rfl

theorem Stmt.needsSeparator_congr {f : Span → Span} {stmt stmt' : Stmt}
    (h : stmt.mapSpans f = stmt'.mapSpans f) : stmt.needsSeparator = stmt'.needsSeparator := by
  rw [← stmt.needsSeparator_mapSpans f, h, stmt'.needsSeparator_mapSpans]

theorem Infix.mapSpans_build (op : Infix) {left left' right right' : Expr}
    (hleft : left.mapSpans noSpan = left'.mapSpans noSpan)
    (hright : right.mapSpans noSpan = right'.mapSpans noSpan) :
    (op.build left right).mapSpans noSpan = (op.build left' right').mapSpans noSpan := by
  obtain ⟨_ | _, _, _⟩ := op <;>
    simp only [Infix.build, Expr.mapSpans, hleft, hright, noSpan]

namespace Parser

/-! ### One level further -/

/-- With so many levels to descend each, what is read of the first text is read of the second
one. -/
structure Mirrored (more : Option (List TokenKind)) (fuel fuel' : Nat) : Prop where
  parameters : ∀ {c d : Cursor}, Beside more c.kinds d.kinds →
    Mirrors more 0 id c d (parameters fuel) (parameters fuel')
  statement : ∀ (inBody : Bool) {c d : Cursor}, Beside more c.kinds d.kinds →
    Mirrors more 0 (Stmt.mapSpans noSpan) c d (statement fuel inBody) (statement fuel' inBody)
  expressionStatement : ∀ (inBody : Bool) {c d : Cursor}, Beside more c.kinds d.kinds →
    Mirrors more 0 (Stmt.mapSpans noSpan) c d (expressionStatement fuel inBody)
      (expressionStatement fuel' inBody)
  declaration : ∀ (inBody : Bool) {c d : Cursor}, Beside more c.kinds d.kinds →
    ∀ {word : Keyword}, c.kindAt 0 = .keyword word →
    Mirrors more 0 (Stmt.mapSpans noSpan) c d (declaration fuel inBody) (declaration fuel' inBody)
  conditionalStatement : ∀ (inBody : Bool) {c d : Cursor}, Beside more c.kinds d.kinds →
    ∀ {word : Keyword}, c.kindAt 0 = .keyword word →
    Mirrors more 0 (Stmt.mapSpans noSpan) c d (conditionalStatement fuel inBody)
      (conditionalStatement fuel' inBody)
  branchBody : ∀ (inBody : Bool) {c d : Cursor}, Beside more c.kinds d.kinds →
    Mirrors more 0 (Stmt.mapSpansAll noSpan) c d (branchBody fuel inBody) (branchBody fuel' inBody)
  block : ∀ (inBody : Bool) {c d : Cursor}, Beside more c.kinds d.kinds →
    Mirrors more 0 (Stmt.mapSpansAll noSpan) c d (block fuel inBody) (block fuel' inBody)
  blockStatements : ∀ (inBody : Bool) {c d : Cursor}, Beside more c.kinds d.kinds →
    Mirrors more 0 (Stmt.mapSpansAll noSpan) c d (blockStatements fuel inBody)
      (blockStatements fuel' inBody)
  assignment : ∀ (inBody : Bool) {c d : Cursor}, Beside more c.kinds d.kinds →
    Mirrors more 0 (Expr.mapSpans noSpan) c d (assignment fuel inBody) (assignment fuel' inBody)
  arrow : ∀ (inBody : Bool) {c d : Cursor}, Beside more c.kinds d.kinds →
    Mirrors more 0 (Expr.mapSpans noSpan) c d (arrow fuel inBody) (arrow fuel' inBody)
  conditional : ∀ (inBody : Bool) {c d : Cursor}, Beside more c.kinds d.kinds →
    Mirrors more 0 (Expr.mapSpans noSpan) c d (conditional fuel inBody) (conditional fuel' inBody)
  binary : ∀ (inBody : Bool) {c d : Cursor}, Beside more c.kinds d.kinds → ∀ least : Nat,
    Mirrors more 0 (Expr.mapSpans noSpan) c d (binary fuel inBody least) (binary fuel' inBody least)
  binaryRest : ∀ (inBody : Bool) {c d : Cursor}, Beside more c.kinds d.kinds →
    ∀ (least : Nat) {left left' : Expr}, left.mapSpans noSpan = left'.mapSpans noSpan →
    Mirrors more 0 (Expr.mapSpans noSpan) c d (binaryRest fuel inBody least left)
      (binaryRest fuel' inBody least left')
  unary : ∀ (inBody : Bool) {c d : Cursor}, Beside more c.kinds d.kinds →
    Mirrors more 0 (Expr.mapSpans noSpan) c d (unary fuel inBody) (unary fuel' inBody)
  suffixes : ∀ (inBody : Bool) {c d : Cursor}, Beside more c.kinds d.kinds →
    ∀ {operand operand' : Expr}, operand.mapSpans noSpan = operand'.mapSpans noSpan →
    Mirrors more 0 (Expr.mapSpans noSpan) c d (suffixes fuel inBody operand)
      (suffixes fuel' inBody operand')
  arguments : ∀ (inBody : Bool) {c d : Cursor}, Beside more c.kinds d.kinds →
    Mirrors more 0 (Expr.mapSpansAll noSpan) c d (arguments fuel inBody) (arguments fuel' inBody)
  elements : ∀ (inBody : Bool) {c d : Cursor}, Beside more c.kinds d.kinds →
    ∀ {close : Symbol}, close ≠ .semi →
    Mirrors more 0 (Expr.mapSpansAll noSpan) c d (elements fuel inBody close)
      (elements fuel' inBody close)
  primary : ∀ (inBody : Bool) {c d : Cursor}, Beside more c.kinds d.kinds →
    Mirrors more 0 (Expr.mapSpans noSpan) c d (primary fuel inBody) (primary fuel' inBody)
  properties : ∀ (inBody : Bool) {c d : Cursor}, Beside more c.kinds d.kinds →
    Mirrors more 0 (Expr.mapSpansUnder noSpan) c d (properties fuel inBody)
      (properties fuel' inBody)
  construction : ∀ (inBody : Bool) {c d : Cursor}, Beside more c.kinds d.kinds →
    ∀ {word : Keyword}, c.kindAt 0 = .keyword word →
    Mirrors more 0 (Expr.mapSpans noSpan) c d (construction fuel inBody) (construction fuel' inBody)
  calleeSuffixes : ∀ (inBody : Bool) {c d : Cursor}, Beside more c.kinds d.kinds →
    ∀ {callee callee' : Expr}, callee.mapSpans noSpan = callee'.mapSpans noSpan →
    Mirrors more 0 (Expr.mapSpans noSpan) c d (calleeSuffixes fuel inBody callee)
      (calleeSuffixes fuel' inBody callee')

namespace Mirrored

variable {more : Option (List TokenKind)} {fuel fuel' : Nat}

/-- Nothing closes a block at the end. -/
theorem blockStatements_ne_ok {inBody : Bool} {c : Cursor} {stmts : List Stmt} {last : Cursor}
    (h : c.kindAt 0 = .eof) : Script.blockStatements fuel inBody c ≠ .ok (stmts, last) := by
  cases fuel with
  | zero => nofun
  | succ fuel =>
    intro hrun
    have hkind : (c.skipWhile TokenKind.separates).kindAt 0 = .eof :=
      Cursor.kindAt_skipWhile_of_eof rfl h
    rw [Script.blockStatements, bind_skipSeparators_apply, bind_kind_apply, hkind] at hrun
    cases hrun

theorem symbol_passes {mark : Symbol} {depth : Nat} (h : mark ≠ .lparen ∧ mark ≠ .rparen) :
    (TokenKind.symbol mark).Passes depth depth := by
  refine .plain ⟨nofun, ?_, ?_⟩ <;> intro hmark <;> injection hmark with hmark
  · exact h.1 hmark
  · exact h.2 hmark

theorem keyword_passes {word : Keyword} {depth : Nat} :
    (TokenKind.keyword word).Passes depth depth :=
  .plain ⟨nofun, nofun, nofun⟩

section

variable (ih : Mirrored more fuel fuel') (inBody : Bool) {c d : Cursor}
  (h : Beside more c.kinds d.kinds)
include ih h

theorem succ_parameters :
    Mirrors more 0 id c d (Script.parameters (fuel + 1)) (Script.parameters (fuel' + 1)) := by
  unfold Script.parameters
  refine .sees h nofun (fun _ => .pure h rfl) ?_
  refine .bind (.identifier h) fun name name' c d hname h => ?_
  refine .skipNewlines h fun c d h => ?_
  obtain rfl : name = name' := hname
  refine .accept h nofun (symbol_passes (by decide)) (fun c d h => .skipNewlines h fun c d h => ?_)
    (.pure h rfl)
  refine .bind (ih.parameters h) fun rest rest' c d hrest h => ?_
  obtain rfl : rest = rest' := hrest
  exact .pure h rfl

theorem succ_statement :
    Mirrors more 0 (Stmt.mapSpans noSpan) c d (Script.statement (fuel + 1) inBody)
      (Script.statement (fuel' + 1) inBody) := by
  unfold Script.statement
  refine .get ?_
  dsimp only
  refine .kind h rfl rfl fun k hk => ?_
  split
  · exact ih.declaration inBody h hk
  · exact ih.declaration inBody h hk
  · exact ih.declaration inBody h hk
  · refine .advance h hk keyword_passes fun c d h => ?_
    refine .kind h rfl rfl fun k hk => ?_
    split
    · exact .get (.failAt _ _ _)
    · exact .get (.failAt _ _ _)
    · exact .get (.failAt _ _ _)
    · refine .bind (ih.assignment inBody h) fun value value' c d hvalue h => .pure h ?_
      simp only [Stmt.mapSpans, hvalue, noSpan]
  · refine .cond (fun _ => .failAt _ _ _) fun _ => ?_
    refine .advance h hk keyword_passes fun c d h => ?_
    refine .kind h rfl rfl fun k hk => ?_
    split
    · exact .pure h rfl
    · exact .pure h rfl
    · exact .pure h rfl
    · exact .pure h rfl
    · refine .bind (ih.assignment inBody h) fun value value' c d hvalue h => .pure h ?_
      simp only [Stmt.mapSpans, hvalue, noSpan]
  · exact ih.conditionalStatement inBody h hk
  · refine .get ?_
    rw [h.startsObject hk]
    refine .cond (fun _ => ih.expressionStatement inBody h) fun _ => ?_
    refine .bind (ih.block inBody h) fun stmts stmts' c d hstmts h => ?_
    refine .spanFrom fun _ _ => ?_
    refine .pure h ?_
    simp only [Stmt.mapSpans, hstmts, noSpan]
  · exact ih.expressionStatement inBody h

theorem succ_expressionStatement :
    Mirrors more 0 (Stmt.mapSpans noSpan) c d (Script.expressionStatement (fuel + 1) inBody)
      (Script.expressionStatement (fuel' + 1) inBody) := by
  unfold Script.expressionStatement
  refine .bind (ih.assignment inBody h) fun value value' c d hvalue h => .pure h ?_
  simp only [Stmt.mapSpans, hvalue, noSpan]

theorem succ_declaration {word : Keyword} (hk : c.kindAt 0 = .keyword word) :
    Mirrors more 0 (Stmt.mapSpans noSpan) c d (Script.declaration (fuel + 1) inBody)
      (Script.declaration (fuel' + 1) inBody) := by
  unfold Script.declaration
  refine .next h hk keyword_passes fun span span' c d h => ?_
  refine .bind (.identifier h) fun name name' c d hname h => ?_
  obtain rfl : name = name' := hname
  refine .accept h nofun (symbol_passes (by decide))
    (fun c d h => .skipNewlines h fun c d h => ?_) ?_
  · refine .bind (ih.assignment inBody h) fun value value' c d hvalue h => ?_
    refine .spanFrom fun _ _ => ?_
    refine .pure h ?_
    simp only [Stmt.mapSpans, hvalue, noSpan]
  · exact .cond (fun _ => .failAt _ _ _) fun _ => .spanFrom fun _ _ => .pure h rfl

theorem succ_conditionalStatement {word : Keyword} (hk : c.kindAt 0 = .keyword word) :
    Mirrors more 0 (Stmt.mapSpans noSpan) c d (Script.conditionalStatement (fuel + 1) inBody)
      (Script.conditionalStatement (fuel' + 1) inBody) := by
  unfold Script.conditionalStatement
  refine .next h hk keyword_passes fun span span' c d h => ?_
  refine .expect h nofun .lparen fun _ _ c d h => ?_
  refine .skipNewlines h fun c d h => ?_
  refine .bind (ih.assignment inBody h) fun test test' c d htest h => ?_
  refine .skipNewlines h fun c d h => ?_
  refine .expect h nofun .rparen fun _ _ c d h => ?_
  refine .skipNewlines h fun c d h => ?_
  refine .bind (ih.branchBody inBody h) fun yes yes' c d hyes h => .get ?_
  -- Where the first text ends behind the branch, the semicolon of the seam is no `else` either.
  have helse : d.kindPastNewlines = .keyword .kwElse ↔ c.kindPastNewlines = .keyword .kwElse :=
    h.pastNewlines_iff ⟨nofun, nofun⟩
  simp only [helse]
  refine .cond (fun helse => ?_) fun _ => .spanFrom fun _ _ => .pure h ?_
  · refine .skipNewlines_advance h helse keyword_passes fun c d h => ?_
    refine .skipNewlines h fun c d h => ?_
    refine .kind h rfl rfl fun k hk => .cond (fun hif => ?_) fun _ => ?_
    · have hinner := ih.conditionalStatement inBody h (hk.trans hif)
      refine .bind hinner fun stmt stmt' c d hstmt h => ?_
      have hno : Stmt.mapSpansAll noSpan [stmt] = Stmt.mapSpansAll noSpan [stmt'] := by
        simp only [Stmt.mapSpansAll, hstmt]
      refine .bind (.pure h hno) fun no no' c d hno h => .spanFrom fun _ _ => .pure h ?_
      simp only [Stmt.mapSpans, htest, hyes, hno, noSpan]
    · refine .bind (ih.branchBody inBody h) fun no no' c d hno h => .spanFrom fun _ _ => .pure h ?_
      simp only [Stmt.mapSpans, htest, hyes, hno, noSpan]
  · simp only [Stmt.mapSpans, htest, hyes, noSpan]

theorem succ_branchBody :
    Mirrors more 0 (Stmt.mapSpansAll noSpan) c d (Script.branchBody (fuel + 1) inBody)
      (Script.branchBody (fuel' + 1) inBody) := by
  unfold Script.branchBody
  refine .sees h nofun (fun _ => ih.block inBody h) ?_
  refine .bind (ih.statement inBody h) fun stmt stmt' c d hstmt h => .pure h ?_
  simp only [Stmt.mapSpansAll, hstmt]

theorem succ_block :
    Mirrors more 0 (Stmt.mapSpansAll noSpan) c d (Script.block (fuel + 1) inBody)
      (Script.block (fuel' + 1) inBody) := by
  unfold Script.block
  refine .expect h nofun (symbol_passes (by decide)) fun _ _ c d h => ?_
  refine .bind (ih.blockStatements inBody h) fun stmts stmts' c d hstmts h => ?_
  exact .expect h nofun (symbol_passes (by decide)) fun _ _ c d h => .pure h hstmts

theorem succ_conditional :
    Mirrors more 0 (Expr.mapSpans noSpan) c d (Script.conditional (fuel + 1) inBody)
      (Script.conditional (fuel' + 1) inBody) := by
  unfold Script.conditional
  refine .bind (ih.binary inBody h 0) fun test test' c d htest h => ?_
  refine .accept h nofun (symbol_passes (by decide)) (fun c d h => .skipNewlines h fun c d h => ?_)
    (.pure h htest)
  refine .bind (ih.assignment inBody h) fun yes yes' c d hyes h => ?_
  refine .skipNewlines h fun c d h => ?_
  refine .expect h nofun (symbol_passes (by decide)) fun _ _ c d h => ?_
  refine .skipNewlines h fun c d h => ?_
  refine .bind (ih.assignment inBody h) fun no no' c d hno h => .pure h ?_
  simp only [Expr.mapSpans, htest, hyes, hno, noSpan]

theorem succ_blockStatements :
    Mirrors more 0 (Stmt.mapSpansAll noSpan) c d (Script.blockStatements (fuel + 1) inBody)
      (Script.blockStatements (fuel' + 1) inBody) := by
  unfold Script.blockStatements
  refine .skipSeparators h (fun c stmts last hc hrun => ?_) fun c d h hne => ?_
  · rw [bind_kind_apply, hc] at hrun
    cases hrun
  refine .kind_cases h (fun k _ hk => ?_) fun heof _ _ => absurd heof hne
  split
  · exact .pure h rfl
  · exact .failHere _
  · refine .bind (ih.statement inBody h) fun stmt stmt' c d hstmt h => ?_
    have hneeds := Stmt.needsSeparator_congr hstmt
    have hrest {c d : Cursor} (h : Beside more c.kinds d.kinds) :
        Mirrors more 0 (Stmt.mapSpansAll noSpan) c d
          (do return stmt :: (← Script.blockStatements fuel inBody))
          (do return stmt' :: (← Script.blockStatements fuel' inBody)) := by
      refine .bind (ih.blockStatements inBody h) fun rest rest' c d hrest h => .pure h ?_
      simp only [Stmt.mapSpansAll, hstmt, hrest]
    rw [hneeds]
    refine .cond (fun _ => .separator h (fun heof stmts last hrun => ?_) fun c d h => hrest h)
      fun _ => hrest h
    obtain ⟨rest, middle, hfirst, -⟩ := exists_of_bind hrun
    exact blockStatements_ne_ok heof hfirst

/-- A group that is read is closed before the end, so that no arrow behind the end makes it the
parameters of a function. -/
theorem succ_assignment
    (hgroup : ∀ target last, Script.conditional fuel inBody c = .ok (target, last) →
      c.kindAt 0 = .symbol .lparen → Closes 1 c.advance.kinds) :
    Mirrors more 0 (Expr.mapSpans noSpan) c d (Script.assignment (fuel + 1) inBody)
      (Script.assignment (fuel' + 1) inBody) := by
  unfold Script.assignment
  refine .get ?_
  by_cases harrow : c.startsArrow = true
  · have heq := h.startsArrow (closes_of_startsArrow harrow)
    rw [if_pos harrow, if_pos (heq ▸ harrow)]
    exact ih.arrow inBody h
  -- No function begins in the first text. One that began in the second text would have a group of
  -- parameters that is still open at the end, but the first text has no such group to be read.
  · rw [if_neg harrow]
    refine .of_ok fun target middle hcond => ?_
    have heq := h.startsArrow (hgroup target middle hcond)
    rw [if_neg (heq ▸ harrow)]
    refine .bind (ih.conditional inBody h) fun target target' c d htarget h => ?_
    refine .kind h rfl rfl fun k hk => ?_
    split
    · exact .pure h htarget
    · next op hop =>
      have htargets : target.isTarget = target'.isTarget := by
        rw [← target.isTarget_mapSpans noSpan, htarget, target'.isTarget_mapSpans]
      have hplain : k.Plain := .of_some hop rfl rfl rfl
      rw [htargets]
      refine .cond (fun _ => .failAt _ _ _) fun _ => ?_
      refine .advance h hk (.plain hplain) fun c d h => ?_
      refine .skipNewlines h fun c d h => ?_
      refine .bind (ih.assignment inBody h) fun value value' c d hvalue h => .pure h ?_
      simp only [Expr.mapSpans, htarget, hvalue, noSpan]

theorem succ_arrow :
    Mirrors more 0 (Expr.mapSpans noSpan) c d (Script.arrow (fuel + 1) inBody)
      (Script.arrow (fuel' + 1) inBody) := by
  have hbody (params : List String) (start start' : Span) {c d : Cursor}
      (h : Beside more c.kinds d.kinds) :
      Mirrors more 0 (Expr.mapSpans noSpan) c d
        (do
          let _ ← expect .arrow
          Parser.skipNewlines
          if ← sees .lbrace then
            let stmts ← Script.block fuel true
            return .arrow params (.block stmts) (← Parser.spanFrom start)
          else
            let value ← Script.assignment fuel inBody
            return .arrow params (.expr value) (← Parser.spanFrom start))
        (do
          let _ ← expect .arrow
          Parser.skipNewlines
          if ← sees .lbrace then
            let stmts ← Script.block fuel' true
            return .arrow params (.block stmts) (← Parser.spanFrom start')
          else
            let value ← Script.assignment fuel' inBody
            return .arrow params (.expr value) (← Parser.spanFrom start')) := by
    refine .expect h nofun (symbol_passes (by decide)) fun _ _ c d h => ?_
    refine .skipNewlines h fun c d h => ?_
    refine .sees h nofun (fun _ => ?_) ?_
    · refine .bind (ih.block true h) fun stmts stmts' c d hstmts h => ?_
      refine .spanFrom fun _ _ => .pure h ?_
      simp only [Expr.mapSpans, Body.mapSpans, hstmts, noSpan]
    · refine .bind (ih.assignment inBody h) fun value value' c d hvalue h => ?_
      refine .spanFrom fun _ _ => ?_
      refine .pure h ?_
      simp only [Expr.mapSpans, Body.mapSpans, hvalue, noSpan]
  unfold Script.arrow
  refine .get ?_
  dsimp only
  refine .accept h nofun .lparen (fun c d h => .skipNewlines h fun c d h => ?_) ?_
  · refine .bind (ih.parameters h) fun params params' c d hparams h => ?_
    obtain rfl : params = params' := hparams
    exact .expect h nofun .rparen fun _ _ c d h => hbody params _ _ h
  · refine .bind (.identifier h) fun name name' c d hname h => ?_
    obtain rfl : name = name' := hname
    exact hbody [name] _ _ h

theorem succ_binary (least : Nat) :
    Mirrors more 0 (Expr.mapSpans noSpan) c d (Script.binary (fuel + 1) inBody least)
      (Script.binary (fuel' + 1) inBody least) := by
  unfold Script.binary
  exact .bind (ih.unary inBody h) fun left left' c d hleft h => ih.binaryRest inBody h least hleft

theorem succ_binaryRest (least : Nat) {left left' : Expr}
    (hleft : left.mapSpans noSpan = left'.mapSpans noSpan) :
    Mirrors more 0 (Expr.mapSpans noSpan) c d (Script.binaryRest (fuel + 1) inBody least left)
      (Script.binaryRest (fuel' + 1) inBody least left') := by
  unfold Script.binaryRest
  refine .get ?_
  rw [h.continues]
  dsimp only
  refine .skipNewlines_if h fun c d h => ?_
  refine .kind h rfl rfl fun k hk => ?_
  split
  · exact .pure h hleft
  · next op hop =>
    refine .cond (fun _ => .pure h hleft) fun _ => ?_
    have hplain : k.Plain := .of_some hop rfl rfl rfl
    refine .advance h hk (.plain hplain) fun c d h => ?_
    refine .skipNewlines h fun c d h => ?_
    refine .bind (ih.binary inBody h op.right) fun right right' c d hright h => ?_
    exact ih.binaryRest inBody h least (op.mapSpans_build hleft hright)

theorem succ_unary :
    Mirrors more 0 (Expr.mapSpans noSpan) c d (Script.unary (fuel + 1) inBody)
      (Script.unary (fuel' + 1) inBody) := by
  unfold Script.unary
  refine .get ?_
  dsimp only
  refine .kind h rfl rfl fun k hk => ?_
  split
  · next op hop =>
    have hplain : k.Plain := .of_some hop rfl rfl rfl
    refine .advance h hk (.plain hplain) fun c d h => ?_
    refine .bind (ih.unary inBody h) fun operand operand' c d hoperand h => .pure h ?_
    simp only [Expr.mapSpans, hoperand, noSpan]
  · exact .bind (ih.primary inBody h) fun operand operand' c d hoperand h =>
      ih.suffixes inBody h hoperand

theorem succ_suffixes {operand operand' : Expr}
    (hoperand : operand.mapSpans noSpan = operand'.mapSpans noSpan) :
    Mirrors more 0 (Expr.mapSpans noSpan) c d (Script.suffixes (fuel + 1) inBody operand)
      (Script.suffixes (fuel' + 1) inBody operand') := by
  unfold Script.suffixes
  refine .kind_cases h (fun k _ hk => ?_) fun heof k hseen => ?_
  · split
    · refine .bind (ih.arguments inBody h) fun args args' c d hargs h => ?_
      refine .spanFrom fun _ _ => ?_
      refine ih.suffixes inBody h ?_
      simp only [Expr.mapSpans, hoperand, hargs, noSpan]
    · refine .advance h hk (symbol_passes (by decide)) fun c d h => ?_
      refine .bind (.propertyName h) fun name name' c d hname h => ?_
      refine .spanFrom fun _ _ => ?_
      obtain rfl : name = name' := hname
      refine ih.suffixes inBody h ?_
      simp only [Expr.mapSpans, hoperand, noSpan]
    · refine .advance h hk (symbol_passes (by decide)) fun c d h => ?_
      refine .skipNewlines h fun c d h => ?_
      refine .bind (ih.assignment inBody h) fun key key' c d hkey h => ?_
      refine .skipNewlines h fun c d h => ?_
      refine .expect h nofun (symbol_passes (by decide)) fun _ _ c d h => ?_
      refine .spanFrom fun _ _ => ?_
      refine ih.suffixes inBody h ?_
      simp only [Expr.mapSpans, hoperand, hkey, noSpan]
    · refine .get ?_
      have hdot : d.kindPastNewlines = .symbol .dot ↔ c.kindPastNewlines = .symbol .dot :=
        h.pastNewlines_iff ⟨nofun, nofun⟩
      simp only [hdot]
      exact .cond (fun _ => .skipNewlines h fun c d h => ih.suffixes inBody h hoperand)
        fun _ => .pure h hoperand
    · exact .pure h hoperand
  · cases hseen with
    | same => exact .pure h hoperand
    | semi => exact .pure h hoperand
    -- The line feed of the seam is looked behind, but the semicolon there is no point.
    | feed =>
      have hend : c.kindPastNewlines = .eof := by
        rw [c.kindPastNewlines_eq]
        exact Cursor.kindAt_skipWhile_of_eof rfl heof
      have hseen : d.kindPastNewlines = .symbol .dot ↔ c.kindPastNewlines = .symbol .dot :=
        h.pastNewlines_iff ⟨nofun, nofun⟩
      have hdot : ¬ d.kindPastNewlines = .symbol .dot := by
        rw [hseen, hend]
        nofun
      refine .of_takes rfl ?_ id (.pure h hoperand)
      dsimp only
      rw [bind_get_apply, if_neg hdot]

theorem succ_primary :
    Mirrors more 0 (Expr.mapSpans noSpan) c d (Script.primary (fuel + 1) inBody)
      (Script.primary (fuel' + 1) inBody) := by
  unfold Script.primary
  refine .get ?_
  dsimp only
  rw [c.current_kind, d.current_kind]
  by_cases heof : c.kindAt 0 = .eof
  · rw [heof]
    exact .failHere _
  rw [(h.advance rfl heof).1]
  generalize hk : c.kindAt 0 = k
  split
  · exact .advance h hk (.plain ⟨nofun, nofun, nofun⟩) fun c d h => .pure h rfl
  · exact .advance h hk (.plain ⟨nofun, nofun, nofun⟩) fun c d h => .pure h rfl
  · exact .advance h hk (.plain ⟨nofun, nofun, nofun⟩) fun c d h => .pure h rfl
  · exact .advance h hk (.plain ⟨nofun, nofun, nofun⟩) fun c d h => .pure h rfl
  · exact .advance h hk (.plain ⟨nofun, nofun, nofun⟩) fun c d h => .pure h rfl
  · exact .advance h hk (.plain ⟨nofun, nofun, nofun⟩) fun c d h => .pure h rfl
  · refine .advance h hk .lparen fun c d h => ?_
    refine .skipNewlines h fun c d h => ?_
    refine .bind (ih.assignment inBody h) fun inner inner' c d hinner h => ?_
    refine .skipNewlines h fun c d h => ?_
    exact .expect h nofun .rparen fun _ _ c d h => .pure h hinner
  · refine .advance h hk (symbol_passes (by decide)) fun c d h => ?_
    refine .skipNewlines h fun c d h => ?_
    refine .bind (ih.elements inBody h nofun) fun items items' c d hitems h => ?_
    refine .expect h nofun (symbol_passes (by decide)) fun _ _ c d h => .pure h ?_
    simp only [Expr.mapSpans, hitems, noSpan]
  · refine .advance h hk (symbol_passes (by decide)) fun c d h => ?_
    refine .skipNewlines h fun c d h => ?_
    refine .bind (ih.properties inBody h) fun members members' c d hmembers h => ?_
    refine .expect h nofun (symbol_passes (by decide)) fun _ _ c d h => .pure h ?_
    simp only [Expr.mapSpans, hmembers, noSpan]
  · exact ih.construction inBody h hk
  · exact .failHere _

theorem succ_properties :
    Mirrors more 0 (Expr.mapSpansUnder noSpan) c d (Script.properties (fuel + 1) inBody)
      (Script.properties (fuel' + 1) inBody) := by
  have hrest (key : String) {value value' : Expr} {c d : Cursor}
      (hvalue : value.mapSpans noSpan = value'.mapSpans noSpan) (h : Beside more c.kinds d.kinds) :
      Mirrors more 0 (Expr.mapSpansUnder noSpan) c d
        (do
          Parser.skipNewlines
          if ← accept .comma then
            Parser.skipNewlines
            return (key, value) :: (← Script.properties fuel inBody)
          else return [(key, value)])
        (do
          Parser.skipNewlines
          if ← accept .comma then
            Parser.skipNewlines
            return (key, value') :: (← Script.properties fuel' inBody)
          else return [(key, value')]) := by
    refine .skipNewlines h fun c d h => ?_
    refine .accept h nofun (symbol_passes (by decide))
      (fun c d h => .skipNewlines h fun c d h => ?_) ?_
    · refine .bind (ih.properties inBody h) fun rest rest' c d hrest h => .pure h ?_
      simp only [Expr.mapSpansUnder, hvalue, hrest]
    · refine .pure h ?_
      simp only [Expr.mapSpansUnder, hvalue]
  unfold Script.properties
  refine .sees h nofun (fun _ => .pure h rfl) ?_
  refine .bind (.objectKey h) fun found found' c d hfound h => ?_
  obtain ⟨key, own⟩ := found
  obtain ⟨key', own'⟩ := found'
  obtain ⟨rfl, hown⟩ := Prod.mk.inj hfound
  dsimp only
  refine .accept h nofun (symbol_passes (by decide))
    (fun c d h => .skipNewlines h fun c d h => ?_) ?_
  · exact .bind (ih.assignment inBody h) fun value value' c d hvalue h => hrest key hvalue h
  · cases own with
    | none => exact .of_fails nofun
    | some value =>
      obtain ⟨value', rfl, hvalue⟩ := Option.map_eq_some_iff.mp hown.symm
      exact hrest key hvalue.symm h

theorem succ_construction {word : Keyword} (hk : c.kindAt 0 = .keyword word) :
    Mirrors more 0 (Expr.mapSpans noSpan) c d (Script.construction (fuel + 1) inBody)
      (Script.construction (fuel' + 1) inBody) := by
  unfold Script.construction
  refine .next h hk keyword_passes fun span span' c d h => ?_
  dsimp only
  refine .bind (ih.primary inBody h) fun first first' c d hfirst h => ?_
  refine .bind (ih.calleeSuffixes inBody h hfirst) fun callee callee' c d hcallee h => ?_
  refine .sees h nofun (fun _ => ?_) (.spanFrom fun _ _ => .pure h ?_)
  · refine .bind (ih.arguments inBody h) fun args args' c d hargs h => ?_
    refine .spanFrom fun _ _ => ?_
    refine .pure h ?_
    simp only [Expr.mapSpans, hcallee, hargs, noSpan]
  · simp only [Expr.mapSpans, hcallee, noSpan]

theorem succ_calleeSuffixes {callee callee' : Expr}
    (hcallee : callee.mapSpans noSpan = callee'.mapSpans noSpan) :
    Mirrors more 0 (Expr.mapSpans noSpan) c d (Script.calleeSuffixes (fuel + 1) inBody callee)
      (Script.calleeSuffixes (fuel' + 1) inBody callee') := by
  unfold Script.calleeSuffixes
  refine .kind h rfl rfl fun k hk => ?_
  split
  · refine .advance h hk (symbol_passes (by decide)) fun c d h => ?_
    refine .bind (.propertyName h) fun name name' c d hname h => ?_
    refine .spanFrom fun _ _ => ?_
    obtain rfl : name = name' := hname
    refine ih.calleeSuffixes inBody h ?_
    simp only [Expr.mapSpans, hcallee, noSpan]
  · refine .advance h hk (symbol_passes (by decide)) fun c d h => ?_
    refine .bind (ih.assignment inBody h) fun key key' c d hkey h => ?_
    refine .expect h nofun (symbol_passes (by decide)) fun _ _ c d h => ?_
    refine .spanFrom fun _ _ => ?_
    refine ih.calleeSuffixes inBody h ?_
    simp only [Expr.mapSpans, hcallee, hkey, noSpan]
  · exact .pure h hcallee

theorem succ_arguments :
    Mirrors more 0 (Expr.mapSpansAll noSpan) c d (Script.arguments (fuel + 1) inBody)
      (Script.arguments (fuel' + 1) inBody) := by
  unfold Script.arguments
  refine .expect h nofun .lparen fun _ _ c d h => ?_
  refine .skipNewlines h fun c d h => ?_
  refine .bind (ih.elements inBody h nofun) fun args args' c d hargs h => ?_
  exact .expect h nofun .rparen fun _ _ c d h => .pure h hargs

theorem succ_elements {close : Symbol} (hclose : close ≠ .semi) :
    Mirrors more 0 (Expr.mapSpansAll noSpan) c d (Script.elements (fuel + 1) inBody close)
      (Script.elements (fuel' + 1) inBody close) := by
  unfold Script.elements
  refine .sees h hclose (fun _ => .pure h rfl) ?_
  refine .bind (ih.assignment inBody h) fun item item' c d hitem h => ?_
  refine .skipNewlines h fun c d h => ?_
  refine .accept h nofun (symbol_passes (by decide))
    (fun c d h => .skipNewlines h fun c d h => ?_) ?_
  · refine .bind (ih.elements inBody h hclose) fun rest rest' c d hrest h => .pure h ?_
    simp only [Expr.mapSpansAll, hitem, hrest]
  · refine .pure h ?_
    simp only [Expr.mapSpansAll, hitem]

end

/-! ### Groups that are read -/

/-- A group at the front of an operand is read up to the parenthesis that closes it. -/
theorem exists_of_primary {inBody : Bool} {operand : Expr} {c last : Cursor}
    (hrun : Script.primary (fuel + 1) inBody c = .ok (operand, last))
    (hk : c.kindAt 0 = .symbol .lparen) :
    ∃ inner middle, Script.assignment fuel inBody c.advance.pastNewlines = .ok (inner, middle) ∧
      middle.pastNewlines.kindAt 0 = .symbol .rparen := by
  rw [Script.primary, bind_get_apply, c.current_kind, hk] at hrun
  dsimp only at hrun
  rw [bind_advance_apply, bind_skipNewlines_apply] at hrun
  obtain ⟨inner, middle, hinner, hrun⟩ := exists_of_bind hrun
  refine ⟨inner, middle, hinner, ?_⟩
  rw [bind_skipNewlines_apply, expect_eq, bind_sees_apply] at hrun
  by_cases hclose : middle.pastNewlines.kindAt 0 = .symbol .rparen
  · exact hclose
  · rw [if_neg hclose] at hrun
    cases hrun

/-- A group at the front of a conditional expression is read before the rest of it. -/
theorem exists_of_conditional {inBody : Bool} {target : Expr} {c last : Cursor}
    (hrun : Script.conditional fuel inBody c = .ok (target, last))
    (hk : c.kindAt 0 = .symbol .lparen) :
    ∃ levels inner middle, levels < fuel ∧
      Script.assignment levels inBody c.advance.pastNewlines = .ok (inner, middle) ∧
      middle.pastNewlines.kindAt 0 = .symbol .rparen := by
  rcases fuel with _ | fuel
  · cases hrun
  rw [Script.conditional] at hrun
  obtain ⟨test, _, hrun, -⟩ := exists_of_bind hrun
  rcases fuel with _ | fuel
  · cases hrun
  rw [Script.binary] at hrun
  obtain ⟨left, _, hrun, -⟩ := exists_of_bind hrun
  rcases fuel with _ | fuel
  · cases hrun
  rw [Script.unary, bind_get_apply, bind_kind_apply, hk] at hrun
  obtain ⟨operand, _, hrun, -⟩ := exists_of_bind hrun
  rcases fuel with _ | fuel
  · cases hrun
  obtain ⟨inner, middle, hinner, hclose⟩ := exists_of_primary hrun hk
  exact ⟨fuel, inner, middle, by omega, hinner, hclose⟩

/-- A group at the front of a conditional expression is closed. -/
theorem closes_of_conditional {inBody : Bool} {target : Expr} {c d last : Cursor}
    (ih : ∀ levels < fuel, Mirrored more levels levels) (h : Beside more c.kinds d.kinds)
    (hrun : Script.conditional fuel inBody c = .ok (target, last))
    (hk : c.kindAt 0 = .symbol .lparen) : Closes 1 c.advance.kinds := by
  obtain ⟨levels, inner, middle, hlevels, hinner, hclose⟩ := exists_of_conditional hrun hk
  obtain ⟨-, -, hrest⟩ := h.advance hk nofun
  obtain ⟨htakes, d', _, -, -, hmiddle⟩ :=
    (ih levels hlevels).assignment inBody hrest.pastNewlines inner middle hinner
  obtain ⟨-, hkinds, -⟩ := hmiddle.pastNewlines.advance hclose nofun
  have hin : c.advance.Takes 0 middle := .skipWhile Mirrors.plain_of_newline htakes
  have hout : middle.Takes 1 middle.pastNewlines.advance :=
    .skipWhile Mirrors.plain_of_newline (.passing .rparen hkinds (.refl _))
  obtain ⟨own, hgroup, hown⟩ := hin.trans hout
  rw [hgroup]
  exact hown.closes _

end Mirrored

/-- **What is read before the end is read before a seam.** -/
theorem mirrored (more : Option (List TokenKind)) (fuel : Nat) :
    ∀ fuel', fuel ≤ fuel' → Mirrored more fuel fuel' := by
  induction fuel using Nat.strong_induction_on with
  | _ fuel ih =>
    intro fuel' hle
    cases fuel with
    | zero =>
      constructor <;> intros
      case parameters => exact .failHere _
      all_goals exact .failDeep _
    | succ fuel =>
      obtain ⟨fuel', rfl⟩ : ∃ other, fuel' = other + 1 := ⟨fuel' - 1, by omega⟩
      have hfuel := ih fuel (Nat.lt_succ_self fuel) fuel' (by omega)
      have hlevels (levels : Nat) (hlt : levels < fuel) : Mirrored more levels levels :=
        ih levels (by omega) levels le_rfl
      exact {
        parameters := hfuel.succ_parameters
        statement := hfuel.succ_statement
        expressionStatement := hfuel.succ_expressionStatement
        declaration := hfuel.succ_declaration
        conditionalStatement := hfuel.succ_conditionalStatement
        branchBody := hfuel.succ_branchBody
        block := hfuel.succ_block
        blockStatements := hfuel.succ_blockStatements
        assignment := fun inBody {_ _} h => hfuel.succ_assignment inBody h fun _ _ hrun hk =>
          Mirrored.closes_of_conditional hlevels h hrun hk
        arrow := hfuel.succ_arrow
        conditional := hfuel.succ_conditional
        binary := hfuel.succ_binary
        binaryRest := hfuel.succ_binaryRest
        unary := hfuel.succ_unary
        suffixes := hfuel.succ_suffixes
        arguments := hfuel.succ_arguments
        elements := hfuel.succ_elements
        primary := hfuel.succ_primary
        properties := hfuel.succ_properties
        construction := hfuel.succ_construction
        calleeSuffixes := hfuel.succ_calleeSuffixes }

end Parser

end Doctest.Script
