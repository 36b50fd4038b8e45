import Doctest.Proofs.Script.Parsing.Brackets

/-!
# The grammar of the script language

Some tokens are a piece of a syntax tree by one rule for each form that the piece may have. What
stands between two statements of a list is a parameter of the grammar. The spans of a tree are those
of its tokens, brackets match among the tokens of each piece, and the first token of a statement can
be neither a separator nor a closing brace.
-/

namespace Doctest.Script

/-! ### Tokens -/

/-- Line breaks only. -/
def Feeds (gap : List Token) : Prop :=
  ∀ token ∈ gap, token.kind = .newline

/-- Line breaks and semicolons only. -/
def Separators (gap : List Token) : Prop :=
  ∀ token ∈ gap, token.kind.separates = true

theorem Feeds.nil : Feeds [] :=
  nofun

theorem Separators.nil : Separators [] :=
  nofun

theorem Separators.append {gap gap' : List Token} (h : Separators gap) (h' : Separators gap') :
    Separators (gap ++ gap') := by
  intro token hmem
  cases List.mem_append.mp hmem with
  | inl hfirst => exact h token hfirst
  | inr hsecond => exact h' token hsecond

/-- The span of the last of some tokens. -/
def lastSpan (own : List Token) : Span :=
  (own.getLast?.map Token.span).getD ⟨0, 0⟩

/-- The span from the first to the last of some tokens. -/
def spanAround (own : List Token) : Span :=
  ((own.head?.map Token.span).getD ⟨0, 0⟩).join (lastSpan own)

@[simp] theorem lastSpan_concat (own : List Token) (last : Token) :
    lastSpan (own ++ [last]) = last.span := by
  rw [lastSpan, List.getLast?_concat]
  rfl

@[simp] theorem lastSpan_bracketed (first last : Token) (own : List Token) :
    lastSpan (first :: (own ++ [last])) = last.span :=
  lastSpan_concat (first :: own) last

@[simp] theorem spanAround_bracketed (first last : Token) (own : List Token) :
    spanAround (first :: (own ++ [last])) = first.span.join last.span := by
  rw [spanAround, lastSpan_bracketed]
  rfl

/-- The closing bracket for an opening one. -/
def Symbol.partner? : Symbol → Option Symbol
  | .lparen => some .rparen
  | .lbracket => some .rbracket
  | .lbrace => some .rbrace
  | _ => none

/-! ### Pieces of trees -/

/-- A piece of a syntax tree. -/
inductive Phrase where
  | expr (value : Expr)
  /-- An expression with line breaks around it. -/
  | padded (value : Expr)
  /-- Expressions with commas between them. -/
  | items (values : List Expr)
  /-- A key of an object with its value. -/
  | member (key : String) (value : Expr)
  /-- Keys with their values, with commas between them. -/
  | members (properties : List (String × Expr))
  /-- Names with commas between them. -/
  | names (params : List String)
  /-- The parameters of an arrow function: one name, or names in parentheses. -/
  | params (params : List String)
  | body (body : Body)
  | stmt (stmt : Stmt)
  /-- Statements one after the other. -/
  | stmts (stmts : List Stmt)
  /-- Statements with separators around them. -/
  | spaced (stmts : List Stmt)
  /-- A branch of an `if`: statements between braces, or one statement. -/
  | branch (stmts : List Stmt)
  /-- A piece between an opening bracket and its partner. -/
  | enclosed (left : Symbol) (inside : Phrase)

/-- Some tokens are a piece of a tree. Of two statements of a list, `apart` is asked of the tokens
of the first one, of that statement, and of the tokens between the two. -/
inductive Forms (apart : List Token → Stmt → List Token → Prop) : List Token → Phrase → Prop
  | enclosed {first last : Token} {own : List Token} {left right : Symbol} {inside : Phrase}
    (hpartner : left.partner? = some right) (hfirst : first.kind = .symbol left)
    (h : Forms apart own inside) (hlast : last.kind = .symbol right) :
    Forms apart (first :: (own ++ [last])) (.enclosed left inside)
  | padded {gap own gap' : List Token} {e : Expr} (hgap : Feeds gap) (h : Forms apart own (.expr e))
    (hgap' : Feeds gap') : Forms apart (gap ++ (own ++ gap')) (.padded e)
  -- Operands
  | atom {token : Token} {make : Span → Expr} (h : token.kind.atom? = some make) :
    Forms apart [token] (.expr (make token.span))
  | group {own : List Token} {e : Expr} (h : Forms apart own (.enclosed .lparen (.padded e))) :
    Forms apart own (.expr e)
  | array {own : List Token} {es : List Expr}
    (h : Forms apart own (.enclosed .lbracket (.items es))) :
    Forms apart own (.expr (.array es (spanAround own)))
  | object {own : List Token} {props : List (String × Expr)}
    (h : Forms apart own (.enclosed .lbrace (.members props))) :
    Forms apart own (.expr (.object props (spanAround own)))
  | member {own gap : List Token} {dot word : Token} {e : Expr} {name : String}
    (h : Forms apart own (.expr e)) (hgap : Feeds gap) (hdot : dot.kind = .symbol .dot)
    (hname : Parser.propertyName? word.kind = some name) :
    Forms apart (own ++ (gap ++ [dot, word])) (.expr (.member e name (e.span.join word.span)))
  | index {own inside : List Token} {e key : Expr} (h : Forms apart own (.expr e))
    (hkey : Forms apart inside (.enclosed .lbracket (.padded key))) :
    Forms apart (own ++ inside) (.expr (.index e key (e.span.join (lastSpan inside))))
  | call {own inside : List Token} {e : Expr} {args : List Expr} (h : Forms apart own (.expr e))
    (hargs : Forms apart inside (.enclosed .lparen (.items args))) :
    Forms apart (own ++ inside) (.expr (.call e args (e.span.join (lastSpan inside))))
  | construct {word : Token} {own : List Token} {e : Expr} (hword : word.kind = .keyword .kwNew)
    (h : Forms apart own (.expr e)) :
    Forms apart (word :: own) (.expr (.construct e [] (spanAround (word :: own))))
  | constructWith {word : Token} {own inside : List Token} {e : Expr} {args : List Expr}
    (hword : word.kind = .keyword .kwNew) (h : Forms apart own (.expr e))
    (hargs : Forms apart inside (.enclosed .lparen (.items args))) :
    Forms apart (word :: (own ++ inside))
      (.expr (.construct e args (spanAround (word :: (own ++ inside)))))
  | arrow {own gap inside : List Token} {mark : Token} {params : List String} {body : Body}
    (hparams : Forms apart own (.params params)) (hmark : mark.kind = .symbol .arrow)
    (hgap : Feeds gap) (hbody : Forms apart inside (.body body)) :
    Forms apart (own ++ mark :: (gap ++ inside))
      (.expr (.arrow params body (spanAround (own ++ mark :: (gap ++ inside)))))
  -- Operators
  | unary {mark : Token} {own : List Token} {op : UnaryOp} {e : Expr}
    (hmark : mark.kind.unary? = some op) (h : Forms apart own (.expr e)) :
    Forms apart (mark :: own) (.expr (.unary op e (mark.span.join e.span)))
  | operator {own gap gap' other : List Token} {mark : Token} {op : Infix} {left right : Expr}
    (hleft : Forms apart own (.expr left)) (hgap : Feeds gap) (hmark : mark.kind.infix? = some op)
    (hgap' : Feeds gap') (hright : Forms apart other (.expr right)) :
    Forms apart (own ++ (gap ++ mark :: (gap' ++ other))) (.expr (op.build left right))
  | conditional {own gap inside gap' other : List Token} {mark colon : Token} {test yes no : Expr}
    (htest : Forms apart own (.expr test)) (hgap : Feeds gap)
    (hmark : mark.kind = .symbol .question) (hyes : Forms apart inside (.padded yes))
    (hcolon : colon.kind = .symbol .colon) (hgap' : Feeds gap')
    (hno : Forms apart other (.expr no)) :
    Forms apart (own ++ (gap ++ mark :: (inside ++ colon :: (gap' ++ other))))
      (.expr (.conditional test yes no (test.span.join no.span)))
  | assign {own gap other : List Token} {mark : Token} {op : Option BinaryOp} {target value : Expr}
    (htarget : Forms apart own (.expr target)) (his : target.isTarget = true)
    (hmark : mark.kind.assignment? = some op) (hgap : Feeds gap)
    (hvalue : Forms apart other (.expr value)) :
    Forms apart (own ++ mark :: (gap ++ other))
      (.expr (.assign target op value (target.span.join value.span)))
  -- Lists within brackets
  | noItems {gap : List Token} (hgap : Feeds gap) : Forms apart gap (.items [])
  | lastItem {own : List Token} {e : Expr} (h : Forms apart own (.padded e)) :
    Forms apart own (.items [e])
  | nextItem {own rest : List Token} {comma : Token} {e : Expr} {es : List Expr}
    (h : Forms apart own (.padded e)) (hcomma : comma.kind = .symbol .comma)
    (hrest : Forms apart rest (.items es)) :
    Forms apart (own ++ comma :: rest) (.items (e :: es))
  | keyed {key colon : Token} {gap own : List Token} {name : String} {e : Expr}
    (hkey : Parser.keyOf? key.kind = some name) (hcolon : colon.kind = .symbol .colon)
    (hgap : Feeds gap) (h : Forms apart own (.expr e)) :
    Forms apart (key :: colon :: (gap ++ own)) (.member name e)
  | shorthand {key : Token} {name : String} (hkey : key.kind = .ident name) :
    Forms apart [key] (.member name (.ident name key.span))
  | noMembers {gap : List Token} (hgap : Feeds gap) : Forms apart gap (.members [])
  | lastMember {gap own gap' : List Token} {name : String} {e : Expr} (hgap : Feeds gap)
    (h : Forms apart own (.member name e)) (hgap' : Feeds gap') :
    Forms apart (gap ++ (own ++ gap')) (.members [(name, e)])
  | nextMember {gap own gap' rest : List Token} {comma : Token} {name : String} {e : Expr}
    {props : List (String × Expr)} (hgap : Feeds gap) (h : Forms apart own (.member name e))
    (hgap' : Feeds gap') (hcomma : comma.kind = .symbol .comma)
    (hrest : Forms apart rest (.members props)) :
    Forms apart (gap ++ (own ++ (gap' ++ comma :: rest))) (.members ((name, e) :: props))
  | noNames {gap : List Token} (hgap : Feeds gap) : Forms apart gap (.names [])
  | lastName {gap gap' : List Token} {word : Token} {name : String} (hgap : Feeds gap)
    (hname : word.kind = .ident name) (hgap' : Feeds gap') :
    Forms apart (gap ++ word :: gap') (.names [name])
  | nextName {gap gap' rest : List Token} {word comma : Token} {name : String}
    {params : List String} (hgap : Feeds gap) (hname : word.kind = .ident name)
    (hgap' : Feeds gap') (hcomma : comma.kind = .symbol .comma)
    (hrest : Forms apart rest (.names params)) :
    Forms apart (gap ++ word :: (gap' ++ comma :: rest)) (.names (name :: params))
  -- Arrow functions
  | param {word : Token} {name : String} (hname : word.kind = .ident name) :
    Forms apart [word] (.params [name])
  | params {own : List Token} {params : List String}
    (h : Forms apart own (.enclosed .lparen (.names params))) : Forms apart own (.params params)
  | value {own : List Token} {e : Expr} (h : Forms apart own (.expr e)) :
    Forms apart own (.body (.expr e))
  | run {own : List Token} {stmts : List Stmt}
    (h : Forms apart own (.enclosed .lbrace (.spaced stmts))) :
    Forms apart own (.body (.block stmts))
  -- Statements
  | effect {own : List Token} {e : Expr} (h : Forms apart own (.expr e)) :
    Forms apart own (.stmt (.expr e e.span))
  | declare {word ident : Token} {kind : DeclKind} {name : String}
    (hword : word.kind.declaration? = some kind) (hname : ident.kind = .ident name) :
    Forms apart [word, ident] (.stmt (.declare kind name none (spanAround [word, ident])))
  | declareAs {word ident mark : Token} {gap own : List Token} {kind : DeclKind} {name : String}
    {e : Expr} (hword : word.kind.declaration? = some kind) (hname : ident.kind = .ident name)
    (hmark : mark.kind = .symbol .assign) (hgap : Feeds gap) (h : Forms apart own (.expr e)) :
    Forms apart (word :: ident :: mark :: (gap ++ own)) (.stmt (.declare kind name (some e)
      (spanAround (word :: ident :: mark :: (gap ++ own)))))
  | throwing {word : Token} {own : List Token} {e : Expr} (hword : word.kind = .keyword .kwThrow)
    (h : Forms apart own (.expr e)) :
    Forms apart (word :: own) (.stmt (.throwing e (word.span.join e.span)))
  | leaving {word : Token} (hword : word.kind = .keyword .kwReturn) :
    Forms apart [word] (.stmt (.returning none word.span))
  | returning {word : Token} {own : List Token} {e : Expr} (hword : word.kind = .keyword .kwReturn)
    (h : Forms apart own (.expr e)) :
    Forms apart (word :: own) (.stmt (.returning (some e) (word.span.join e.span)))
  | branch {word : Token} {own gap inside : List Token} {test : Expr} {yes : List Stmt}
    (hword : word.kind = .keyword .kwIf)
    (htest : Forms apart own (.enclosed .lparen (.padded test))) (hgap : Feeds gap)
    (hyes : Forms apart inside (.branch yes)) :
    Forms apart (word :: (own ++ (gap ++ inside)))
      (.stmt (.branch test yes none (spanAround (word :: (own ++ (gap ++ inside))))))
  | branches {word : Token} {own gap inside gap' gap'' other : List Token} {mark : Token}
    {test : Expr} {yes no : List Stmt} (hword : word.kind = .keyword .kwIf)
    (htest : Forms apart own (.enclosed .lparen (.padded test))) (hgap : Feeds gap)
    (hyes : Forms apart inside (.branch yes)) (hgap' : Feeds gap')
    (hmark : mark.kind = .keyword .kwElse) (hgap'' : Feeds gap'')
    (hno : Forms apart other (.branch no)) :
    Forms apart (word :: (own ++ (gap ++ (inside ++ (gap' ++ mark :: (gap'' ++ other))))))
      (.stmt (.branch test yes (some no)
        (spanAround (word :: (own ++ (gap ++ (inside ++ (gap' ++ mark :: (gap'' ++ other)))))))))
  | block {own : List Token} {stmts : List Stmt}
    (h : Forms apart own (.enclosed .lbrace (.spaced stmts))) :
    Forms apart own (.stmt (.block stmts (spanAround own)))
  | braced {own : List Token} {stmts : List Stmt}
    (h : Forms apart own (.enclosed .lbrace (.spaced stmts))) : Forms apart own (.branch stmts)
  | single {own : List Token} {stmt : Stmt} (h : Forms apart own (.stmt stmt)) :
    Forms apart own (.branch [stmt])
  | spaced {gap own gap' : List Token} {stmts : List Stmt} (hgap : Separators gap)
    (h : Forms apart own (.stmts stmts)) (hgap' : Separators gap') :
    Forms apart (gap ++ (own ++ gap')) (.spaced stmts)
  | noStmts : Forms apart [] (.stmts [])
  | lastStmt {own : List Token} {stmt : Stmt} (h : Forms apart own (.stmt stmt)) :
    Forms apart own (.stmts [stmt])
  | nextStmt {own gap rest : List Token} {stmt next : Stmt} {stmts : List Stmt}
    (h : Forms apart own (.stmt stmt)) (hgap : Separators gap) (hapart : apart own stmt gap)
    (hrest : Forms apart rest (.stmts (next :: stmts))) :
    Forms apart (own ++ (gap ++ rest)) (.stmts (stmt :: next :: stmts))

variable {apart : List Token → Stmt → List Token → Prop} {own : List Token} {phrase : Phrase}

/-! ### The first token -/

/-- Whether an expression or a statement may begin with a token. -/
def TokenKind.leads : TokenKind → Bool
  | .keyword word => word ≠ .kwElse
  | kind => kind.begins

theorem TokenKind.leads_of_begins {kind : TokenKind} (h : kind.begins = true) :
    kind.leads = true := by
  cases kind with
  | keyword word => cases word <;> first | rfl | cases h
  | _ => exact h

theorem TokenKind.begins_of_atom? {kind : TokenKind} {make : Span → Expr}
    (h : kind.atom? = some make) : kind.begins = true := by
  cases kind <;> first | rfl | cases h

theorem TokenKind.begins_of_unary? {kind : TokenKind} {op : UnaryOp} (h : kind.unary? = some op) :
    kind.begins = true := by
  cases kind with
  | symbol mark => cases mark <;> first | rfl | cases h
  | keyword word => cases word <;> first | rfl | cases h
  | _ => cases h

theorem TokenKind.leads_of_declaration? {kind : TokenKind} {found : DeclKind}
    (h : kind.declaration? = some found) : kind.leads = true := by
  cases kind with
  | keyword word => cases word <;> first | rfl | cases h
  | _ => cases h

theorem Symbol.begins_of_partner? {left right : Symbol} (h : left.partner? = some right) :
    (TokenKind.symbol left).begins = true := by
  cases left <;> first | rfl | cases h

/-- With these tokens an expression or a statement may begin. -/
def Leading (own : List Token) : Prop :=
  ∃ first more, own = first :: more ∧ first.kind.leads = true

theorem Leading.append (h : Leading own) (rest : List Token) : Leading (own ++ rest) := by
  obtain ⟨first, more, rfl, hleads⟩ := h
  exact ⟨first, more ++ rest, rfl, hleads⟩

theorem Leading.ne_nil (h : Leading own) : own ≠ [] := by
  obtain ⟨first, more, rfl, -⟩ := h
  exact List.cons_ne_nil first more

/-- Whether a piece of a tree is no list of others, and has no line breaks before it. -/
def Phrase.IsWhole : Phrase → Prop
  | .expr _ | .params _ | .body _ | .stmt _ | .branch _ | .enclosed .. => True
  | _ => False

theorem Forms.leading (h : Forms apart own phrase) : phrase.IsWhole → Leading own := by
  have hcons {token : Token} (more : List Token) {kind : TokenKind} (hkind : token.kind = kind)
      (hleads : kind.leads = true) : Leading (token :: more) :=
    ⟨token, more, rfl, hkind ▸ hleads⟩
  induction h with
  | padded | noItems | lastItem | nextItem | keyed | shorthand | noMembers | lastMember | nextMember
  | noNames | lastName | nextName | spaced | noStmts | lastStmt | nextStmt => exact False.elim
  | enclosed hpartner hfirst =>
    intro _
    exact hcons _ hfirst (TokenKind.leads_of_begins (Symbol.begins_of_partner? hpartner))
  | atom h => exact fun _ => hcons _ rfl (TokenKind.leads_of_begins (TokenKind.begins_of_atom? h))
  | unary hmark =>
    exact fun _ => hcons _ rfl (TokenKind.leads_of_begins (TokenKind.begins_of_unary? hmark))
  | construct hword | constructWith hword | throwing hword | leaving hword | returning hword
  | branch hword | branches hword => exact fun _ => hcons _ hword rfl
  | param hname => exact fun _ => hcons _ hname rfl
  | declare hword | declareAs hword =>
    exact fun _ => hcons _ rfl (TokenKind.leads_of_declaration? hword)
  | group _ ih | array _ ih | object _ ih | params _ ih | value _ ih | run _ ih | effect _ ih
  | block _ ih | braced _ ih | single _ ih => exact fun _ => ih trivial
  | member _ _ _ _ ih | index _ _ ih | call _ _ ih | arrow _ _ _ _ ih | operator _ _ _ _ _ ih
  | conditional _ _ _ _ _ _ _ ih | assign _ _ _ _ _ ih => exact fun _ => (ih trivial).append _

/-! ### Spans -/

/-- Spans that join those of some tokens. -/
inductive Joins (own : List Token) : Span → Prop
  | token {token : Token} (h : token ∈ own) : Joins own token.span
  | join {a b : Span} (ha : Joins own a) (hb : Joins own b) : Joins own (a.join b)

namespace Joins

variable {other : List Token} {span : Span}

theorem mono (h : Joins own span) (hsub : own ⊆ other) : Joins other span := by
  induction h with
  | token hmem => exact .token (hsub hmem)
  | join _ _ iha ihb => exact .join iha ihb

theorem lastSpan (h : own ≠ []) : Joins own (lastSpan own) := by
  rw [Script.lastSpan, List.getLast?_eq_getLast_of_ne_nil h]
  exact .token (List.getLast_mem h)

theorem spanAround (h : own ≠ []) : Joins own (spanAround own) := by
  refine .join ?_ (lastSpan h)
  rw [List.head?_eq_some_head h]
  exact .token (List.head_mem h)

end Joins

/-- The span of a piece of a tree that has one. -/
def Phrase.span? : Phrase → Option Span
  | .expr e | .padded e => some e.span
  | .stmt s => some s.span
  | .enclosed _ inside => inside.span?
  | _ => none

theorem Infix.span_build (op : Infix) (left right : Expr) :
    (op.build left right).span = left.span.join right.span := by
  obtain ⟨_ | _, _, _⟩ := op <;> rfl

/-- The span of an expression or a statement joins those of its tokens. -/
theorem Forms.joins (h : Forms apart own phrase) {span : Span} (hspan : phrase.span? = some span) :
    Joins own span := by
  have hclose {inside : List Token} {left : Symbol} {within : Phrase} (own : List Token)
      (h : Forms apart inside (.enclosed left within)) : Joins (own ++ inside) (lastSpan inside) :=
    (Joins.lastSpan (h.leading trivial).ne_nil).mono (List.subset_append_right _ _)
  induction h generalizing span with
  | noItems | lastItem | nextItem | keyed | shorthand | noMembers | lastMember | nextMember
  | noNames | lastName | nextName | param | params | value | run | braced | single | spaced
  | noStmts | lastStmt | nextStmt => cases hspan
  | enclosed _ _ _ _ ih => exact (ih hspan).mono (List.subset_cons_of_subset _ (by simp))
  | padded _ _ _ ih => exact (ih hspan).mono (by simp)
  | group _ ih => exact ih hspan
  | atom h =>
    cases hspan
    have hmake {make : Span → Expr} {kind : TokenKind} (h : kind.atom? = some make) (span : Span) :
        (make span).span = span := by
      cases kind <;> cases h <;> rfl
    rw [hmake h]
    exact .token List.mem_cons_self
  | array h | object h | block h =>
    cases hspan
    exact .spanAround (h.leading trivial).ne_nil
  | arrow hparams =>
    cases hspan
    exact .spanAround ((hparams.leading trivial).append _).ne_nil
  | construct | constructWith | declare | declareAs | branch | branches =>
    cases hspan
    exact .spanAround (List.cons_ne_nil _ _)
  | member _ _ _ _ ih =>
    cases hspan
    exact .join ((ih rfl).mono (List.subset_append_left _ _)) (.token (by simp))
  | index _ hkey ih =>
    cases hspan
    exact .join ((ih rfl).mono (List.subset_append_left _ _)) (hclose _ hkey)
  | call _ hargs ih =>
    cases hspan
    exact .join ((ih rfl).mono (List.subset_append_left _ _)) (hclose _ hargs)
  | unary _ _ ih | throwing _ _ ih | returning _ _ ih =>
    cases hspan
    exact .join (.token List.mem_cons_self) ((ih rfl).mono (List.subset_cons_self _ _))
  | operator _ _ _ _ _ ihleft ihright =>
    cases hspan
    rw [Infix.span_build]
    exact .join ((ihleft rfl).mono (by simp)) ((ihright rfl).mono fun _ hmem => by simp [hmem])
  | conditional _ _ _ _ _ _ _ ihtest _ ihno =>
    cases hspan
    exact .join ((ihtest rfl).mono (by simp)) ((ihno rfl).mono fun _ hmem => by simp [hmem])
  | assign _ _ _ _ _ ihtarget ihvalue =>
    cases hspan
    exact .join ((ihtarget rfl).mono (by simp)) ((ihvalue rfl).mono fun _ hmem => by simp [hmem])
  | effect _ ih =>
    cases hspan
    exact ih rfl
  | leaving =>
    cases hspan
    exact .token List.mem_cons_self

/-! ### Brackets -/

/-- The closing brackets. -/
def Symbol.isClosing : Symbol → Bool
  | .rparen | .rbracket | .rbrace => true
  | _ => false

/-- A token that is no bracket and not the end. -/
def TokenKind.isFlat : TokenKind → Bool
  | .symbol mark => mark.partner?.isNone && !mark.isClosing
  | .eof => false
  | _ => true

/-- A token that is taken for something, where neither brackets nor the end are. -/
theorem TokenKind.isFlat_of_some {α : Type} {reads : TokenKind → Option α} {found : α}
    {kind : TokenKind} (h : reads kind = some found) (heof : reads .eof = none)
    (hbracket : ∀ mark, (TokenKind.symbol mark).isFlat = false → reads (.symbol mark) = none) :
    kind.isFlat = true := by
  cases kind with
  | eof =>
    rw [heof] at h
    cases h
  | symbol mark =>
    by_contra hflat
    rw [hbracket mark (Bool.eq_false_iff.mpr hflat)] at h
    cases h
  | _ => rfl

/-- Tokens among which each bracket has its partner. -/
inductive Matched : List Token → Prop
  | nil : Matched []
  | flat {token : Token} {rest : List Token} (hflat : token.kind.isFlat = true)
    (h : Matched rest) : Matched (token :: rest)
  | pair {first last : Token} {left right : Symbol} {inside rest : List Token}
    (hpartner : left.partner? = some right) (hfirst : first.kind = .symbol left)
    (hinside : Matched inside) (hlast : last.kind = .symbol right) (h : Matched rest) :
    Matched (first :: (inside ++ last :: rest))

namespace Matched

variable {other : List Token}

theorem append (h : Matched own) (hother : Matched other) : Matched (own ++ other) := by
  induction h with
  | nil => exact hother
  | flat hflat _ ih => exact .flat hflat ih
  | pair hpartner hfirst hinside hlast _ _ ih =>
    rw [List.cons_append, List.append_assoc, List.cons_append]
    exact .pair hpartner hfirst hinside hlast ih

theorem of_flat (h : ∀ token ∈ own, token.kind.isFlat = true) : Matched own := by
  induction own with
  | nil => exact .nil
  | cons token own ih =>
    obtain ⟨hflat, hown⟩ := List.forall_mem_cons.mp h
    exact .flat hflat (ih hown)

theorem feeds (h : Feeds own) : Matched own :=
  of_flat fun token hmem => h token hmem ▸ rfl

theorem separators (h : Separators own) : Matched own := by
  refine of_flat fun token hmem => ?_
  have hseparates := h token hmem
  unfold TokenKind.separates at hseparates
  obtain hfeed | hsemi := of_decide_eq_true hseparates
  · exact hfeed ▸ rfl
  · exact hsemi ▸ rfl

/-- Tokens with a flat one of a known kind before them. -/
theorem behind {token : Token} {kind : TokenKind} (hkind : token.kind = kind)
    (hflat : kind.isFlat = true) (h : Matched own) : Matched (token :: own) :=
  .flat (hkind ▸ hflat) h

/-- Tokens with one before them that is taken for something. -/
theorem read {α : Type} {reads : TokenKind → Option α} {token : Token} {found : α}
    (hread : reads token.kind = some found) (heof : reads .eof = none)
    (hbracket : ∀ mark, (TokenKind.symbol mark).isFlat = false → reads (.symbol mark) = none)
    (h : Matched own) : Matched (token :: own) :=
  .flat (TokenKind.isFlat_of_some hread heof hbracket) h

end Matched

/-- Among the tokens of a piece of a tree each bracket has its partner. -/
theorem Forms.matched (h : Forms apart own phrase) : Matched own := by
  induction h with
  | noItems hgap | noMembers hgap | noNames hgap => exact .feeds hgap
  | noStmts => exact .nil
  | group _ ih | array _ ih | object _ ih | lastItem _ ih | params _ ih | value _ ih | run _ ih
  | effect _ ih | block _ ih | braced _ ih | single _ ih | lastStmt _ ih => exact ih
  | enclosed hpartner hfirst _ hlast ih => exact .pair hpartner hfirst ih hlast .nil
  | padded hgap _ hgap' ih | lastMember hgap _ hgap' ih =>
    exact (Matched.feeds hgap).append (ih.append (.feeds hgap'))
  | spaced hgap _ hgap' ih =>
    exact (Matched.separators hgap).append (ih.append (.separators hgap'))
  | nextStmt _ hgap _ _ ih ihrest => exact ih.append ((Matched.separators hgap).append ihrest)
  | atom h => exact .read h rfl (fun mark _ => rfl) .nil
  | shorthand hname | param hname => exact .behind hname rfl .nil
  | leaving hword => exact .behind hword rfl .nil
  | construct hword _ ih | throwing hword _ ih | returning hword _ ih => exact .behind hword rfl ih
  | constructWith hword _ _ ih ihargs => exact .behind hword rfl (ih.append ihargs)
  | member _ hgap hdot hname ih =>
    refine ih.append ((Matched.feeds hgap).append (.behind hdot rfl (.read hname rfl ?_ .nil)))
    exact fun _ _ => rfl
  | index _ _ ih ihkey => exact ih.append ihkey
  | call _ _ ih ihargs => exact ih.append ihargs
  | arrow _ hmark hgap _ ih ihbody =>
    exact ih.append (.behind hmark rfl ((Matched.feeds hgap).append ihbody))
  | unary hmark _ ih =>
    refine .read hmark rfl (fun mark hflat => ?_) ih
    cases mark <;> first | rfl | cases hflat
  | operator _ hgap hmark hgap' _ ih ihright =>
    refine ih.append ((Matched.feeds hgap).append (.read hmark rfl (fun mark hflat => ?_)
      ((Matched.feeds hgap').append ihright)))
    cases mark <;> first | rfl | cases hflat
  | conditional _ hgap hmark _ hcolon hgap' _ ih ihyes ihno =>
    exact ih.append ((Matched.feeds hgap).append (.behind hmark rfl (ihyes.append
      (.behind hcolon rfl ((Matched.feeds hgap').append ihno)))))
  | assign _ _ hmark hgap _ ih ihvalue =>
    refine ih.append (.read hmark rfl (fun mark hflat => ?_) ((Matched.feeds hgap).append ihvalue))
    cases mark <;> first | rfl | cases hflat
  | nextItem _ hcomma _ ih ihrest => exact ih.append (.behind hcomma rfl ihrest)
  | keyed hkey hcolon hgap _ ih =>
    exact .read hkey rfl (fun _ _ => rfl) (.behind hcolon rfl ((Matched.feeds hgap).append ih))
  | nextMember hgap _ hgap' hcomma _ ih ihrest =>
    exact (Matched.feeds hgap).append (ih.append ((Matched.feeds hgap').append
      (.behind hcomma rfl ihrest)))
  | lastName hgap hname hgap' =>
    exact (Matched.feeds hgap).append (.behind hname rfl (.feeds hgap'))
  | nextName hgap hname hgap' hcomma _ ih =>
    exact (Matched.feeds hgap).append (.behind hname rfl ((Matched.feeds hgap').append
      (.behind hcomma rfl ih)))
  | declare hword hname =>
    exact .read hword rfl (fun _ _ => rfl) (.behind hname rfl .nil)
  | declareAs hword hname hmark hgap _ ih =>
    exact .read hword rfl (fun _ _ => rfl) (.behind hname rfl (.behind hmark rfl
      ((Matched.feeds hgap).append ih)))
  | branch hword _ hgap _ ih ihyes =>
    exact .behind hword rfl (ih.append ((Matched.feeds hgap).append ihyes))
  | branches hword _ hgap _ hgap' hmark hgap'' _ ih ihyes ihno =>
    exact .behind hword rfl (ih.append ((Matched.feeds hgap).append (ihyes.append
      ((Matched.feeds hgap').append (.behind hmark rfl ((Matched.feeds hgap'').append ihno))))))

end Doctest.Script
