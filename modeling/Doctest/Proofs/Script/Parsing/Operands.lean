import Doctest.Proofs.Script.Parsing.Reads

/-!
# Tokens that are expressions

Some tokens are read as an expression with a property wherever they stand before a token that no
expression goes on with. What is known of the operands gives what is known of the whole, one rule
for each sort of expression. The levels that a parser is granted are counted against the tokens.
-/

namespace Doctest.Script

/-! ### Tokens before and behind an expression -/

/-- Whether no expression goes on with a token. -/
def TokenKind.ends : TokenKind → Bool
  | .eof | .symbol .rparen | .symbol .rbracket | .symbol .rbrace | .symbol .comma
  | .symbol .colon | .symbol .semi => true
  | _ => false

/-- Whether an operand goes on with a token: with a call, a property, or on the next line. -/
def TokenKind.isSuffix : TokenKind → Bool
  | .symbol .lparen | .symbol .dot | .symbol .lbracket | .newline => true
  | _ => false

/-- Whether an expression may begin with a token. -/
def TokenKind.begins : TokenKind → Bool
  | .number _ | .string _ | .bool _ | .null | .undefined | .ident _ => true
  | .symbol .lparen | .symbol .lbracket | .symbol .lbrace => true
  | .symbol .bang | .symbol .minus | .symbol .plus => true
  | .keyword .kwNew | .keyword .kwTypeof => true
  | _ => false

/-- The literal or name that a token is. -/
def TokenKind.atom? : TokenKind → Option (Span → Expr)
  | .number x => some (.number x)
  | .string s => some (.string s)
  | .bool b => some (.bool b)
  | .null => some .null
  | .undefined => some .undefined
  | .ident name => some (.ident name)
  | _ => none

/-- What a token that no expression goes on with is not. -/
structure TokenKind.Ending (k : TokenKind) : Prop where
  suffix : k.isSuffix = false
  operator : k.infix? = none
  question : k ≠ .symbol .question
  assignment : k.assignment? = none
  arrow : k ≠ .symbol .arrow
  newline : k ≠ .newline

theorem TokenKind.ending {k : TokenKind} (h : k.ends = true) : k.Ending := by
  cases k with
  | symbol mark => cases mark <;>
      first | exact absurd h (by decide) | exact ⟨rfl, rfl, nofun, rfl, nofun, nofun⟩
  | eof => exact ⟨rfl, rfl, nofun, rfl, nofun, nofun⟩
  | _ => cases h

theorem TokenKind.ne_of_begins {k other : TokenKind} (h : k.begins = true)
    (hother : other.begins = false) : k ≠ other := by
  rintro rfl
  rw [h] at hother
  cases hother

/-! ### Where an arrow function begins -/

/-- Groups that open among some tokens are closed there, and none is closed that opened before. -/
def Enclosed (own : List TokenKind) : Prop :=
  ∀ depth rest, arrowAfter (depth + 1) (own ++ rest) = arrowAfter (depth + 1) rest

namespace Enclosed

variable {own other : List TokenKind}

theorem nil : Enclosed [] :=
  fun _ _ => rfl

theorem append (h : Enclosed own) (hother : Enclosed other) : Enclosed (own ++ other) := by
  intro depth rest
  rw [List.append_assoc, h, hother]

theorem plain {k : TokenKind} (hk : k.Plain) (h : Enclosed own) : Enclosed (k :: own) := by
  intro depth rest
  rw [List.cons_append, hk.arrowAfter, h]

theorem between {k : TokenKind} (h : Enclosed own) (hk : k.Plain) (hother : Enclosed other) :
    Enclosed (own ++ k :: other) :=
  h.append (hother.plain hk)

theorem group (h : Enclosed own) :
    Enclosed (.symbol .lparen :: (own ++ [.symbol .rparen])) := by
  intro depth rest
  change arrowAfter (depth + 2) (own ++ [.symbol .rparen] ++ rest) = _
  rw [List.append_assoc, h]
  rfl

end Enclosed

section Arrows

variable {c : Cursor} {k : TokenKind} {own rest : List TokenKind}

theorem startsArrow_eq_false (hc : c.kinds = k :: rest) (hident : ∀ name, k ≠ .ident name)
    (hgroup : k ≠ .symbol .lparen) : c.startsArrow = false := by
  unfold Cursor.startsArrow
  rw [Cursor.kindAt_zero_of_kinds hc]
  split
  · exact absurd rfl (hident _)
  · exact absurd rfl hgroup
  · rfl

/-- A name is a parameter only if an arrow follows. -/
theorem startsArrow_ident {name : String} (hc : c.kinds = .ident name :: k :: rest)
    (hk : k ≠ .symbol .arrow) : c.startsArrow = false := by
  have hnext : c.kindAt 1 = k := by
    rw [Cursor.kindAt_eq, hc]
    rfl
  unfold Cursor.startsArrow
  rw [Cursor.kindAt_zero_of_kinds hc]
  exact decide_eq_false (hnext ▸ hk)

/-- A group holds parameters only if an arrow follows. -/
theorem startsArrow_group (h : Enclosed own)
    (hc : c.kinds = .symbol .lparen :: (own ++ .symbol .rparen :: rest)) :
    c.startsArrow = decide (rest.head? = some (.symbol .arrow)) := by
  have hkind := Cursor.kindAt_zero_of_kinds hc
  obtain ⟨inside, hinside, hadvance⟩ := Cursor.exists_of_kindAt_zero hkind nofun
  obtain rfl := List.tail_eq_of_cons_eq (hc.symm.trans hinside)
  unfold Cursor.startsArrow
  rw [hkind]
  dsimp only
  rw [arrowAfterGroup_zero hkind, hadvance, h]
  rfl

end Arrows

/-! ### Three sorts of tokens -/

namespace Parser

/-- Some tokens are an expression that may stand wherever an expression may. -/
structure IsExpr (own : List TokenKind) (result : Expr → Prop) : Prop where
  head : ∃ k more, own = k :: more ∧ k.begins = true
  reads : ∀ {fuel inBody c k rest}, k.ends = true → c.kinds = own ++ k :: rest →
    10 * own.length + 4 ≤ fuel → Reads (k :: rest) result c (assignment fuel inBody)

/-- Some tokens are an operand that may stand beside operators. -/
structure IsOperand (own : List TokenKind) (result : Expr → Prop) : Prop where
  head : ∃ k more, own = k :: more ∧ k.begins = true
  noArrow : ∀ {c : Cursor} {k rest}, k ≠ .symbol .arrow → c.kinds = own ++ k :: rest →
    c.startsArrow = false
  reads : ∀ {fuel inBody c k rest}, k.isSuffix = false → c.kinds = own ++ k :: rest →
    10 * own.length + 1 ≤ fuel → Reads (k :: rest) result c (unary fuel inBody)

/-- Some tokens are an operand that properties may be read of. -/
structure IsPrimary (own : List TokenKind) (result : Expr → Prop) : Prop where
  head : ∃ k more, own = k :: more ∧ k.begins = true ∧ k.unary? = none
  noArrow : ∀ {c : Cursor} {k rest}, k ≠ .symbol .arrow → c.kinds = own ++ k :: rest →
    c.startsArrow = false
  reads : ∀ {fuel inBody c rest}, c.kinds = own ++ rest → 10 * own.length ≤ fuel →
    Reads rest result c (primary fuel inBody)

variable {own rest : List TokenKind} {result : Expr → Prop} {c : Cursor} {k : TokenKind}
  {fuel : Nat} {inBody : Bool}

/-- One of the levels that are granted is used. -/
theorem exists_level {need fuel : Nat} (h : need + 1 ≤ fuel) : ∃ n, fuel = n + 1 ∧ need ≤ n :=
  ⟨fuel - 1, by omega, by omega⟩

theorem suffixes_reads (operand : Expr) (hk : k.isSuffix = false) (hc : c.kinds = k :: rest) :
    Reads (k :: rest) (· = operand) c (suffixes (fuel + 1) inBody operand) := by
  rw [suffixes]
  refine .kind hc ?_
  split
  · cases hk
  · cases hk
  · cases hk
  · cases hk
  · exact .pure hc rfl

/-- What stands behind an operand with the operator that was found there, if there is one. -/
def afterOperand (fuel : Nat) (inBody : Bool) (least : Nat) (left : Expr) :
    Option Infix → Parser Expr
  | none => pure left
  | some op =>
    if op.left < least then pure left
    else do
      modify Cursor.advance
      Parser.skipNewlines
      let right ← binary fuel inBody op.right
      binaryRest fuel inBody least (op.build left right)

/-- Whether line breaks are passed over or not, it is the next token that may be an operator. -/
theorem binaryRest_next {least : Nat} {left : Expr} {middle : List TokenKind}
    {whole : Expr → Prop} (hfeed : k ≠ .newline) (hc : c.kinds = k :: middle)
    (h : ∀ c', c'.kinds = k :: middle →
      Reads rest whole c' (afterOperand fuel inBody least left k.infix?)) :
    Reads rest whole c (binaryRest (fuel + 1) inBody least left) := by
  have hnext {c : Cursor} (hc : c.kinds = k :: middle) : Reads rest whole c
      (Parser.kind >>= fun kind => afterOperand fuel inBody least left kind.infix?) :=
    .kind hc (h c hc)
  unfold afterOperand at hnext
  rw [binaryRest]
  refine .get ?_
  split
  · exact .skipNewlines hc (fun h => hfeed (Option.some.inj h)) fun c' hc' => hnext hc'
  · exact hnext hc

theorem binaryRest_reads (least : Nat) (left : Expr) (hk : k.infix? = none) (hfeed : k ≠ .newline)
    (hc : c.kinds = k :: rest) :
    Reads (k :: rest) (· = left) c (binaryRest (fuel + 1) inBody least left) := by
  refine binaryRest_next hfeed hc fun c' hc' => ?_
  rw [hk]
  exact .pure hc' rfl

/-! ### From operands to expressions -/

theorem IsExpr.mono {wider : Expr → Prop} (h : IsExpr own result)
    (hwider : ∀ e, result e → wider e) : IsExpr own wider where
  head := h.head
  reads hk hc hfuel := (h.reads hk hc hfuel).mono hwider

theorem IsOperand.mono {wider : Expr → Prop} (h : IsOperand own result)
    (hwider : ∀ e, result e → wider e) : IsOperand own wider where
  head := h.head
  noArrow := h.noArrow
  reads hk hc hfuel := (h.reads hk hc hfuel).mono hwider

theorem IsPrimary.mono {wider : Expr → Prop} (h : IsPrimary own result)
    (hwider : ∀ e, result e → wider e) : IsPrimary own wider where
  head := h.head
  noArrow := h.noArrow
  reads hc hfuel := (h.reads hc hfuel).mono hwider

theorem IsPrimary.head_begins (h : IsPrimary own result) :
    ∃ k more, own = k :: more ∧ k.begins = true := by
  obtain ⟨k, more, hown, hbegins, -⟩ := h.head
  exact ⟨k, more, hown, hbegins⟩

/-- A primary expression with whatever suffixes stand behind it. -/
theorem IsPrimary.reads_unary {middle : List TokenKind} {whole : Expr → Prop}
    (h : IsPrimary own result) (hc : c.kinds = own ++ middle) (hfuel : 10 * own.length ≤ fuel)
    (hsuffixes : ∀ e c', c'.kinds = middle → result e →
      Reads rest whole c' (suffixes fuel inBody e)) :
    Reads rest whole c (unary (fuel + 1) inBody) := by
  obtain ⟨first, more, hown, -, hunary⟩ := h.head
  have hfirst : c.kinds = first :: (more ++ middle) := by rw [hc, hown, List.cons_append]
  rw [unary]
  refine .get (.kind hfirst ?_)
  rw [hunary]
  exact (h.reads hc hfuel).bind fun e c' hc' he => hsuffixes e c' hc' he

theorem IsPrimary.operand (h : IsPrimary own result) : IsOperand own result where
  head := h.head_begins
  noArrow := h.noArrow
  reads hk hc hfuel := by
    obtain ⟨fuel, rfl, hlevels⟩ := exists_level hfuel
    refine h.reads_unary hc hlevels fun e c' hc' he => ?_
    obtain ⟨first, more, rfl, -⟩ := h.head
    obtain ⟨fuel, rfl, -⟩ := exists_level (Nat.le_trans (Nat.le_add_left 10 _) hlevels)
    exact (suffixes_reads e hk hc').mono fun e' heq => heq ▸ he

theorem TokenKind.ne_newline_of_isSuffix (hk : k.isSuffix = false) : k ≠ .newline := by
  rintro rfl
  cases hk

namespace IsOperand

variable (h : IsOperand own result)
include h

/-- An operand with whatever operators stand behind it. -/
theorem reads_binary (least : Nat) {whole : Expr → Prop} {middle : List TokenKind}
    (hk : k.isSuffix = false) (hc : c.kinds = own ++ k :: middle)
    (hfuel : 10 * own.length + 1 ≤ fuel)
    (hrest : ∀ e c', c'.kinds = k :: middle → result e →
      Reads rest whole c' (binaryRest fuel inBody least e)) :
    Reads rest whole c (binary (fuel + 1) inBody least) := by
  rw [binary]
  exact (h.reads hk hc hfuel).bind fun e c' hc' he => hrest e c' hc' he

/-- An operand behind which no operator stands. -/
theorem reads_alone (least : Nat) (hk : k.isSuffix = false) (hoperator : k.infix? = none)
    (hc : c.kinds = own ++ k :: rest) (hfuel : 10 * own.length + 2 ≤ fuel) :
    Reads (k :: rest) result c (binary fuel inBody least) := by
  obtain ⟨fuel, rfl, hlevels⟩ := exists_level hfuel
  refine h.reads_binary least hk hc hlevels fun e c' hc' he => ?_
  obtain ⟨fuel, rfl, -⟩ := exists_level hlevels
  exact (binaryRest_reads least e hoperator (TokenKind.ne_newline_of_isSuffix hk) hc').mono
    fun e' heq => heq ▸ he

theorem reads_conditional (hk : k.isSuffix = false) (hoperator : k.infix? = none)
    (hquestion : k ≠ .symbol .question) (hc : c.kinds = own ++ k :: rest)
    (hfuel : 10 * own.length + 3 ≤ fuel) :
    Reads (k :: rest) result c (conditional fuel inBody) := by
  obtain ⟨fuel, rfl, hlevels⟩ := exists_level hfuel
  rw [conditional]
  refine (h.reads_alone 0 hk hoperator hc hlevels).bind fun e c' hc' he => ?_
  exact .accept_of_ne hc' hquestion (.pure hc' he)

end IsOperand

/-- What is no arrow function and no assignment. -/
theorem reads_assignment (harrow : c.startsArrow = false) (hk : k.assignment? = none)
    (h : Reads (k :: rest) result c (conditional fuel inBody)) :
    Reads (k :: rest) result c (assignment (fuel + 1) inBody) := by
  rw [assignment]
  refine .get ?_
  rw [harrow, if_neg Bool.false_ne_true]
  refine h.bind fun e c' hc' he => .kind hc' ?_
  rw [hk]
  exact .pure hc' he

theorem IsOperand.expr (h : IsOperand own result) : IsExpr own result where
  head := h.head
  reads hk hc hfuel := by
    obtain ⟨fuel, rfl, hlevels⟩ := exists_level hfuel
    have hending := TokenKind.ending hk
    refine reads_assignment (h.noArrow hending.arrow hc) hending.assignment ?_
    exact h.reads_conditional hending.suffix hending.operator hending.question hc hlevels

/-! ### Operators -/

theorem IsExpr.head?_ne (h : IsExpr own result) (behind : List TokenKind) {other : TokenKind}
    (hother : other.begins = false) : (own ++ behind).head? ≠ some other := by
  obtain ⟨first, more, rfl, hbegins⟩ := h.head
  exact fun heq => TokenKind.ne_of_begins hbegins hother (Option.some.inj heq)

theorem IsOperand.head?_ne (h : IsOperand own result) (behind : List TokenKind)
    {other : TokenKind} (hother : other.begins = false) :
    (own ++ behind).head? ≠ some other := by
  obtain ⟨first, more, rfl, hbegins⟩ := h.head
  exact fun heq => TokenKind.ne_of_begins hbegins hother (Option.some.inj heq)

/-- What a symbol between operands is not. -/
theorem TokenKind.suffix_of_infix? {op : Infix} (h : k.infix? = some op) :
    k.isSuffix = false ∧ k ≠ .symbol .arrow ∧ k ≠ .eof := by
  cases k with
  | symbol mark => cases mark <;> first | (cases h; done) | exact ⟨rfl, nofun, nofun⟩
  | _ => cases h

variable {left right : List TokenKind} {isLeft isRight : Expr → Prop}

theorem IsOperand.joined (hleft : IsOperand left isLeft) (hright : IsOperand right isRight)
    {op : Infix} (hop : k.infix? = some op) :
    IsExpr (left ++ k :: right) fun e => ∃ a b, isLeft a ∧ isRight b ∧ e = op.build a b where
  head := by
    obtain ⟨first, more, rfl, hbegins⟩ := hleft.head
    exact ⟨first, _, rfl, hbegins⟩
  reads := by
    intro fuel inBody c close rest hclose hc hfuel
    rw [List.append_assoc, List.cons_append] at hc
    rw [List.length_append, List.length_cons] at hfuel
    have hending := TokenKind.ending hclose
    obtain ⟨hsuffix, harrow, heof⟩ := TokenKind.suffix_of_infix? hop
    obtain ⟨fuel, rfl⟩ : ∃ n, fuel = n + 4 := ⟨fuel - 4, by omega⟩
    refine reads_assignment (hleft.noArrow harrow hc) hending.assignment ?_
    rw [conditional]
    have hbinary : Reads (close :: rest) (fun e => ∃ a b, isLeft a ∧ isRight b ∧ e = op.build a b)
        c (binary (fuel + 2) inBody 0) := by
      refine hleft.reads_binary 0 hsuffix hc (by omega) fun a c' hc' ha => ?_
      have hfeed : k ≠ .newline := by
        rintro rfl
        cases hop
      refine binaryRest_next hfeed hc' fun c hc => ?_
      rw [hop, afterOperand, if_neg (Nat.not_lt_zero _)]
      refine .advance hc heof fun c hc => ?_
      refine .skipNewlines hc (hright.head?_ne _ rfl) fun c hc => ?_
      refine (hright.reads_alone op.right hending.suffix hending.operator hc (by omega)).bind
        fun b c hc hb => ?_
      obtain ⟨fuel, rfl⟩ : ∃ n, fuel = n + 1 := ⟨fuel - 1, by omega⟩
      exact (binaryRest_reads 0 _ hending.operator hending.newline hc).mono
        fun e he => ⟨a, b, ha, hb, he⟩
    refine hbinary.bind fun e c' hc' he => ?_
    exact .accept_of_ne hc' hending.question (.pure hc' he)

/-- An operand with an operator before it. -/
theorem IsOperand.unary (h : IsOperand own result) {op : UnaryOp} (hop : k.unary? = some op) :
    IsOperand (k :: own) fun e => ∃ a span, result a ∧ e = .unary op a span where
  head := by
    refine ⟨k, own, rfl, ?_⟩
    cases k with
    | symbol mark => cases mark <;> first | rfl | cases hop
    | keyword word => cases word <;> first | rfl | cases hop
    | _ => cases hop
  noArrow _ hc := by
    refine startsArrow_eq_false hc ?_ ?_
    · rintro name rfl
      cases hop
    · rintro rfl
      cases hop
  reads hclose hc hfuel := by
    rw [List.length_cons] at hfuel
    obtain ⟨fuel, rfl, hlevels⟩ := exists_level hfuel
    have hk : k ≠ .eof := by
      rintro rfl
      cases hop
    rw [Script.unary]
    refine .get (.kind hc ?_)
    rw [hop]
    refine .advance hc hk fun c hc => ?_
    refine (h.reads hclose hc (by omega)).bind fun a c hc ha => ?_
    exact .pure hc ⟨a, _, ha, rfl⟩

variable {test yes no value : List TokenKind} {isTest isYes isNo isValue : Expr → Prop}

theorem IsOperand.conditional (htest : IsOperand test isTest) (hyes : IsExpr yes isYes)
    (hno : IsExpr no isNo) :
    IsExpr (test ++ .symbol .question :: (yes ++ .symbol .colon :: no)) fun e =>
      ∃ a b c span, isTest a ∧ isYes b ∧ isNo c ∧ e = .conditional a b c span where
  head := by
    obtain ⟨first, more, rfl, hbegins⟩ := htest.head
    exact ⟨first, _, rfl, hbegins⟩
  reads hclose hc hfuel := by
    rw [List.append_assoc, List.cons_append, List.append_assoc, List.cons_append] at hc
    rw [List.length_append, List.length_cons, List.length_append, List.length_cons] at hfuel
    obtain ⟨fuel, rfl, hlevels⟩ := exists_level hfuel
    obtain ⟨fuel, rfl, hlevels⟩ := exists_level hlevels
    refine reads_assignment (htest.noArrow (k := .symbol .question) nofun hc)
      (TokenKind.ending hclose).assignment ?_
    rw [Script.conditional]
    refine (htest.reads_alone 0 rfl rfl hc (by omega)).bind fun a c hc ha => ?_
    refine .accept_of hc fun c hc => ?_
    refine .skipNewlines hc (hyes.head?_ne _ rfl) fun c hc => ?_
    refine (hyes.reads rfl hc (by omega)).bind fun b c hc hb => ?_
    refine .skipNewlines hc nofun fun c hc => ?_
    refine .expect hc fun _ c hc => ?_
    refine .skipNewlines hc (hno.head?_ne _ rfl) fun c hc => ?_
    refine (hno.reads hclose hc (by omega)).bind fun d c hc hd => ?_
    exact .pure hc ⟨a, b, d, _, ha, hb, hd, rfl⟩

/-- An assignment to something that may be assigned to. -/
theorem IsOperand.assign (h : IsOperand own result) (hvalue : IsExpr value isValue)
    (htarget : ∀ e, result e → e.isTarget = true) {op : Option BinaryOp}
    (hop : k.assignment? = some op) :
    IsExpr (own ++ k :: value) fun e =>
      ∃ a b span, result a ∧ isValue b ∧ e = .assign a op b span where
  head := by
    obtain ⟨first, more, rfl, hbegins⟩ := h.head
    exact ⟨first, _, rfl, hbegins⟩
  reads := by
    intro fuel inBody c close rest hclose hc hfuel
    rw [List.append_assoc, List.cons_append] at hc
    rw [List.length_append, List.length_cons] at hfuel
    obtain ⟨fuel, rfl, hlevels⟩ := exists_level hfuel
    obtain ⟨hsuffix, hoperator, hquestion, harrow, heof⟩ : k.isSuffix = false ∧ k.infix? = none ∧
        k ≠ .symbol .question ∧ k ≠ .symbol .arrow ∧ k ≠ .eof := by
      cases k with
      | symbol mark =>
        cases mark <;> first | (cases hop; done) | exact ⟨rfl, rfl, nofun, nofun, nofun⟩
      | _ => cases hop
    rw [assignment]
    refine .get ?_
    rw [h.noArrow harrow hc, if_neg Bool.false_ne_true]
    refine (h.reads_conditional hsuffix hoperator hquestion hc (by omega)).bind fun a c hc ha => ?_
    refine .kind hc ?_
    rw [hop]
    dsimp only
    rw [htarget a ha, Bool.not_true, if_neg Bool.false_ne_true]
    refine .advance hc heof fun c hc => ?_
    refine .skipNewlines hc (hvalue.head?_ne _ rfl) fun c hc => ?_
    refine (hvalue.reads hclose hc (by omega)).bind fun b c hc hb => ?_
    exact .pure hc ⟨a, b, _, ha, hb, rfl⟩

end Parser

end Doctest.Script
