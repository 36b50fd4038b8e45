import Doctest.Proofs.Script.Parsing.Brackets

/-!
# How operators group their operands

Operands with infix operators between them are read as a tree in which they stand in the same order.
Looser operators are nearer to its root; of operators that bind equally the last one is, but of
powers the first one. There is no other such tree.
-/

namespace Doctest.Script

/-! ### Operators -/

/-- How tightly an infix operator binds. -/
def InfixOp.level : InfixOp → Nat
  | .logical .nullish => 1
  | .logical .or => 2
  | .logical .and => 3
  | .binary .looseEq | .binary .looseNe | .binary .strictEq | .binary .strictNe => 4
  | .binary .lt | .binary .le | .binary .gt | .binary .ge => 5
  | .binary .add | .binary .sub => 6
  | .binary .mul | .binary .div | .binary .rem => 7
  | .binary .pow => 8

namespace InfixOp

/-- Whether an operator may have another one at the root of its left operand. -/
def TakesLeft (op inner : InfixOp) : Prop :=
  op.level < inner.level ∨ op.level = inner.level ∧ op ≠ .binary .pow

/-- Whether an operator may have another one at the root of its right operand. -/
def TakesRight (op inner : InfixOp) : Prop :=
  op.level < inner.level ∨ op = .binary .pow ∧ inner = .binary .pow

/-- The node of an operator with its operands. -/
def node (op : InfixOp) (left right : Expr) (span : Span) : Expr :=
  match op with
  | .binary op => .binary op left right span
  | .logical op => .logical op left right span

/-- How tightly an operator binds to its left. -/
def leftPower (op : InfixOp) : Nat :=
  if op = .binary .pow then 16 else 2 * op.level - 1

/-- How tightly an operator binds to its right. -/
def rightPower (op : InfixOp) : Nat :=
  if op = .binary .pow then 15 else 2 * op.level

variable {op inner : InfixOp}

/-- The power binds tightest, and less to its right; all others bind less to their left. -/
theorem powers (op : InfixOp) :
    op = .binary .pow ∧ op.leftPower = 16 ∧ op.rightPower = 15 ∧ op.level = 8 ∨
      op ≠ .binary .pow ∧ op.leftPower + 1 = 2 * op.level ∧ op.rightPower = 2 * op.level ∧
        op.level ≤ 7 := by
  cases op with
  | binary op => cases op <;> decide
  | logical op => cases op <;> decide

theorem level_le (op : InfixOp) : op.level ≤ 8 := by
  obtain ⟨-, -, -, htop⟩ | ⟨-, -, -, hbound⟩ := op.powers <;> omega

theorem eq_pow_of_le (h : 8 ≤ op.level) : op = .binary .pow := by
  obtain ⟨hop, -⟩ | ⟨-, -, -, hbound⟩ := op.powers
  · exact hop
  · omega

/-- What did not go on with an operator may stand to the left of it. -/
theorem takesLeft_of_lt (h : op.leftPower < inner.rightPower) : op.TakesLeft inner := by
  unfold TakesLeft
  obtain ⟨-, hleft, -, -⟩ | ⟨hne, hleft, -, hlevel⟩ := op.powers
  · obtain ⟨-, -, hright, -⟩ | ⟨-, -, hright, hbound⟩ := inner.powers <;> omega
  · obtain ⟨-, -, hright, htop⟩ | ⟨-, -, hright, -⟩ := inner.powers
    · left
      omega
    · have hle : op.level ≤ inner.level := by omega
      exact (Nat.lt_or_eq_of_le hle).imp_right fun heq => ⟨heq, hne⟩

/-- What went on with an operator may stand to the right of the one before. -/
theorem takesRight_of_le (h : op.rightPower ≤ inner.leftPower) : op.TakesRight inner := by
  unfold TakesRight
  obtain ⟨hop, -, hright, -⟩ | ⟨-, -, hright, hlevel⟩ := op.powers
  · obtain ⟨hinner, -⟩ | ⟨-, hleft, -, hbound⟩ := inner.powers
    · exact .inr ⟨hop, hinner⟩
    · omega
  · obtain ⟨-, -, -, htop⟩ | ⟨-, hleft, -, -⟩ := inner.powers
    · left
      omega
    · left
      omega

end InfixOp

theorem InfixOp.TakesLeft.level_le {op inner : InfixOp} (h : op.TakesLeft inner) :
    op.level ≤ inner.level :=
  h.elim Nat.le_of_lt fun heq => heq.1.le

theorem InfixOp.TakesRight.level_le {op inner : InfixOp} (h : op.TakesRight inner) :
    op.level ≤ inner.level := by
  rcases h with hlt | ⟨rfl, rfl⟩
  · exact hlt.le
  · exact le_rfl

theorem TokenKind.powers_of_infix? {k : TokenKind} {op : Infix} (h : k.infix? = some op) :
    op.left = op.op.leftPower ∧ op.right = op.op.rightPower := by
  cases k with
  | symbol mark => cases mark <;> cases h <;> decide
  | _ => cases h

theorem Infix.build_eq_node (op : Infix) (left right : Expr) :
    op.build left right = op.op.node left right (left.span.join right.span) := by
  obtain ⟨_ | _, _, _⟩ := op <;> rfl

/-! ### Trees -/

/-- A literal or a name with operators before it. -/
structure Operand where
  signs : List UnaryOp
  atom : TokenKind
  isSome_atom? : atom.atom?.isSome = true

/-- An operand with one more operator before it. -/
def Operand.signed (op : UnaryOp) (x : Operand) : Operand :=
  { x with signs := op :: x.signs }

theorem Operand.signed_inj {op op' : UnaryOp} {x x' : Operand} (h : x'.signed op' = x.signed op) :
    op' = op ∧ x' = x := by
  obtain ⟨signs, atom, hatom⟩ := x
  obtain ⟨signs', atom', hatom'⟩ := x'
  obtain ⟨hsigns, rfl⟩ := Operand.mk.inj h
  obtain ⟨rfl, rfl⟩ := List.cons.inj hsigns
  exact ⟨rfl, rfl⟩

/-- The infix operator at the root of a tree. -/
def Expr.root? : Expr → Option InfixOp
  | .binary op .. => some (.binary op)
  | .logical op .. => some (.logical op)
  | _ => none

@[simp] theorem Expr.root?_node (op : InfixOp) (left right : Expr) (span : Span) :
    (op.node left right span).root? = some op := by
  cases op <;> rfl

/-- A tree read in order: an operand, and operators each with an operand behind it. -/
inductive Expr.InOrder : Expr → Operand → List (InfixOp × Operand) → Prop
  | atom {k : TokenKind} {make : Span → Expr} (h : k.atom? = some make) (span : Span) :
    InOrder (make span) ⟨[], k, h ▸ rfl⟩ []
  | unary {e : Expr} {x : Operand} {links : List (InfixOp × Operand)} (op : UnaryOp) (span : Span)
    (h : e.InOrder x links) : InOrder (.unary op e span) (x.signed op) links
  | node {left right : Expr} {x y : Operand} {links links' : List (InfixOp × Operand)}
    (op : InfixOp) (span : Span) (hleft : left.InOrder x links) (hright : right.InOrder y links') :
    InOrder (op.node left right span) x (links ++ (op, y) :: links')

/-- Whether an operator may have two trees as its operands. Of operators that bind equally the one
to the left is taken first, but of powers the one to the right. -/
structure InfixOp.Takes (op : InfixOp) (left right : Expr) : Prop where
  left : ∀ inner ∈ left.root?, op.TakesLeft inner
  right : ∀ inner ∈ right.root?, op.TakesRight inner

/-- Each operator of a tree may have the operands that it has; the operand of one that stands before
it is no operation with two operands. -/
def Expr.Grouped : Expr → Prop
  | .unary _ operand _ => operand.root? = none ∧ operand.Grouped
  | .binary op left right _ =>
    InfixOp.Takes (.binary op) left right ∧ left.Grouped ∧ right.Grouped
  | .logical op left right _ =>
    InfixOp.Takes (.logical op) left right ∧ left.Grouped ∧ right.Grouped
  | _ => True

@[simp] theorem Expr.grouped_node {op : InfixOp} {left right : Expr} {span : Span} :
    (op.node left right span).Grouped ↔ op.Takes left right ∧ left.Grouped ∧ right.Grouped := by
  cases op <;> rfl

theorem Expr.grouped_atom {k : TokenKind} {make : Span → Expr} (h : k.atom? = some make)
    (span : Span) : (make span).Grouped := by
  cases k <;> cases h <;> trivial

theorem Expr.root?_atom {k : TokenKind} {make : Span → Expr} (h : k.atom? = some make)
    (span : Span) : (make span).root? = none := by
  cases k <;> cases h <;> rfl

namespace Expr

variable {e e' left right : Expr} {x y : Operand} {links links' : List (InfixOp × Operand)}
  {op : InfixOp} {span : Span}

theorem root?_ne_none_node : (op.node left right span).root? ≠ none := by
  rw [root?_node]
  exact Option.some_ne_none op

/-- Without an operator at its root a tree is an operand. -/
theorem InOrder.links_eq_nil (horder : e.InOrder x links) (h : e.Grouped) (hroot : e.root? = none) :
    links = [] := by
  induction horder with
  | atom => rfl
  | unary op span _ ih => exact ih h.2 h.1
  | node => exact absurd hroot root?_ne_none_node

/-- No operator of a tree binds looser than the one at its root. -/
theorem InOrder.exists_root (horder : e.InOrder x links) (h : e.Grouped) :
    ∀ link ∈ links, ∃ root ∈ e.root?, root.level ≤ link.1.level := by
  induction horder with
  | atom => nofun
  | unary op span horder ih =>
    rw [horder.links_eq_nil h.2 h.1]
    nofun
  | @node left right x y links links' op span _ _ ihleft ihright =>
    obtain ⟨htakes, hleft, hright⟩ := grouped_node.mp h
    intro link hmem
    refine ⟨op, root?_node op left right span, ?_⟩
    rcases List.mem_append.mp hmem with hmem | hmem
    · obtain ⟨root, hroot, hle⟩ := ihleft hleft link hmem
      have hop := htakes.left root hroot
      exact hop.level_le.trans hle
    · rcases List.mem_cons.mp hmem with rfl | hmem
      · exact le_rfl
      · obtain ⟨root, hroot, hle⟩ := ihright hright link hmem
        exact (htakes.right root hroot).level_le.trans hle

end Expr

/-! ### The operator at the root -/

/-- An operator between others that binds looser than all of them, or as the last one of those that
bind equally, or as the first one of powers. -/
structure InfixOp.Loosest (op : InfixOp) (before behind : List (InfixOp × Operand)) : Prop where
  before : ∀ link ∈ before, op.level ≤ link.1.level ∧ op ≠ .binary .pow
  behind : ∀ link ∈ behind, op.level < link.1.level ∨ op = .binary .pow ∧ link.1 = .binary .pow

namespace InfixOp.Loosest

variable {op op' : InfixOp} {y y' : Operand}
  {before behind before' behind' between : List (InfixOp × Operand)}

/-- The operator at the root of a tree is the loosest one. -/
theorem of_takes {left right : Expr} {x : Operand} (hleft : left.InOrder x before)
    (hright : right.InOrder y behind) (htakes : op.Takes left right) (hgroup : left.Grouped)
    (hgroup' : right.Grouped) : op.Loosest before behind where
  before link hmem := by
    obtain ⟨root, hroot, hle⟩ := hleft.exists_root hgroup link hmem
    rcases htakes.left root hroot with hlt | ⟨heq, hop⟩
    · refine ⟨hlt.le.trans hle, ?_⟩
      rintro rfl
      exact absurd root.level_le (Nat.not_le_of_lt hlt)
    · exact ⟨heq.le.trans hle, hop⟩
  behind link hmem := by
    obtain ⟨root, hroot, hle⟩ := hright.exists_root hgroup' link hmem
    rcases htakes.right root hroot with hlt | ⟨hop, rfl⟩
    · exact .inl (hlt.trans_le hle)
    · exact .inr ⟨hop, InfixOp.eq_pow_of_le hle⟩

/-- No loosest operator stands behind another one. -/
theorem not_later (h : op.Loosest before behind) (h' : op'.Loosest before' behind')
    (hbefore : before' = before ++ (op, y) :: between) :
    behind ≠ between ++ (op', y') :: behind' := by
  intro hbehind
  obtain ⟨hle, hop'⟩ := h'.before (op, y) (by simp [hbefore])
  rcases h.behind (op', y') (by simp [hbehind]) with hlt | ⟨-, hpow⟩
  · exact absurd hle (Nat.not_le_of_lt hlt)
  · exact hop' hpow

/-- There is only one loosest operator. -/
theorem unique (h : op.Loosest before behind) (h' : op'.Loosest before' behind')
    (hsame : before ++ (op, y) :: behind = before' ++ (op', y') :: behind') :
    before = before' ∧ op = op' ∧ y = y' ∧ behind = behind' := by
  rcases List.append_eq_append_iff.mp hsame with ⟨between, hbefore, hbehind⟩ |
    ⟨between, hbefore, hbehind⟩
  · cases between with
    | nil =>
      rw [List.append_nil] at hbefore
      obtain ⟨hlink, hbehind⟩ := List.cons.inj hbehind
      obtain ⟨hop, hy⟩ := Prod.mk.inj hlink
      exact ⟨hbefore.symm, hop, hy, hbehind⟩
    | cons link between =>
      obtain ⟨rfl, hlater⟩ := List.cons.inj hbehind
      exact absurd hlater (h.not_later h' hbefore)
  · cases between with
    | nil =>
      rw [List.append_nil] at hbefore
      obtain ⟨hlink, hbehind⟩ := List.cons.inj hbehind
      obtain ⟨hop, hy⟩ := Prod.mk.inj hlink
      exact ⟨hbefore, hop.symm, hy.symm, hbehind.symm⟩
    | cons link between =>
      obtain ⟨rfl, hlater⟩ := List.cons.inj hbehind
      exact absurd hlater (h'.not_later h hbefore)

end InfixOp.Loosest

namespace Expr

variable {e e' : Expr} {x x' : Operand} {links links' : List (InfixOp × Operand)}

theorem mapSpans_node (f : Span → Span) (op : InfixOp) (left right : Expr) (span : Span) :
    (op.node left right span).mapSpans f =
      op.node (left.mapSpans f) (right.mapSpans f) (f span) := by
  cases op <;> rfl

theorem mapSpans_atom {k : TokenKind} {make make' : Span → Expr} (h : k.atom? = some make)
    (h' : k.atom? = some make') (span span' : Span) :
    (make' span').mapSpans noSpan = (make span).mapSpans noSpan := by
  cases k <;> cases h <;> cases h' <;> rfl

/-- Trees that are the same in order and group their operators are the same. -/
theorem InOrder.mapSpans_eq (horder : e.InOrder x links) (horder' : e'.InOrder x' links')
    (hx : x' = x) (hlinks : links' = links) (h : e.Grouped) (h' : e'.Grouped) :
    e'.mapSpans noSpan = e.mapSpans noSpan := by
  induction horder generalizing e' x' links' with
  | atom hmake span =>
    cases horder' with
    | atom hmake' span' =>
      obtain ⟨-, rfl⟩ := Operand.mk.inj hx
      exact mapSpans_atom hmake hmake' span span'
    | unary => exact absurd (congrArg Operand.signs hx) (List.cons_ne_nil _ _)
    | node => exact absurd hlinks (by simp)
  | unary op span horder ih =>
    have hnone := horder.links_eq_nil h.2 h.1
    cases horder' with
    | atom => exact absurd (congrArg Operand.signs hx) (List.cons_ne_nil _ _).symm
    | unary op' span' horder' =>
      obtain ⟨rfl, hsame⟩ := Operand.signed_inj hx
      rw [mapSpans, mapSpans, ih horder' hsame hlinks h.2 h'.2]
      rfl
    | node => exact absurd (hlinks.trans hnone) (by simp)
  | @node left right x y links links' op span hleft hright ihleft ihright =>
    obtain ⟨htakes, hgroup, hgroup'⟩ := grouped_node.mp h
    cases horder' with
    | atom => exact absurd hlinks (by simp)
    | unary op' span' horder' =>
      exact absurd (hlinks.symm.trans (horder'.links_eq_nil h'.2 h'.1)) (by simp)
    | node op' span' hleft' hright' =>
      obtain ⟨htakes', hgroups, hgroups'⟩ := grouped_node.mp h'
      have hloosest := InfixOp.Loosest.of_takes hleft hright htakes hgroup hgroup'
      have hloosest' := InfixOp.Loosest.of_takes hleft' hright' htakes' hgroups hgroups'
      obtain ⟨hbefore, rfl, hy, hbehind⟩ := hloosest'.unique hloosest hlinks
      rw [mapSpans_node, mapSpans_node, ihleft hleft' hx hbefore hgroup hgroups,
        ihright hright' hy hbehind hgroup' hgroups']
      rfl

end Expr

/-! ### Tokens -/

/-- Some tokens are an operand. -/
inductive Signed : List TokenKind → Operand → Prop
  | atom {k : TokenKind} (h : k.atom?.isSome = true) : Signed [k] ⟨[], k, h⟩
  | sign {k : TokenKind} {op : UnaryOp} {own : List TokenKind} {x : Operand}
    (hop : k.unary? = some op) (h : Signed own x) : Signed (k :: own) (x.signed op)

theorem Signed.head?_ne {own : List TokenKind} {x : Operand} (h : Signed own x)
    (rest : List TokenKind) : (own ++ rest).head? ≠ some .newline := by
  cases h with
  | atom hatom =>
    intro heq
    rw [Option.some.inj heq] at hatom
    cases hatom
  | sign hop =>
    intro heq
    rw [Option.some.inj heq] at hop
    cases hop

/-- Some tokens are operators, each with an operand behind it. Line breaks may stand around the
operators. -/
inductive Continued : List TokenKind → List (InfixOp × Operand) → Prop
  | nil : Continued [] []
  | cons {gap gap' own more : List TokenKind} {k : TokenKind} {op : Infix} {x : Operand}
    {links : List (InfixOp × Operand)} (hgap : ∀ kind ∈ gap, kind = .newline)
    (hop : k.infix? = some op) (hgap' : ∀ kind ∈ gap', kind = .newline) (hown : Signed own x)
    (hmore : Continued more links) :
    Continued (gap ++ k :: (gap' ++ (own ++ more))) ((op.op, x) :: links)

/-- With these tokens no operand goes on: line breaks, and then no call and no property. -/
def Quits (behind : List TokenKind) : Prop :=
  ∃ gap k rest, behind = gap ++ k :: rest ∧ (∀ kind ∈ gap, kind = .newline) ∧ k.isSuffix = false

namespace Parser

variable {own more behind rest : List TokenKind} {x : Operand} {links : List (InfixOp × Operand)}
  {c : Cursor} {k : TokenKind} {fuel : Nat} {inBody : Bool}

theorem kinds_past_gap {gap : List TokenKind} (hgap : ∀ kind ∈ gap, kind = .newline)
    (hk : k ≠ .newline) (hc : c.kinds = gap ++ k :: rest) : c.pastNewlines.kinds = k :: rest := by
  rw [Cursor.kinds_skipWhile, hc,
    List.dropWhile_append_of_pos fun kind hmem => decide_eq_true (hgap kind hmem),
    List.dropWhile_cons_of_neg (by simpa using hk)]

/-- An operand ends where no call and no property follows. -/
theorem suffixes_quits (operand : Expr) (hbehind : Quits behind) (hc : c.kinds = behind) :
    suffixes (fuel + 1) inBody operand c = .ok (operand, c) := by
  obtain ⟨gap, k, rest, rfl, hgap, hk⟩ := hbehind
  have hne : k ≠ .newline := TokenKind.ne_newline_of_isSuffix hk
  rw [suffixes, bind_kind_apply]
  cases gap with
  | nil =>
    rw [Cursor.kindAt_zero_of_kinds hc]
    split
    · cases hk
    · cases hk
    · cases hk
    · cases hk
    · rfl
  | cons first gap =>
    have hfirst := hgap first List.mem_cons_self
    have hpast : c.kindPastNewlines = k := by
      rw [Cursor.kindPastNewlines_eq]
      exact Cursor.kindAt_zero_of_kinds (kinds_past_gap hgap hne hc)
    have hdot : k ≠ .symbol .dot := by
      rintro rfl
      cases hk
    rw [Cursor.kindAt_zero_of_kinds hc, hfirst]
    dsimp only
    rw [bind_get_apply, hpast, if_neg hdot]
    rfl

/-- An operand is read as a tree without infix operators. -/
theorem unary_reads (h : Signed own x) (hbehind : Quits behind) (hc : c.kinds = own ++ behind)
    (hfuel : 10 * own.length + 1 ≤ fuel) :
    Reads behind (fun e => e.InOrder x [] ∧ e.Grouped ∧ e.root? = none) c (unary fuel inBody) := by
  induction h generalizing c fuel with
  | @atom k h =>
    obtain ⟨make, hmake⟩ := Option.isSome_iff_exists.mp h
    obtain ⟨fuel, rfl, hlevels⟩ := exists_level hfuel
    refine (isPrimary_atom hmake).reads_unary hc hlevels ?_
    rintro _ c' hc' ⟨span, rfl⟩
    obtain ⟨fuel, rfl, -⟩ := exists_level (Nat.le_trans (Nat.le_add_left 10 _) hlevels)
    refine ⟨make span, c', suffixes_quits _ hbehind hc', hc', ?_⟩
    exact ⟨.atom hmake span, Expr.grouped_atom hmake span, Expr.root?_atom hmake span⟩
  | @sign k op own x hop h ih =>
    rw [List.length_cons] at hfuel
    obtain ⟨fuel, rfl, hlevels⟩ := exists_level hfuel
    have hk : k ≠ .eof := by
      rintro rfl
      cases hop
    rw [Script.unary]
    refine .get (.kind hc ?_)
    rw [hop]
    refine .advance hc hk fun c hc => ?_
    refine (ih hc (by omega)).bind fun e c hc he => ?_
    obtain ⟨horder, hgrouped, hroot⟩ := he
    exact .pure hc ⟨.unary op _ horder, ⟨hroot, hgrouped⟩, rfl⟩

/-- Behind an operand the operators that go on with it are not part of it. -/
theorem Continued.quits (h : Continued more links) (hk : k.ends = true) :
    Quits (more ++ k :: rest) := by
  cases h with
  | nil => exact ⟨[], k, rest, rfl, nofun, (TokenKind.ending hk).suffix⟩
  | @cons gap gap' own more mark op x links hgap hop =>
    refine ⟨gap, mark, gap' ++ (own ++ more) ++ k :: rest, ?_, hgap, ?_⟩
    · rw [List.append_assoc, List.cons_append]
    · exact (TokenKind.suffix_of_infix? hop).1

/-- The operands end at an operator that binds too loosely, and behind any other one its right
operand is read. -/
theorem binaryRest_operator {gap gap' : List TokenKind} {op : Infix} (fuel : Nat) (inBody : Bool)
    (least : Nat) (left : Expr) (hgap : ∀ kind ∈ gap, kind = .newline) (hop : k.infix? = some op)
    (hgap' : ∀ kind ∈ gap', kind = .newline) (hhead : behind.head? ≠ some .newline)
    (hc : c.kinds = gap ++ k :: (gap' ++ behind)) :
    (op.left < least → ∃ c', c'.kinds = k :: (gap' ++ behind) ∧
      binaryRest (fuel + 1) inBody least left c = .ok (left, c')) ∧
    (least ≤ op.left → ∃ c', c'.kinds = behind ∧
      binaryRest (fuel + 1) inBody least left c = (do
        let right ← binary fuel inBody op.right
        binaryRest fuel inBody least (op.build left right)) c') := by
  have hk : k ≠ .newline := by
    rintro rfl
    cases hop
  have hpast := kinds_past_gap hgap hk hc
  have hseen := Cursor.kindAt_zero_of_kinds hpast
  have hgoes : c.continues = true := by
    rw [Cursor.continues, Cursor.kindPastNewlines_eq, hseen]
    simp [hop]
  have hnext : binaryRest (fuel + 1) inBody least left c =
      afterOperand fuel inBody least left (some op) c.pastNewlines := by
    rw [binaryRest, bind_get_apply, hgoes, if_pos rfl, ← hop, ← hseen]
    rfl
  rw [hnext, afterOperand]
  constructor
  · intro hlt
    rw [if_pos hlt]
    exact ⟨c.pastNewlines, hpast, rfl⟩
  · intro hle
    obtain ⟨_, hrest, hadvance⟩ :=
      Cursor.exists_of_kindAt_zero hseen (TokenKind.suffix_of_infix? hop).2.2
    obtain rfl := List.tail_eq_of_cons_eq (hpast.symm.trans hrest)
    rw [if_neg (Nat.not_lt_of_le hle), bind_advance_apply, bind_skipNewlines_apply]
    refine ⟨_, ?_, rfl⟩
    rw [Cursor.kinds_skipWhile, hadvance,
      List.dropWhile_append_of_pos fun kind hmem => decide_eq_true (hgap' kind hmem)]
    cases behind with
    | nil => rfl
    | cons first behind =>
      have hfirst : first ≠ .newline := fun heq => hhead (congrArg some heq)
      exact List.dropWhile_cons_of_neg (by simpa using hfirst)

/-! ### Taking operators -/

/-- A tree that is read up to some operators, where those that bind more loosely than `least` are
left to others. -/
structure Built (least : Nat) (x : Operand) (before links : List (InfixOp × Operand))
    (e : Expr) : Prop where
  order : e.InOrder x before
  grouped : e.Grouped
  least_le : ∀ root ∈ e.root?, least ≤ root.leftPower
  next_lt : ∀ root ∈ e.root?, ∀ link ∈ links.head?, link.1.leftPower < root.rightPower

/-- An operand is built. -/
theorem Built.operand {least : Nat} {e : Expr} (horder : e.InOrder x []) (hgrouped : e.Grouped)
    (hroot : e.root? = none) : Built least x [] links e := by
  refine ⟨horder, hgrouped, ?_, ?_⟩
  · rw [hroot]
    nofun
  · rw [hroot]
    nofun

/-- With the next operator and its right operand a tree is built up to the operators behind that. -/
theorem Built.build {least : Nat} {op : Infix} {y : Operand} {left right : Expr}
    {before taken behind : List (InfixOp × Operand)} (hop : k.infix? = some op)
    (hleft : Built least x before ((op.op, y) :: links) left) (hle : least ≤ op.left)
    (horder : right.InOrder y taken) (hgrouped : right.Grouped)
    (hroot : ∀ root ∈ right.root?, op.right ≤ root.leftPower)
    (hstops : ∀ link ∈ behind.head?, link.1.leftPower < op.right) :
    Built least x (before ++ (op.op, y) :: taken) behind (op.build left right) := by
  obtain ⟨hpower, hpower'⟩ := TokenKind.powers_of_infix? hop
  rw [hpower'] at hroot hstops
  rw [hpower] at hle
  rw [Infix.build_eq_node]
  have htakesLeft (inner : InfixOp) (hinner : inner ∈ left.root?) : op.op.TakesLeft inner :=
    InfixOp.takesLeft_of_lt (hleft.next_lt inner hinner (op.op, y) rfl)
  have htakesRight (inner : InfixOp) (hinner : inner ∈ right.root?) : op.op.TakesRight inner :=
    InfixOp.takesRight_of_le (hroot inner hinner)
  refine ⟨.node op.op _ hleft.order horder, ?_, ?_, ?_⟩
  · exact Expr.grouped_node.mpr ⟨⟨htakesLeft, htakesRight⟩, hleft.grouped, hgrouped⟩
  · rw [Expr.root?_node]
    intro root hsome
    exact Option.some.inj hsome ▸ hle
  · rw [Expr.root?_node]
    intro root hsome
    exact Option.some.inj hsome ▸ hstops

/-- From an operand `x` on, with the operators `before` behind it, some more operators were read, up
to one that binds more loosely than `least`. -/
inductive Groups (least : Nat) (final : List TokenKind) (x : Operand)
    (before links : List (InfixOp × Operand)) (room : Nat) (c : Cursor) (parser : Parser Expr) :
    Prop
  | intro {own : List TokenKind} {taken behind : List (InfixOp × Operand)} {e : Expr} {c' : Cursor}
    (hlinks : links = taken ++ behind) (hbehind : Continued own behind)
    (hroom : own.length ≤ room)
    (hstops : ∀ link ∈ behind.head?, link.1.leftPower < least)
    (hrun : parser c = .ok (e, c')) (hkinds : c'.kinds = own ++ final)
    (horder : e.InOrder x (before ++ taken)) (hgrouped : e.Grouped)
    (hroot : ∀ root ∈ e.root?, least ≤ root.leftPower)

namespace Groups

variable {least room : Nat} {before : List (InfixOp × Operand)} {left : Expr}
  {final : List TokenKind}

/-- An operand, and what the operators behind it give. -/
theorem binary (hown : Signed own x) (hquits : Quits behind) (hc : c.kinds = own ++ behind)
    (hfuel : 10 * own.length + 1 ≤ fuel)
    (h : ∀ e c', c'.kinds = behind → Built least x [] links e →
      Groups least final x [] links room c' (binaryRest fuel inBody least e)) :
    Groups least final x [] links room c (binary (fuel + 1) inBody least) := by
  obtain ⟨e, c', hrun, hc', horder, hgrouped, hroot⟩ := unary_reads hown hquits hc hfuel
  obtain ⟨hlinks, hbehind, hroom, hstops, hrest, hkinds, horder, hgrouped, hroot⟩ :=
    h e c' hc' (.operand horder hgrouped hroot)
  refine .intro hlinks hbehind hroom hstops ?_ hkinds horder hgrouped hroot
  rw [Script.binary, bind_apply, hrun]
  exact hrest

/-- No operator is taken. -/
theorem stop {c' : Cursor} (hmore : Continued more links) (hroom : more.length ≤ room)
    (hstops : ∀ link ∈ links.head?, link.1.leftPower < least)
    (hrun : binaryRest fuel inBody least left c = .ok (left, c'))
    (hkinds : c'.kinds = more ++ final) (hleft : Built least x before links left) :
    Groups least final x before links room c (binaryRest fuel inBody least left) := by
  refine .intro (List.nil_append links).symm hmore hroom hstops hrun hkinds ?_ hleft.grouped
    hleft.least_le
  rw [List.append_nil]
  exact hleft.order

/-- Behind a tree no operator stands. -/
theorem last (hk : k.ends = true) (hc : c.kinds = k :: rest) (hfuel : 1 ≤ fuel)
    (hleft : Built least x before [] left) :
    Groups least (k :: rest) x before [] room c (binaryRest fuel inBody least left) := by
  obtain ⟨fuel, rfl, -⟩ := exists_level hfuel
  have hending := TokenKind.ending hk
  have hreads : Reads (k :: rest) (· = left) c (binaryRest (fuel + 1) inBody least left) :=
    binaryRest_reads least left hending.operator hending.newline hc
  obtain ⟨e, c', hrun, hkinds, rfl⟩ := hreads
  exact stop .nil (Nat.zero_le room) nofun hrun hkinds hleft

/-- An operator is taken with its right operand, and then others are. -/
theorem next {op : Infix} {y : Operand} {c' : Cursor} {room' : Nat} (hop : k.infix? = some op)
    (hle : least ≤ op.left) (hleft : Built least x before ((op.op, y) :: links) left)
    (hrun : binaryRest (fuel + 1) inBody least left c = (do
      let right ← Script.binary fuel inBody op.right
      binaryRest fuel inBody least (op.build left right)) c')
    (hright : Groups op.right final y [] links room' c' (Script.binary fuel inBody op.right))
    (hroom : room' ≤ room)
    (h : ∀ {more before behind right c'}, behind.length ≤ links.length → Continued more behind →
      more.length ≤ room' → c'.kinds = more ++ final →
      Built least x before behind (op.build left right) →
      Groups least final x before behind more.length c'
        (binaryRest fuel inBody least (op.build left right))) :
    Groups least final x before ((op.op, y) :: links) room c
      (binaryRest (fuel + 1) inBody least left) := by
  cases hright with
  | @intro own taken behind right c'' hlinks hbehind hown hstops hread hkinds horder hgrouped
    hroot =>
  have hbuilt := hleft.build hop hle horder hgrouped hroot hstops
  have hfewer : behind.length ≤ links.length := by
    rw [hlinks, List.length_append]
    exact Nat.le_add_left _ _
  cases h hfewer hbehind hown hkinds hbuilt with
  | @intro own' taken' behind' e last hlinks' hbehind' hown' hstops' hread' hkinds' horder'
    hgrouped' hroot' =>
  have hboth : (op.op, y) :: links = ((op.op, y) :: (taken ++ taken')) ++ behind' := by
    rw [hlinks, hlinks', List.cons_append, List.append_assoc]
  refine .intro hboth hbehind' ?_ hstops' ?_ hkinds' ?_ hgrouped' hroot'
  · exact hown'.trans (hown.trans hroom)
  · rw [hrun, bind_apply, hread]
    exact hread'
  · simpa using horder'

end Groups

/-- The operators behind a tree are taken as long as they bind tightly enough. Behind each of them
those are taken first that bind more tightly, so that the next one cannot take a part of them. -/
theorem binaryRest_groups (hk : k.ends = true) (n : Nat) :
    ∀ {x links more before least left fuel c}, links.length ≤ n → Continued more links →
      c.kinds = more ++ k :: rest → 10 * more.length + 2 ≤ fuel →
      Built least x before links left →
      Groups least (k :: rest) x before links more.length c
        (binaryRest fuel inBody least left) := by
  induction n with
  | zero =>
    intro x links more before least left fuel c hlength hmore hc hfuel hleft
    obtain rfl := List.length_eq_zero_iff.mp (Nat.le_zero.mp hlength)
    cases hmore
    exact .last hk hc (by omega) hleft
  | succ n ih =>
    intro x links more before least left fuel c hlength hmore hc hfuel hleft
    cases hmore with
    | nil => exact .last hk hc (by omega) hleft
    | @cons gap gap' own more mark op y links hgap hop hgap' hown hmore =>
      simp only [List.length_append, List.length_cons] at hlength hfuel
      obtain ⟨fuel, rfl, hlevels⟩ := exists_level hfuel
      obtain ⟨hlooser, htighter⟩ := binaryRest_operator fuel inBody least left hgap hop hgap'
        (hown.head?_ne (more ++ k :: rest)) (by simpa using hc)
      rcases Nat.lt_or_ge op.left least with hlt | hle
      · obtain ⟨c', hc', hrun⟩ := hlooser hlt
        have hkept : Continued (mark :: (gap' ++ (own ++ more))) ((op.op, y) :: links) :=
          @Continued.cons [] gap' own more mark op y links nofun hop hgap' hown hmore
        refine .stop hkept (by simp) ?_ hrun (by simpa using hc') hleft
        intro link hlink
        obtain rfl := Option.some.inj hlink
        exact (TokenKind.powers_of_infix? hop).1 ▸ hlt
      · obtain ⟨c', hc', hrun⟩ := htighter hle
        obtain ⟨fuel, rfl, hlevels'⟩ := exists_level (Nat.le_trans (Nat.le_add_left 10 _) hlevels)
        have hright : Groups op.right (k :: rest) y [] links more.length c'
            (binary (fuel + 1) inBody op.right) := by
          refine .binary hown (Continued.quits hmore hk) hc' (by omega) fun e c' hc' hbuilt => ?_
          exact ih (by omega) hmore hc' (by omega) hbuilt
        refine .next hop hle hleft hrun hright ?_ ?_
        · simp only [List.length_append, List.length_cons]
          omega
        · intro more' before' behind right c'' hfewer hbehind hlength' hkinds hbuilt
          exact ih (by omega) hbehind hkinds (by omega) hbuilt

/-- Operands with operators between them are no arrow function. -/
theorem startsArrow_operators (hown : Signed own x) (hmore : Continued more links)
    (hk : k.ends = true) (hc : c.kinds = own ++ (more ++ k :: rest)) : c.startsArrow = false := by
  obtain ⟨next, others, hnext, hne⟩ : ∃ next others, more ++ k :: rest = next :: others ∧
      next ≠ .symbol .arrow := by
    cases hmore with
    | nil => exact ⟨k, rest, rfl, (TokenKind.ending hk).arrow⟩
    | @cons gap gap' own more mark op y links hgap hop =>
      rw [List.append_assoc]
      cases gap with
      | nil => exact ⟨mark, _, rfl, (TokenKind.suffix_of_infix? hop).2.1⟩
      | cons feed gap =>
        have hfeed := hgap feed List.mem_cons_self
        exact ⟨feed, _, rfl, hfeed ▸ nofun⟩
  rw [hnext] at hc
  cases hown with
  | atom h =>
    obtain ⟨make, hmake⟩ := Option.isSome_iff_exists.mp h
    exact (isPrimary_atom hmake).noArrow hne hc
  | sign hop =>
    refine startsArrow_eq_false hc ?_ ?_
    · rintro name rfl
      cases hop
    · rintro rfl
      cases hop

/-- Operands with operators between them are read as a tree that groups them. -/
theorem assignment_reads (hown : Signed own x) (hmore : Continued more links) (hk : k.ends = true)
    (hc : c.kinds = own ++ (more ++ k :: rest)) (hfuel : 10 * (own ++ more).length + 4 ≤ fuel) :
    Reads (k :: rest) (fun e => e.InOrder x links ∧ e.Grouped) c (assignment fuel inBody) := by
  rw [List.length_append] at hfuel
  have hending := TokenKind.ending hk
  have hpos : 1 ≤ own.length := by
    cases hown <;> simp
  obtain ⟨fuel, rfl⟩ : ∃ n, fuel = n + 3 := ⟨fuel - 3, by omega⟩
  refine reads_assignment (startsArrow_operators hown hmore hk hc) hending.assignment ?_
  have hgroups : Groups 0 (k :: rest) x [] links more.length c (binary (fuel + 1) inBody 0) := by
    refine .binary hown (Continued.quits hmore hk) hc (by omega) fun e c' hc' hbuilt => ?_
    exact binaryRest_groups hk links.length le_rfl hmore hc' (by omega) hbuilt
  cases hgroups with
  | @intro own' taken behind e c' hlinks hbehind _ hstops hrun hkinds horder hgrouped =>
  -- Nothing binds more loosely than zero, so that nothing is left.
  cases hbehind with
  | cons => exact absurd (hstops _ rfl) (Nat.not_lt_zero _)
  | nil =>
    have hbinary : Reads (k :: rest) (fun e => e.InOrder x links ∧ e.Grouped) c
        (binary (fuel + 1) inBody 0) := by
      refine ⟨e, c', hrun, hkinds, ?_, hgrouped⟩
      rwa [hlinks, List.append_nil]
    rw [conditional]
    refine hbinary.bind fun e c hc he => ?_
    exact .accept_of_ne hc hending.question (.pure hc he)

end Parser

/-- **Precedence and associativity.** Operands with operators between them, and with line breaks
around the operators, are read up to the token that ends them. The tree has them in order and groups
them, and it is the only such tree. -/
theorem operators_grouped {own more rest : List TokenKind} {x : Operand}
    {links : List (InfixOp × Operand)} {k : TokenKind} (hown : Signed own x)
    (hmore : Continued more links) (hk : k.ends = true) {c : Cursor}
    (hc : c.kinds = own ++ (more ++ k :: rest)) {fuel : Nat}
    (hfuel : 10 * (own ++ more).length + 4 ≤ fuel) (inBody : Bool) :
    ∃ e c', assignment fuel inBody c = .ok (e, c') ∧ c'.kinds = k :: rest ∧ e.InOrder x links ∧
      e.Grouped ∧ ∀ e' : Expr, e'.InOrder x links → e'.Grouped →
        e'.mapSpans noSpan = e.mapSpans noSpan := by
  have hreads : Parser.Reads (k :: rest) (fun e => e.InOrder x links ∧ e.Grouped) c
      (assignment fuel inBody) := Parser.assignment_reads hown hmore hk hc hfuel
  obtain ⟨e, c', hrun, hkinds, horder, hgrouped⟩ := hreads
  refine ⟨e, c', hrun, hkinds, horder, hgrouped, fun e' horder' hgrouped' => ?_⟩
  exact horder.mapSpans_eq horder' rfl rfl hgrouped hgrouped'

/-- The tokens of `-a ?? b ** c ** !d - e`, with line breaks behind `??` and before the last
`**`. -/
def sampleOperators : Cursor :=
  ⟨⟨0, 0⟩, [.symbol .minus, .ident "a", .symbol .questionQuestion, .newline, .ident "b",
    .symbol .starStar, .ident "c", .newline, .symbol .starStar, .symbol .bang, .ident "d",
    .symbol .minus, .ident "e", .eof].map (Token.mk · ⟨0, 0⟩)⟩

theorem operators_grouped_sample :
    ∃ e c', assignment 200 false sampleOperators = .ok (e, c') ∧
      c'.kinds = [.eof] ∧
      e.InOrder ⟨[.neg], .ident "a", rfl⟩ [(.logical .nullish, ⟨[], .ident "b", rfl⟩),
        (.binary .pow, ⟨[], .ident "c", rfl⟩), (.binary .pow, ⟨[.not], .ident "d", rfl⟩),
        (.binary .sub, ⟨[], .ident "e", rfl⟩)] ∧
      e.Grouped := by
  have hname (name : String) : Signed [.ident name] ⟨[], .ident name, rfl⟩ := .atom rfl
  have hfeed : ∀ kind ∈ [TokenKind.newline], kind = .newline := by simp
  have hlast := @Continued.cons [] [] [.ident "e"] [] (.symbol .minus) _ _ _ nofun rfl nofun
    (hname "e") .nil
  have hpower := @Continued.cons [.newline] [] [.symbol .bang, .ident "d"] _ (.symbol .starStar) _ _
    _ hfeed rfl nofun (.sign rfl (hname "d")) hlast
  have hpowers := @Continued.cons [] [] [.ident "c"] _ (.symbol .starStar) _ _ _ nofun rfl nofun
    (hname "c") hpower
  have hall := @Continued.cons [] [.newline] [.ident "b"] _ (.symbol .questionQuestion) _ _ _ nofun
    rfl hfeed (hname "b") hpowers
  have hfirst : Signed [.symbol .minus, .ident "a"] ⟨[.neg], .ident "a", rfl⟩ :=
    .sign rfl (hname "a")
  obtain ⟨e, c', hrun, hkinds, horder, hgrouped, -⟩ :=
    @operators_grouped _ _ [] _ _ .eof hfirst hall rfl sampleOperators rfl 200 (by decide) false
  exact ⟨e, c', hrun, hkinds, horder, hgrouped⟩

end Doctest.Script
