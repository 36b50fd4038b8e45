import Doctest.Proofs.Script.Parsing.Programs
import Doctest.Proofs.Script.Tiling

/-!
# Where the nodes of a tree are

Every node of the tree of a text takes up something, from the start of a token to the end of one.
What is below a node is within it, and its children come one after the other, as they are written.
-/

namespace Doctest.Script

open Relation (ReflTransGen)

/-! ### Nodes -/

/-- A node of a syntax tree. A function is a node of its own, below the expression that makes it. -/
inductive TreeNode where
  | expr (value : Expr)
  | function (params : List String) (body : Body) (span : Span)
  | stmt (stmt : Stmt)

/-- The span of a node. -/
def TreeNode.span : TreeNode → Span
  | .expr value => value.span
  | .function _ _ span => span
  | .stmt s => s.span

/-- What the body of a function consists of. -/
def Body.nodes : Body → List TreeNode
  | .expr value => [.expr value]
  | .block stmts => stmts.map .stmt

/-- The nodes right below an expression, as they are written. -/
def Expr.children : Expr → List TreeNode
  | .number .. | .string .. | .bool .. | .null .. | .undefined .. | .ident .. => []
  | .array items _ => items.map .expr
  | .object properties _ => properties.map fun property => .expr property.2
  | .member target _ _ => [.expr target]
  | .index target key _ => [.expr target, .expr key]
  | .call callee args _ | .construct callee args _ => .expr callee :: args.map .expr
  | .arrow params body span => [.function params body span]
  | .unary _ operand _ => [.expr operand]
  | .binary _ left right _ | .logical _ left right _ => [.expr left, .expr right]
  | .conditional test yes no _ => [.expr test, .expr yes, .expr no]
  | .assign target _ value _ => [.expr target, .expr value]

/-- The nodes right below a statement, as they are written. -/
def Stmt.children : Stmt → List TreeNode
  | .expr value _ | .throwing value _ => [.expr value]
  | .declare _ _ init _ => init.toList.map .expr
  | .returning value _ => value.toList.map .expr
  | .branch test yes no _ => .expr test :: (yes.map .stmt ++ (no.getD []).map .stmt)
  | .block stmts _ => stmts.map .stmt

/-- The nodes right below a node, as they are written. -/
def TreeNode.children : TreeNode → List TreeNode
  | .expr value => value.children
  | .function _ body _ => body.nodes
  | .stmt s => s.children

/-- The second node is the first one, or somewhere below it. -/
def TreeNode.Holds : TreeNode → TreeNode → Prop :=
  ReflTransGen fun parent child => child ∈ parent.children

/-- A span takes up something, from the start of a token to the end of one. -/
structure Span.Fits (own : List Token) (span : Span) : Prop where
  nonempty : span.start < span.stop
  starts : ∃ token ∈ own, token.span.start = span.start
  stops : ∃ token ∈ own, token.span.stop = span.stop

/-- A node is where it should be: what it takes up fits some tokens, its children are within it, and
no child begins before those in front of it end. -/
structure TreeNode.Placed (own : List Token) (node : TreeNode) : Prop
    extends node.span.Fits own where
  contains : ∀ child ∈ node.children,
    node.span.start ≤ child.span.start ∧ child.span.stop ≤ node.span.stop
  ordered : node.children.Pairwise fun before after => before.span.stop ≤ after.span.start

/-! ### One after the other -/

/-- Things that take up something are one after the other between two places. -/
def InTurn {α : Type} (span : α → Span) (sound : α → Prop) : Nat → List α → Nat → Prop
  | lo, [], hi => lo ≤ hi
  | lo, item :: rest, hi => lo ≤ (span item).start ∧ (span item).start < (span item).stop ∧
    sound item ∧ InTurn span sound (span item).stop rest hi

namespace InTurn

variable {α : Type} {span : α → Span} {sound : α → Prop} {lo lo' mid hi hi' : Nat} {item : α}
  {items others : List α}

theorem le (h : InTurn span sound lo items hi) : lo ≤ hi := by
  induction items generalizing lo with
  | nil => exact h
  | cons item rest ih =>
    obtain ⟨hstart, hnonempty, -, hrest⟩ := h
    exact hstart.trans (hnonempty.le.trans (ih hrest))

theorem lower (h : InTurn span sound lo items hi) (hle : lo' ≤ lo) :
    InTurn span sound lo' items hi := by
  cases items with
  | nil => exact hle.trans h
  | cons item rest => exact ⟨hle.trans h.1, h.2⟩

theorem append (h : InTurn span sound lo items mid) (h' : InTurn span sound mid others hi) :
    InTurn span sound lo (items ++ others) hi := by
  induction items generalizing lo with
  | nil => exact h'.lower h
  | cons item rest ih =>
    obtain ⟨hstart, hnonempty, hsound, hrest⟩ := h
    exact ⟨hstart, hnonempty, hsound, ih hrest⟩

theorem raise (h : InTurn span sound lo items hi) (hle : hi ≤ hi') :
    InTurn span sound lo items hi' := by
  have hnone : InTurn span sound hi [] hi' := hle
  simpa using h.append hnone

theorem split (h : InTurn span sound lo (items ++ others) hi) :
    ∃ mid, InTurn span sound lo items mid ∧ InTurn span sound mid others hi := by
  induction items generalizing lo with
  | nil => exact ⟨lo, le_rfl, h⟩
  | cons item rest ih =>
    obtain ⟨hstart, hnonempty, hsound, hrest⟩ := h
    obtain ⟨mid, hfront, hbehind⟩ := ih hrest
    exact ⟨mid, ⟨hstart, hnonempty, hsound, hfront⟩, hbehind⟩

theorem left (h : InTurn span sound lo (items ++ others) hi) : InTurn span sound lo items hi := by
  obtain ⟨mid, hfront, hbehind⟩ := h.split
  exact hfront.raise hbehind.le

theorem right (h : InTurn span sound lo (items ++ others) hi) :
    InTurn span sound lo others hi := by
  obtain ⟨mid, hfront, hbehind⟩ := h.split
  exact hbehind.lower hfront.le

theorem after (h : InTurn span sound lo (item :: items) hi) :
    InTurn span sound (span item).stop items hi :=
  h.2.2.2

theorem tail (h : InTurn span sound lo (item :: items) hi) : InTurn span sound lo items hi :=
  h.after.lower (h.1.trans h.2.1.le)

theorem sound_of_mem (h : InTurn span sound lo items hi) (hmem : item ∈ items) : sound item := by
  obtain ⟨front, behind, rfl⟩ := List.append_of_mem hmem
  exact h.right.2.2.1

theorem within_of_mem (h : InTurn span sound lo items hi) (hmem : item ∈ items) :
    lo ≤ (span item).start ∧ (span item).stop ≤ hi := by
  obtain ⟨front, behind, rfl⟩ := List.append_of_mem hmem
  obtain ⟨hstart, -, -, hrest⟩ := h.right
  exact ⟨hstart, hrest.le⟩

/-- Things in turn go on up to the end of the last of them. -/
theorem concat (h : InTurn span sound lo (items ++ [item]) hi) :
    lo ≤ (span item).start ∧ (span item).stop ≤ hi ∧
      InTurn span sound lo (items ++ [item]) (span item).stop := by
  obtain ⟨mid, hfront, hstart, hnonempty, hsound, hstop⟩ := h.split
  exact ⟨hfront.le.trans hstart, hstop, hfront.append ⟨hstart, hnonempty, hsound, le_rfl⟩⟩

theorem pairwise (h : InTurn span sound lo items hi) :
    items.Pairwise fun before after => (span before).stop ≤ (span after).start := by
  induction items generalizing lo with
  | nil => exact .nil
  | cons item rest ih =>
    obtain ⟨-, -, -, hrest⟩ := h
    exact .cons (fun after hmem => (hrest.within_of_mem hmem).1) (ih hrest)

end InTurn

/-! ### Tokens and nodes in turn -/

/-- Tokens, each of them one of some others, are one after the other between two places. -/
abbrev Row (all : List Token) : Nat → List Token → Nat → Prop :=
  InTurn Token.span (· ∈ all)

/-- Nodes below which all are where they should be are one after the other between two places. -/
abbrev Laid (all : List Token) : Nat → List TreeNode → Nat → Prop :=
  InTurn TreeNode.span fun node => ∀ below, node.Holds below → below.Placed all

theorem Span.join_eq_of_le {a b : Span} (hstart : a.start ≤ b.start) (hstop : a.stop ≤ b.stop) :
    a.join b = ⟨a.start, b.stop⟩ := by
  rw [Span.join, min_eq_left hstart, max_eq_right hstop]

variable {all own : List Token} {lo mid hi : Nat}

theorem Span.Fits.join {a b : Span} (ha : a.Fits all) (hb : b.Fits all) : (a.join b).Fits all where
  nonempty := (min_le_left _ _).trans_lt (ha.nonempty.trans_le (le_max_left _ _))
  starts := Span.start_join (p := fun n => ∃ token ∈ all, token.span.start = n) ha.starts hb.starts
  stops := Span.stop_join (p := fun n => ∃ token ∈ all, token.span.stop = n) ha.stops hb.stops

theorem Row.fits (h : Row all lo own hi) {token : Token} (hmem : token ∈ own) :
    token.span.Fits all := by
  obtain ⟨front, behind, rfl⟩ := List.append_of_mem hmem
  obtain ⟨-, hnonempty, hin, -⟩ := h.right
  exact ⟨hnonempty, ⟨token, hin, rfl⟩, ⟨token, hin, rfl⟩⟩

/-- Tokens go on up to the end of the last of them. -/
theorem Row.up_to_last (h : Row all lo own hi) (hne : own ≠ []) :
    (lastSpan own).Fits all ∧ lo ≤ (lastSpan own).start ∧ (lastSpan own).stop ≤ hi ∧
      Row all lo own (lastSpan own).stop := by
  obtain rfl | ⟨front, last, rfl⟩ := List.eq_nil_or_concat' own
  · exact absurd rfl hne
  · rw [lastSpan_concat]
    exact ⟨h.fits (by simp), h.concat⟩

/-- Tokens are within the span from the first of them to the last one. -/
theorem Row.around (h : Row all lo own hi) (hne : own ≠ []) :
    (spanAround own).Fits all ∧ lo ≤ (spanAround own).start ∧ (spanAround own).stop ≤ hi ∧
      Row all (spanAround own).start own (spanAround own).stop := by
  cases own with
  | nil => exact absurd rfl hne
  | cons first rest =>
    obtain ⟨hfits, -, hstop, hrow⟩ := h.up_to_last hne
    have hfrom : Row all first.span.start (first :: rest) (lastSpan (first :: rest)).stop :=
      ⟨le_rfl, hrow.2⟩
    have hspan : spanAround (first :: rest) =
        ⟨first.span.start, (lastSpan (first :: rest)).stop⟩ :=
      Span.join_eq_of_le (hfrom.up_to_last hne).2.1 hrow.2.2.2.le
    have haround : (spanAround (first :: rest)).Fits all :=
      (h.fits List.mem_cons_self).join hfits
    rw [hspan] at haround ⊢
    exact ⟨haround, h.1, hstop, hfrom⟩

namespace Laid

variable {node first last child : TreeNode} {middle rest : List TreeNode} {span : Span}

/-- A node is where it should be if its span fits the tokens and its children are within it. -/
theorem single (hfits : node.span.Fits all) (hlo : lo ≤ node.span.start)
    (hhi : node.span.stop ≤ hi)
    (hchildren : Laid all node.span.start node.children node.span.stop) :
    Laid all lo [node] hi := by
  refine ⟨hlo, hfits.nonempty, fun below hbelow => ?_, hhi⟩
  obtain rfl | ⟨child, hchild, hrest⟩ := hbelow.cases_head
  · exact ⟨hfits, fun child hmem => hchildren.within_of_mem hmem, hchildren.pairwise⟩
  · exact hchildren.sound_of_mem hchild below hrest

theorem fits (h : Laid all lo (node :: rest) hi) : node.span.Fits all :=
  (h.sound_of_mem List.mem_cons_self node .refl).toFits

/-- A node without children that is one token. -/
theorem leaf {token : Token} (hrow : Row all lo [token] hi) (hspan : node.span = token.span)
    (hchildren : node.children = []) : Laid all lo [node] hi := by
  have hfits : token.span.Fits all := hrow.fits List.mem_cons_self
  obtain ⟨hstart, hnonempty, -, hstop⟩ := hrow
  rw [← hspan] at hfits hstart hnonempty hstop
  refine single hfits hstart hstop ?_
  rw [hchildren]
  exact hnonempty.le

/-- A node that is all of some tokens. -/
theorem around (hrow : Row all lo own hi) (hne : own ≠ []) (hspan : node.span = spanAround own)
    (hchildren : ∀ {lo hi}, Row all lo own hi → Laid all lo node.children hi) :
    Laid all lo [node] hi := by
  obtain ⟨hfits, hstart, hstop, htight⟩ := hrow.around hne
  rw [← hspan] at hfits hstart hstop htight
  exact single hfits hstart hstop (hchildren htight)

/-- A node from the start of one span to the end of another one. -/
theorem joined {a b : Span} (ha : a.Fits all) (hb : b.Fits all) (horder : a.stop ≤ b.start)
    (hlo : lo ≤ a.start) (hhi : b.stop ≤ hi) (hspan : node.span = a.join b)
    (hchildren : Laid all a.start node.children b.stop) : Laid all lo [node] hi := by
  have hfits : node.span.Fits all := hspan ▸ ha.join hb
  rw [Span.join_eq_of_le (ha.nonempty.le.trans horder) (horder.trans hb.nonempty.le)] at hspan
  refine single hfits ?_ ?_ ?_
  · rwa [hspan]
  · rwa [hspan]
  · rwa [hspan]

/-- A node from the start of its first child to the end of a span. -/
theorem upTo (h : Laid all lo (first :: rest) span.stop) (hfits : span.Fits all)
    (horder : first.span.stop ≤ span.start) (hhi : span.stop ≤ hi)
    (hspan : node.span = first.span.join span) (hchildren : node.children = first :: rest) :
    Laid all lo [node] hi := by
  refine joined h.fits hfits horder h.1 hhi hspan ?_
  rw [hchildren]
  exact ⟨le_rfl, h.2⟩

/-- A node from the start of its first child to the end of its last one. -/
theorem ends (h : Laid all lo (first :: (middle ++ [last])) hi)
    (hspan : node.span = first.span.join last.span)
    (hchildren : node.children = first :: (middle ++ [last])) : Laid all lo [node] hi := by
  obtain ⟨hstart, hnonempty, hsound, hrest⟩ := h
  obtain ⟨horder, hhi, htight⟩ := hrest.concat
  have hlast : last.span.Fits all := (hrest.sound_of_mem (by simp) last .refl).toFits
  exact upTo ⟨hstart, hnonempty, hsound, htight⟩ hlast horder hhi hspan hchildren

/-- A node from the start of a word to the end of its only child. -/
theorem behind {word : Token} (hrow : Row all lo (word :: own) hi)
    (h : Laid all word.span.stop [child] hi) (hspan : node.span = word.span.join child.span)
    (hchildren : node.children = [child]) : Laid all lo [node] hi := by
  have hword : word.span.Fits all := hrow.fits List.mem_cons_self
  refine joined hword h.fits h.1 hrow.1 h.after hspan ?_
  rw [hchildren]
  exact ⟨hword.nonempty.le.trans h.1, h.2.1, h.2.2.1, le_rfl⟩

end Laid

/-! ### The nodes of pieces -/

/-- The nodes that a piece of a tree consists of. -/
def Phrase.nodes : Phrase → List TreeNode
  | .expr value | .padded value | .member _ value => [.expr value]
  | .items values => values.map .expr
  | .members properties => properties.map fun property => .expr property.2
  | .names _ | .params _ => []
  | .body b => b.nodes
  | .stmt s => [.stmt s]
  | .stmts many | .spaced many | .branch many => many.map .stmt
  | .enclosed _ inside => inside.nodes

variable {apart : List Token → Stmt → List Token → Prop} {phrase : Phrase}

/-- Where tokens that are a piece of a tree are one after the other, so are its nodes. -/
theorem Forms.laid (h : Forms apart own phrase) (hrow : Row all lo own hi) :
    Laid all lo phrase.nodes hi := by
  induction h generalizing lo hi with
  | noItems | noMembers | noNames | lastName | nextName | param | params | noStmts =>
    exact hrow.le
  | enclosed _ _ _ _ ih => exact ih hrow.tail.left
  | padded _ _ _ ih | lastMember _ _ _ ih | spaced _ _ _ ih => exact ih hrow.right.left
  | group _ ih | lastItem _ ih | value _ ih | run _ ih | braced _ ih | single _ ih
  | lastStmt _ ih => exact ih hrow
  | @atom token make h =>
    have hmake : (make token.span).span = token.span ∧ (make token.span).children = [] := by
      generalize token.kind = kind at h
      cases kind <;> cases h <;> exact ⟨rfl, rfl⟩
    exact .leaf hrow hmake.1 hmake.2
  | shorthand | leaving => exact .leaf hrow rfl rfl
  | array h ih | object h ih | block h ih =>
    exact .around hrow (h.leading trivial).ne_nil rfl ih
  -- Parentheses around a child are not part of it, so these begin where the child does.
  | @member _ _ _ word _ _ _ _ _ _ ih =>
    obtain ⟨mid, hown, hrest⟩ := hrow.split
    have hword : word.span.Fits all := Row.fits hrest (by simp)
    obtain ⟨hstart, hnonempty, -, hstop⟩ := hrest.right.tail
    have htarget := (ih hown).raise (hstart.trans hnonempty.le)
    exact .upTo htarget hword ((ih hown).after.trans hstart) hstop rfl rfl
  | index _ hkey ih ihkey =>
    obtain ⟨mid, hown, hrest⟩ := hrow.split
    obtain ⟨hfits, hstart, hstop, hinside⟩ := Row.up_to_last hrest (hkey.leading trivial).ne_nil
    have hboth := (ih hown).append (ihkey hinside)
    exact .upTo hboth hfits ((ih hown).after.trans hstart) hstop rfl rfl
  | call _ hargs ih ihargs =>
    obtain ⟨mid, hown, hrest⟩ := hrow.split
    obtain ⟨hfits, hstart, hstop, hinside⟩ := Row.up_to_last hrest (hargs.leading trivial).ne_nil
    have hboth := (ih hown).append (ihargs hinside)
    exact .upTo hboth hfits ((ih hown).after.trans hstart) hstop rfl rfl
  | construct _ _ ih =>
    exact .around hrow (List.cons_ne_nil _ _) rfl fun hrow => ih hrow.tail
  | constructWith _ _ _ ih ihargs =>
    refine .around hrow (List.cons_ne_nil _ _) rfl fun hrow => ?_
    obtain ⟨mid, hown, hrest⟩ := hrow.tail.split
    exact (ih hown).append (ihargs hrest)
  | @arrow own gap inside mark _ _ _ _ _ _ _ ih =>
    have hne : own ++ mark :: (gap ++ inside) ≠ [] := by simp
    refine .around hrow hne rfl fun hrow => .around hrow hne rfl fun hrow => ?_
    exact ih hrow.right.tail.right
  | unary _ _ ih | throwing _ _ ih | returning _ _ ih => exact .behind hrow (ih hrow.after) rfl rfl
  | @operator _ _ _ _ _ op left right _ _ _ _ _ ih ihright =>
    obtain ⟨mid, hown, hrest⟩ := hrow.split
    have hboth : Laid all lo (.expr left :: ([] ++ [.expr right])) hi :=
      (ih hown).append (ihright hrest.right.tail.right)
    refine .ends hboth (Infix.span_build op left right) ?_
    obtain ⟨_ | _, _, _⟩ := op <;> rfl
  | @conditional _ _ _ _ _ _ _ test yes no _ _ _ _ _ _ _ ih ihyes ihno =>
    obtain ⟨mid, hown, hrest⟩ := hrow.split
    obtain ⟨mid', hinside, hother⟩ := hrest.right.tail.split
    have hall : Laid all lo (.expr test :: ([.expr yes] ++ [.expr no])) hi :=
      (ih hown).append ((ihyes hinside).append (ihno hother.tail.right))
    exact .ends hall rfl rfl
  | @assign _ _ _ _ _ target value _ _ _ _ _ ih ihvalue =>
    obtain ⟨mid, hown, hrest⟩ := hrow.split
    have hboth : Laid all lo (.expr target :: ([] ++ [.expr value])) hi :=
      (ih hown).append (ihvalue hrest.tail.right)
    exact .ends hboth rfl rfl
  | nextItem _ _ _ ih ihrest =>
    obtain ⟨mid, hown, hrest⟩ := hrow.split
    exact (ih hown).append (ihrest hrest.tail)
  | keyed _ _ _ _ ih => exact ih hrow.tail.tail.right
  | nextMember _ _ _ _ _ ih ihrest =>
    obtain ⟨mid, hown, hrest⟩ := hrow.right.split
    exact (ih hown).append (ihrest hrest.right.tail)
  | effect _ ih =>
    obtain ⟨hstart, hnonempty, hsound, hstop⟩ := ih hrow
    exact .single (ih hrow).fits hstart hstop ⟨le_rfl, hnonempty, hsound, le_rfl⟩
  | declare => exact .around hrow (List.cons_ne_nil _ _) rfl InTurn.le
  | declareAs _ _ _ _ _ ih =>
    exact .around hrow (List.cons_ne_nil _ _) rfl fun hrow => ih hrow.tail.tail.tail.right
  | branch _ _ _ _ ih ihyes =>
    refine .around hrow (List.cons_ne_nil _ _) rfl fun {_ hi} hrow => ?_
    obtain ⟨mid, hown, hrest⟩ := hrow.tail.split
    have hnone : Laid all hi [] hi := le_refl hi
    exact (ih hown).append ((ihyes hrest.right).append hnone)
  | branches _ _ _ _ _ _ _ _ ih ihyes ihno =>
    refine .around hrow (List.cons_ne_nil _ _) rfl fun hrow => ?_
    obtain ⟨mid, hown, hrest⟩ := hrow.tail.split
    obtain ⟨mid', hinside, hother⟩ := hrest.right.split
    exact (ih hown).append ((ihyes hinside).append (ihno hother.right.tail.right))
  | nextStmt _ _ _ _ ih ihrest =>
    obtain ⟨mid, hown, hrest⟩ := hrow.split
    exact (ih hown).append (ihrest hrest.right)

/-! ### Programs -/

/-- Tokens that tile a text are one after the other, up to the end. -/
theorem Tiles.row {offset : Nat} {s : List Char} {stop : Token}
    (h : Tiles offset s (own ++ [stop])) (hsub : own ⊆ all) :
    Row all offset own stop.span.start := by
  generalize hfound : own ++ [stop] = found at h
  induction h generalizing own with
  | done hgap =>
    obtain ⟨rfl, hlast⟩ | ⟨-, hnone⟩ := List.append_eq_singleton_iff.mp hfound
    · obtain ⟨rfl, -⟩ := List.cons.inj hlast
      exact Nat.le_add_right _ _
    · cases hnone
  | @token offset gap text rest kind found hgap hne hkind halone hrest ih =>
    cases own with
    | nil =>
      -- Behind every token there is one more.
      obtain ⟨-, rfl⟩ := List.cons.inj hfound
      cases hrest
    | cons first own =>
      obtain ⟨rfl, hothers⟩ := List.cons.inj hfound
      obtain ⟨hin, hown⟩ := List.cons_subset.mp hsub
      refine ⟨Nat.le_add_right _ _, ?_, hin, ih hown hothers⟩
      dsimp only
      rw [Text.byteSize_append, ← Nat.add_assoc]
      exact Nat.lt_add_of_pos_right (Text.byteSize_pos hne)

/-- **The spans of a tree nest and follow the source.** The statements of a text come one after the
other, and each node of each of them is where it should be among the tokens of the text, of which
the end is none. -/
theorem spans_nest {source : String} {program : List Stmt} (h : parse source = .ok program) :
    ∃ own stop, tokens source = .ok (own ++ [stop]) ∧ stop.kind = .eof ∧
      (program.Pairwise fun before after => before.span.stop ≤ after.span.start) ∧
      ∀ stmt ∈ program, ∀ node, (TreeNode.stmt stmt).Holds node → node.Placed own := by
  obtain ⟨own, stop, htokens, hstop, hforms⟩ :=
    Parser.forms_of_parse Parser.separatedBy_anything h
  have hrow : Row own 0 own stop.span.start :=
    (tiles_of_tokensFrom htokens).row (List.Subset.refl own)
  have hlaid : Laid own 0 (program.map .stmt) stop.span.start := hforms.laid hrow
  refine ⟨own, stop, htokens, hstop, List.pairwise_map.mp hlaid.pairwise, fun stmt hmem => ?_⟩
  exact hlaid.sound_of_mem (List.mem_map_of_mem hmem)

/-- Operands in parentheses, a chain over two lines, branches in a row and a function at the end. -/
theorem spans_nest_sample :
    ∃ program own stop,
      parse "if (a) b else if ((c)) (d)\n.e(f)\ng = (h) + \x7bi, j: (k) => \x7bl\x7d\x7d" =
        .ok program ∧ program.length = 2 ∧
      tokens "if (a) b else if ((c)) (d)\n.e(f)\ng = (h) + \x7bi, j: (k) => \x7bl\x7d\x7d" =
        .ok (own ++ [stop]) ∧
      ∀ stmt ∈ program, ∀ node, (TreeNode.stmt stmt).Holds node → node.Placed own := by
  have hlength :
      (parse "if (a) b else if ((c)) (d)\n.e(f)\ng = (h) + \x7bi, j: (k) => \x7bl\x7d\x7d"
        ).toOption.map List.length = some 2 := by
    decide +kernel
  obtain ⟨program, hparse, hprogram⟩ := exists_ok_of_map hlength
  obtain ⟨own, stop, htokens, -, -, hplaced⟩ := spans_nest hparse
  exact ⟨program, own, stop, hparse, hprogram, htokens, hplaced⟩

end Doctest.Script
