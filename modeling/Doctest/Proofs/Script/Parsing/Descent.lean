import Doctest.Proofs.Script.Parsing.Outcomes

/-!
# Ten levels for each token

Between two tokens that it takes the parser descends less than ten levels. So with ten levels for
each token every parser settles: what it takes is a piece of a tree by the grammar, or it fails at
one of the tokens, and more levels change nothing.
-/

namespace Doctest.Script.Parser

/-! ### Levels -/

/-- So many tokens at most, the end among them, and ten levels for each of them and some more. -/
structure Room (rank n : Nat) (tokens : List Token) (levels levels' : Nat) : Prop where
  ended : Ended tokens
  length_le : tokens.length ≤ n
  left : 10 * tokens.length + rank ≤ levels
  right : 10 * tokens.length + rank ≤ levels'

namespace Room

variable {rank n levels levels' : Nat} {tokens taken more : List Token}

theorem mono (h : Room rank n tokens levels levels') {less : Nat} (hless : less ≤ rank) :
    Room less n tokens levels levels' :=
  ⟨h.ended, h.length_le, by have := h.left; omega, by have := h.right; omega⟩

/-- One level is used. -/
theorem down (h : Room (rank + 1) n tokens (levels + 1) (levels' + 1)) :
    Room rank n tokens levels levels' :=
  ⟨h.ended, h.length_le, by have := h.left; omega, by have := h.right; omega⟩

theorem exists_levels (h : Room rank n tokens levels levels') :
    ∃ m m', levels = m + 1 ∧ levels' = m' + 1 := by
  obtain ⟨first, more, rfl⟩ := h.ended.exists_cons
  have hleft := h.left
  have hright := h.right
  rw [List.length_cons] at hleft hright
  exact ⟨levels - 1, levels' - 1, by omega, by omega⟩

/-- Some tokens are taken, or none. -/
theorem rest (h : Room rank n tokens levels levels') (hended : Ended more)
    (hlength : more.length ≤ tokens.length) : Room rank n more levels levels' :=
  ⟨hended, Nat.le_trans hlength h.length_le, by have := h.left; omega, by have := h.right; omega⟩

/-- Some tokens are taken, and a level is used. -/
theorem after (h : Room rank (n + 1) tokens (levels + 1) (levels' + 1)) (hended : Ended more)
    (hlength : more.length < tokens.length) : Room 9 n more levels levels' := by
  have hleft := h.left
  have hright := h.right
  have hbound := h.length_le
  exact ⟨hended, by omega, by omega, by omega⟩

end Room

/-! ### What is taken -/

variable {apart : List Token → Stmt → List Token → Prop}

/-- Some tokens are an expression and line breaks behind it, and line breaks only if a certain token
comes next. -/
def Pending (apart : List Token → Stmt → List Token → Prop) (stops : TokenKind → Prop)
    (own rest : List Token) (e : Expr) : Prop :=
  ∃ core gap, own = core ++ gap ∧ Forms apart core (.expr e) ∧ Feeds gap ∧
    (gap ≠ [] → ∃ token ∈ rest.head?, stops token.kind)

namespace Pending

variable {stops : TokenKind → Prop} {own rest : List Token} {e : Expr}

theorem of_forms (h : Forms apart own (.expr e)) : Pending apart stops own rest e :=
  ⟨own, [], (List.append_nil own).symm, h, .nil, fun hne => absurd rfl hne⟩

theorem forms (h : Pending apart stops own rest e)
    (hhead : ∀ token ∈ rest.head?, ¬ stops token.kind) : Forms apart own (.expr e) := by
  obtain ⟨core, gap, rfl, hcore, -, hgap⟩ := h
  cases gap with
  | nil => rwa [List.append_nil]
  | cons token gap =>
    obtain ⟨next, hnext, hstops⟩ := hgap (List.cons_ne_nil token gap)
    exact absurd hstops (hhead next hnext)

theorem mono {more : TokenKind → Prop} (h : Pending apart stops own rest e)
    (hmore : ∀ kind, stops kind → more kind) : Pending apart more own rest e := by
  obtain ⟨core, gap, rfl, hcore, hgap, hne⟩ := h
  refine ⟨core, gap, rfl, hcore, hgap, fun hgap => ?_⟩
  obtain ⟨token, htoken, hstops⟩ := hne hgap
  exact ⟨token, htoken, hmore _ hstops⟩

end Pending

/-- A token with which an expression goes on behind line breaks. -/
def Continues (kind : TokenKind) : Prop :=
  kind = .symbol .question ∨ kind.infix?.isSome = true

/-- A token at which operands with operators that bind at least so tightly end, but with which the
expression goes on. -/
def Loosens (least : Nat) (kind : TokenKind) : Prop :=
  kind = .symbol .question ∨ ∃ op, kind.infix? = some op ∧ op.left < least

/-- What the grammar asks between two statements holds wherever a separator is that is needed. -/
def SeparatedBy (apart : List Token → Stmt → List Token → Prop) : Prop :=
  ∀ own stmt gap, Forms apart own (.stmt stmt) → Separators gap →
    (stmt.needsSeparator = true → gap ≠ []) → apart own stmt gap

/-- Between two statements anything may stand. -/
abbrev Anything (_ : List Token) (_ : Stmt) (_ : List Token) : Prop :=
  True

theorem separatedBy_anything : SeparatedBy Anything :=
  fun _ _ _ _ _ _ => trivial

/-- A statement before others, where a separator is taken behind it if one is needed. -/
theorem spaced_cons {gap own sep more : List Token} {stmt : Stmt} {stmts : List Stmt}
    (hapart : SeparatedBy apart) (hgap : Separators gap) (hown : Forms apart own (.stmt stmt))
    (hsep : Separators sep) (hmore : Forms apart more (.spaced stmts))
    (hneeds : stmt.needsSeparator = true → sep = [] → ∀ token ∈ more.head?,
      token.kind = .eof ∨ token.kind = .symbol .rbrace) :
    Forms apart (gap ++ (own ++ (sep ++ more))) (.spaced (stmt :: stmts)) := by
  cases hmore with
  | @spaced lead inner behind _ hlead hinner hbehind =>
  cases stmts with
  | nil =>
    cases hinner
    refine .spaced hgap (.lastStmt hown) (hsep.append ?_)
    exact hlead.append hbehind
  | cons next stmts =>
    have hleading : Leading inner := by
      cases hinner with
      | lastStmt h => exact h.leading trivial
      | nextStmt h => exact (h.leading trivial).append _
    -- Where nothing separates the two, a closing brace comes next, with which no statement begins.
    have hbetween : stmt.needsSeparator = true → sep ++ lead ≠ [] := by
      intro hstmt hnone
      obtain ⟨rfl, rfl⟩ := List.append_eq_nil_iff.mp hnone
      obtain ⟨first, rest, rfl, hleads⟩ := hleading
      rcases hneeds hstmt rfl first rfl with hend | hbrace
      · rw [hend] at hleads
        cases hleads
      · rw [hbrace] at hleads
        cases hleads
    have happly := hapart own stmt (sep ++ lead) hown (hsep.append hlead) hbetween
    have hboth := Forms.spaced hgap (.nextStmt hown (hsep.append hlead) happly hinner) hbehind
    simpa using hboth

/-- Behind a statement the separator is taken, if one is needed, and then other statements. -/
theorem settles_others {x y : Parser (List Stmt)} {gap own tokens : List Token} {stmt : Stmt}
    (final : List Token → Prop) (hapart : SeparatedBy apart) (hgap : Separators gap)
    (hstmt : Forms apart own (.stmt stmt)) (hended : Ended tokens)
    (hothers : ∀ {rest}, Ended rest → rest.length ≤ tokens.length →
      Settles x y [] rest fun own rest stmts => Forms apart own (.spaced stmts) ∧ final rest) :
    Settles
      (do
        if stmt.needsSeparator then Parser.separator
        return stmt :: (← x))
      (do
        if stmt.needsSeparator then Parser.separator
        return stmt :: (← y)) (gap ++ own) tokens
      fun own rest stmts => Forms apart own (.spaced stmts) ∧ final rest := by
  have hcons {sep rest : List Token} (hended : Ended rest) (hlength : rest.length ≤ tokens.length)
      (hsep : Separators sep) (hneeds : stmt.needsSeparator = true → sep = [] →
        ∀ token ∈ rest.head?, token.kind = .eof ∨ token.kind = .symbol .rbrace) :
      Settles (do return stmt :: (← x)) (do return stmt :: (← y)) (gap ++ own ++ sep) rest
        fun own rest stmts => Forms apart own (.spaced stmts) ∧ final rest := by
    refine .bind hended (hothers hended hlength) ?_
    rintro more rest stmts rfl hended ⟨hstmts, hfinal⟩
    refine .pure ⟨?_, hfinal⟩
    have hhead (hneeds' : stmt.needsSeparator = true) (hnone : sep = []) :
        ∀ token ∈ more.head?, token.kind = .eof ∨ token.kind = .symbol .rbrace := by
      intro token htoken
      refine hneeds hneeds' hnone token ?_
      cases more with
      | nil => cases htoken
      | cons => exact htoken
    have hwhole := spaced_cons hapart hgap hstmt hsep hstmts hhead
    simpa using hwhole
  split
  · refine .bind hended (.separator hended) ?_
    rintro sep rest _ rfl hended ⟨hsep, hend⟩
    exact hcons hended (by simp) hsep fun _ => hend
  · next hneeds =>
    have hgoes := hcons hended le_rfl .nil fun hneeds' => absurd hneeds' hneeds
    simpa using hgoes

/-- With ten levels for each of so many tokens and nine more, every parser settles. -/
structure Descends (apart : List Token → Stmt → List Token → Prop) (n : Nat) : Prop where
  parameters : ∀ {tokens m m'}, Room 9 n tokens m m' →
    Settles (parameters m) (parameters m') [] tokens fun own _ names =>
      ∀ gap, Feeds gap → Forms apart (gap ++ own) (.names names)
  statement : ∀ (inBody : Bool) {tokens m m'}, Room 9 n tokens m m' →
    Settles (statement m inBody) (statement m' inBody) [] tokens fun own _ stmt =>
      Forms apart own (.stmt stmt)
  conditionalStatement : ∀ (inBody : Bool) {word more m m'}, word.kind = .keyword .kwIf →
    Room 9 n (word :: more) m m' →
    Settles (conditionalStatement m inBody) (conditionalStatement m' inBody) [] (word :: more)
      fun own _ stmt => Forms apart own (.stmt stmt)
  branchBody : ∀ (inBody : Bool) {tokens m m'}, Room 9 n tokens m m' →
    Settles (branchBody m inBody) (branchBody m' inBody) [] tokens fun own _ stmts =>
      Forms apart own (.branch stmts)
  block : ∀ (inBody : Bool) {tokens m m'}, Room 9 n tokens m m' →
    Settles (block m inBody) (block m' inBody) [] tokens fun own _ stmts =>
      Forms apart own (.enclosed .lbrace (.spaced stmts))
  blockStatements : ∀ (inBody : Bool) {tokens m m'}, Room 9 n tokens m m' →
    Settles (blockStatements m inBody) (blockStatements m' inBody) [] tokens fun own _ stmts =>
      Forms apart own (.spaced stmts)
  assignment : ∀ (inBody : Bool) {tokens m m'}, Room 9 n tokens m m' →
    Settles (assignment m inBody) (assignment m' inBody) [] tokens fun own _ e =>
      Forms apart own (.expr e)
  binary : ∀ (inBody : Bool) (least : Nat) {tokens m m'}, Room 9 n tokens m m' →
    Settles (binary m inBody least) (binary m' inBody least) [] tokens fun own rest e =>
      Pending apart (Loosens least) own rest e
  binaryRest : ∀ (inBody : Bool) (least : Nat) {own tokens left m m'},
    Pending apart Continues own tokens left → Room 9 n tokens m m' →
    Settles (binaryRest m inBody least left) (binaryRest m' inBody least left) [] tokens
      fun taken rest e => Pending apart (Loosens least) (own ++ taken) rest e
  unary : ∀ (inBody : Bool) {tokens m m'}, Room 9 n tokens m m' →
    Settles (unary m inBody) (unary m' inBody) [] tokens fun own _ e => Forms apart own (.expr e)
  suffixes : ∀ (inBody : Bool) {own tokens operand m m'},
    Pending apart (· = .symbol .dot) own tokens operand → Room 9 n tokens m m' →
    Settles (suffixes m inBody operand) (suffixes m' inBody operand) [] tokens
      fun taken _ e => Forms apart (own ++ taken) (.expr e)
  arguments : ∀ (inBody : Bool) {tokens m m'}, Room 9 n tokens m m' →
    Settles (arguments m inBody) (arguments m' inBody) [] tokens fun own _ args =>
      Forms apart own (.enclosed .lparen (.items args))
  elements : ∀ (inBody : Bool) (close : Symbol) {tokens m m'}, Room 9 n tokens m m' →
    Settles (elements m inBody close) (elements m' inBody close) [] tokens fun own _ items =>
      ∀ gap, Feeds gap → Forms apart (gap ++ own) (.items items)
  primary : ∀ (inBody : Bool) {tokens m m'}, Room 9 n tokens m m' →
    Settles (primary m inBody) (primary m' inBody) [] tokens fun own _ e =>
      Forms apart own (.expr e)
  properties : ∀ (inBody : Bool) {tokens m m'}, Room 9 n tokens m m' →
    Settles (properties m inBody) (properties m' inBody) [] tokens fun own _ props =>
      ∀ gap, Feeds gap → Forms apart (gap ++ own) (.members props)
  calleeSuffixes : ∀ (inBody : Bool) {own tokens callee m m'},
    Forms apart own (.expr callee) → Room 9 n tokens m m' →
    Settles (calleeSuffixes m inBody callee) (calleeSuffixes m' inBody callee) [] tokens
      fun taken _ e => Forms apart (own ++ taken) (.expr e)

namespace Descends

section

variable {n : Nat} (ih : Descends apart n) (inBody : Bool) {tokens : List Token} {m m' : Nat}
include ih

theorem next_parameters (hroom : Room 0 (n + 1) tokens m m') :
    Settles (Script.parameters m) (Script.parameters m') [] tokens fun own _ names =>
      ∀ gap, Feeds gap → Forms apart (gap ++ own) (.names names) := by
  obtain ⟨m, m', rfl, rfl⟩ := hroom.exists_levels
  unfold Script.parameters
  refine .sees hroom.ended ?_ ?_
  · rintro token more rfl -
    refine .pure fun gap hgap => ?_
    rw [List.append_nil]
    exact .noNames hgap
  rintro word more rfl -
  refine .bind hroom.ended (.identifier hroom.ended) ?_
  rintro _ more name hword hended ⟨word, rfl, hname⟩
  obtain ⟨rfl, rfl⟩ := List.cons.inj hword
  refine .skipNewlines hended ?_
  rintro gap' more rfl hgap' - hended
  refine .accept hended ?_ ?_
  · rintro comma more rfl hcomma hended
    refine .skipNewlines hended ?_
    rintro gap'' more rfl hgap'' - hended'
    refine .bind hended' (ih.parameters (hroom.after hended' (by grind))) ?_
    rintro own rest names rfl - hnames
    refine .pure fun gap hgap => ?_
    have := Forms.nextName hgap hname hgap' hcomma (hnames gap'' hgap'')
    simpa using this
  · rintro token more rfl -
    refine .pure fun gap hgap => ?_
    exact .lastName hgap hname hgap'

/-! ### Operands -/

theorem next_calleeSuffixes {own : List Token} {callee : Expr}
    (hcallee : Forms apart own (.expr callee)) (hroom : Room 0 (n + 1) tokens m m') :
    Settles (Script.calleeSuffixes m inBody callee)
      (Script.calleeSuffixes m' inBody callee) [] tokens
      fun taken _ e => Forms apart (own ++ taken) (.expr e) := by
  obtain ⟨m, m', rfl, rfl⟩ := hroom.exists_levels
  unfold Script.calleeSuffixes
  refine .kind hroom.ended ?_
  rintro token more rfl
  split
  · next hdot =>
    have hbehind := hroom.ended.tail (hdot ▸ nofun)
    refine .advance (hdot ▸ nofun) (.bind hbehind (.propertyName hbehind) ?_)
    rintro _ more name rfl hended ⟨word, rfl, hname⟩
    refine .spanFrom hended (List.cons_ne_nil _ _) ?_
    have hmember := Forms.member hcallee .nil hdot hname
    refine .rest (ih.calleeSuffixes inBody hmember (hroom.after hended (by grind))) ?_
    rintro taken rest e rfl h
    simpa using h
  · next hopen =>
    have hbehind := hroom.ended.tail (hopen ▸ nofun)
    refine .advance (hopen ▸ nofun) ?_
    refine .bind hbehind (ih.assignment inBody (hroom.after hbehind ?_)) ?_
    · grind
    rintro inside more key rfl hended hkey
    refine .expect hended ?_
    rintro last more rfl hlast hended
    refine .spanFrom hended (List.cons_ne_nil _ _) ?_
    have hbracket := Forms.enclosed rfl hopen (.padded .nil hkey .nil) hlast
    have hindex := Forms.index hcallee hbracket
    rw [List.append_nil] at hindex
    refine .rest (ih.calleeSuffixes inBody hindex (hroom.after hended (by grind))) ?_
    rintro taken rest e rfl h
    simpa using h
  · exact .pure (by rwa [List.append_nil])

theorem next_arguments (hroom : Room 0 (n + 1) tokens m m') :
    Settles (Script.arguments m inBody) (Script.arguments m' inBody) [] tokens
      fun own _ args => Forms apart own (.enclosed .lparen (.items args)) := by
  obtain ⟨m, m', rfl, rfl⟩ := hroom.exists_levels
  unfold Script.arguments
  refine .expect hroom.ended ?_
  rintro first more rfl hfirst hended
  refine .skipNewlines hended ?_
  rintro gap more rfl hgap - hended
  refine .bind hended (ih.elements inBody .rparen (hroom.after hended (by grind))) ?_
  rintro own more args rfl hended hargs
  refine .expect hended ?_
  rintro last more rfl hlast -
  refine .pure ?_
  have hbracket := Forms.enclosed rfl hfirst (hargs gap hgap) hlast
  simpa using hbracket

theorem next_properties (hroom : Room 0 (n + 1) tokens m m') :
    Settles (Script.properties m inBody) (Script.properties m' inBody) [] tokens
      fun own _ props => ∀ gap, Feeds gap → Forms apart (gap ++ own) (.members props) := by
  obtain ⟨m, m', rfl, rfl⟩ := hroom.exists_levels
  have hrest (key : String) {value : Expr} {own more : List Token} (hended : Ended more)
      (hmember : Forms apart own (.member key value))
      (hroom : Room 9 n more m m') :
      Settles
        (do
          Parser.skipNewlines
          if ← accept .comma then
            Parser.skipNewlines
            return (key, value) :: (← Script.properties m inBody)
          else return [(key, value)])
        (do
          Parser.skipNewlines
          if ← accept .comma then
            Parser.skipNewlines
            return (key, value) :: (← Script.properties m' inBody)
          else return [(key, value)]) own more
        fun own _ props => ∀ gap, Feeds gap → Forms apart (gap ++ own) (.members props) := by
    refine .skipNewlines hended ?_
    rintro gap' more rfl hgap' - hended
    refine .accept hended ?_ ?_
    · rintro comma more rfl hcomma hended
      refine .skipNewlines hended ?_
      rintro gap'' more rfl hgap'' - hended
      refine .bind hended (ih.properties inBody (hroom.rest hended (by grind))) ?_
      rintro other rest props rfl - hprops
      refine .pure fun gap hgap => ?_
      have hnext := Forms.nextMember hgap hmember hgap' hcomma (hprops gap'' hgap'')
      simpa using hnext
    · rintro token more rfl -
      refine .pure fun gap hgap => ?_
      simpa using Forms.lastMember hgap hmember hgap'
  unfold Script.properties
  refine .sees hroom.ended ?_ ?_
  · rintro token more rfl -
    refine .pure fun gap hgap => ?_
    rw [List.append_nil]
    exact .noMembers hgap
  rintro token behind rfl -
  refine .bind hroom.ended (.objectKey hroom.ended) ?_
  rintro _ more ⟨name, value?⟩ htokens hended ⟨key, rfl, hkey, hown⟩
  obtain ⟨rfl, rfl⟩ := List.cons.inj htokens
  dsimp only at hkey hown ⊢
  refine .accept hended ?_ ?_
  · rintro colon more rfl hcolon hended
    refine .skipNewlines hended ?_
    rintro gap more rfl hgap - hended
    refine .bind hended (ih.assignment inBody (hroom.after hended (by grind))) ?_
    rintro own more value rfl hended hvalue
    have hmember := Forms.keyed hkey hcolon hgap hvalue
    have hgoes := hrest name hended hmember (hroom.after hended (by grind))
    simpa using hgoes
  · rintro next more rfl -
    cases value? with
    | none =>
      have hfails : Settles (Parser.failHere : Parser Expr) Parser.failHere [] (next :: more)
          fun _ _ _ => False :=
        .failHere hended
      exact .bind hended hfails fun _ _ _ _ _ h => h.elim
    | some value =>
      obtain ⟨hident, rfl⟩ := hown value rfl
      exact hrest name hended (.shorthand hident) (hroom.after hended (by grind))

theorem next_construction {word : Token} {more : List Token} (hword : word.kind = .keyword .kwNew)
    (hroom : Room 0 (n + 1) (word :: more) m m') :
    Settles (Script.construction m inBody) (Script.construction m' inBody) []
      (word :: more) fun own _ e => Forms apart own (.expr e) := by
  obtain ⟨m, m', rfl, rfl⟩ := hroom.exists_levels
  unfold Script.construction
  have hbehind := hroom.ended.tail (by simp [hword])
  refine .next hroom.ended (by simp [hword]) ?_
  refine .bind hbehind (ih.primary inBody (hroom.after hbehind (by grind))) ?_
  rintro own more first rfl hended hfirst
  refine .bind hended (ih.calleeSuffixes inBody hfirst (hroom.after hended (by grind))) ?_
  rintro own' more callee rfl hended hcallee
  refine .sees hended ?_ ?_
  · rintro token more rfl -
    refine .bind hended (ih.arguments inBody (hroom.after hended (by grind))) ?_
    rintro inside rest args htokens hended' hargs
    refine .spanFrom hended' (by simp) (.pure ?_)
    have hwhole := Forms.constructWith hword hcallee hargs
    simpa [spanAround] using hwhole
  · rintro token more rfl -
    refine .spanFrom hended (by simp) (.pure ?_)
    have hwhole := Forms.construct hword hcallee
    simpa [spanAround] using hwhole

theorem next_primary (hroom : Room 1 (n + 1) tokens m m') :
    Settles (Script.primary m inBody) (Script.primary m' inBody) [] tokens
      fun own _ e => Forms apart own (.expr e) := by
  obtain ⟨m, m', rfl, rfl⟩ := hroom.exists_levels
  obtain ⟨token, more, rfl⟩ := hroom.ended.exists_cons
  unfold Script.primary
  refine .get hroom.ended (fun c halike => ?_) (fun c halike => ?_) ?_
  · rw [halike.current]
    rfl
  · rw [halike.current]
    rfl
  dsimp only [Cursor.current, List.headD_cons]
  split
  · next x hkind => exact .advance (hkind ▸ nofun) (.pure (.atom (by rw [hkind]; rfl)))
  · next s hkind => exact .advance (hkind ▸ nofun) (.pure (.atom (by rw [hkind]; rfl)))
  · next b hkind => exact .advance (hkind ▸ nofun) (.pure (.atom (by rw [hkind]; rfl)))
  · next hkind => exact .advance (hkind ▸ nofun) (.pure (.atom (by rw [hkind]; rfl)))
  · next hkind => exact .advance (hkind ▸ nofun) (.pure (.atom (by rw [hkind]; rfl)))
  · next name hkind => exact .advance (hkind ▸ nofun) (.pure (.atom (by rw [hkind]; rfl)))
  · next hopen =>
    refine .advance (hopen ▸ nofun) (.skipNewlines (hroom.ended.tail (hopen ▸ nofun)) ?_)
    rintro gap more rfl hgap - hended
    refine .bind hended (ih.assignment inBody (hroom.after hended (by grind))) ?_
    rintro own more inner rfl hended hinner
    refine .skipNewlines hended ?_
    rintro gap' more rfl hgap' - hended
    refine .expect hended ?_
    rintro last more rfl hlast -
    refine .pure ?_
    have hgroup := Forms.group (.enclosed rfl hopen (.padded hgap hinner hgap') hlast)
    simpa using hgroup
  · next hopen =>
    refine .advance (hopen ▸ nofun) (.skipNewlines (hroom.ended.tail (hopen ▸ nofun)) ?_)
    rintro gap more rfl hgap - hended
    refine .bind hended (ih.elements inBody .rbracket (hroom.after hended (by grind))) ?_
    rintro own more items rfl hended hitems
    refine .expect hended ?_
    rintro last more rfl hlast -
    refine .pure ?_
    have harray := Forms.array (.enclosed rfl hopen (hitems gap hgap) hlast)
    rw [spanAround_bracketed] at harray
    simpa using harray
  · next hopen =>
    refine .advance (hopen ▸ nofun) (.skipNewlines (hroom.ended.tail (hopen ▸ nofun)) ?_)
    rintro gap more rfl hgap - hended
    refine .bind hended (ih.properties inBody (hroom.after hended (by grind))) ?_
    rintro own more members rfl hended hmembers
    refine .expect hended ?_
    rintro last more rfl hlast -
    refine .pure ?_
    have hobject := Forms.object (.enclosed rfl hopen (hmembers gap hgap) hlast)
    rw [spanAround_bracketed] at hobject
    simpa using hobject
  · next hword => exact ih.next_construction inBody hword hroom.down
  · exact .failHere hroom.ended

theorem next_suffixes {own : List Token} {operand : Expr}
    (hoperand : Pending apart (· = .symbol .dot) own tokens operand)
    (hroom : Room 1 (n + 1) tokens m m') :
    Settles (Script.suffixes m inBody operand) (Script.suffixes m' inBody operand) []
      tokens fun taken _ e => Forms apart (own ++ taken) (.expr e) := by
  obtain ⟨m, m', rfl, rfl⟩ := hroom.exists_levels
  unfold Script.suffixes
  refine .kind hroom.ended ?_
  rintro token more rfl
  have hown (hkind : token.kind ≠ .symbol .dot) : Forms apart own (.expr operand) :=
    hoperand.forms fun first hfirst => Option.some.inj hfirst ▸ hkind
  split
  · next hopen =>
    refine .bind hroom.ended (ih.next_arguments inBody hroom.down) ?_
    rintro inside rest args htokens hended hargs
    have hne := (hargs.leading trivial).ne_nil
    have hlong := List.length_pos_of_ne_nil hne
    rw [htokens] at hroom
    refine .spanFrom hended hne ?_
    have hcall := Forms.call (hown (hopen ▸ nofun)) hargs
    refine .rest (ih.suffixes inBody (.of_forms hcall) (hroom.after hended (by grind))) ?_
    rintro taken rest e rfl h
    simpa using h
  · next hdot =>
    have hbehind := hroom.ended.tail (hdot ▸ nofun)
    refine .advance (hdot ▸ nofun) (.bind hbehind (.propertyName hbehind) ?_)
    rintro _ more name rfl hended ⟨word, rfl, hname⟩
    refine .spanFrom hended (List.cons_ne_nil _ _) ?_
    obtain ⟨core, gap, rfl, hcore, hgap, -⟩ := hoperand
    have hmember := Forms.member hcore hgap hdot hname
    refine .rest (ih.suffixes inBody (.of_forms hmember) (hroom.after hended (by grind))) ?_
    rintro taken rest e rfl h
    simpa using h
  · next hopen =>
    have hbehind := hroom.ended.tail (hopen ▸ nofun)
    refine .advance (hopen ▸ nofun) (.skipNewlines hbehind ?_)
    rintro gap more rfl hgap - hended
    refine .bind hended (ih.assignment inBody (hroom.after hended (by grind))) ?_
    rintro inside more key rfl hended hkey
    refine .skipNewlines hended ?_
    rintro gap' more rfl hgap' - hended
    refine .expect hended ?_
    rintro last more rfl hlast hended
    refine .spanFrom hended (List.cons_ne_nil _ _) ?_
    have hbracket := Forms.enclosed rfl hopen (.padded hgap hkey hgap') hlast
    have hindex := Forms.index (hown (hopen ▸ nofun)) hbracket
    rw [lastSpan_bracketed] at hindex
    rw [lastSpan_concat]
    refine .rest (ih.suffixes inBody (.of_forms hindex) (hroom.after hended (by grind))) ?_
    rintro taken rest e rfl h
    simpa using h
  · next hfeed =>
    refine .get hroom.ended (fun c halike => ?_) (fun c halike => ?_) ?_
    · rw [halike.kindPastNewlines (d := ⟨⟨0, 0⟩, token :: more⟩)]
    · rw [halike.kindPastNewlines (d := ⟨⟨0, 0⟩, token :: more⟩)]
    split
    · next hdot =>
      refine .skipNewlines hroom.ended ?_
      rintro gap rest htokens hgap hrest hended
      have hne : gap ≠ [] := by
        rintro rfl
        exact hrest token (by rw [← List.nil_append rest, ← htokens]; rfl) hfeed
      obtain ⟨next, rest, rfl⟩ := hended.exists_cons
      have hnext : next.kind = .symbol .dot := by
        rwa [htokens, hgap.kindPastNewlines (hrest next rfl)] at hdot
      rw [htokens] at hroom
      have hpending : Pending apart (· = .symbol .dot) (own ++ gap) (next :: rest) operand :=
        ⟨own, gap, rfl, hown (hfeed ▸ nofun), hgap, fun _ => ⟨next, rfl, hnext⟩⟩
      refine .rest (ih.suffixes inBody hpending (hroom.after hended ?_)) ?_
      · have := List.length_pos_of_ne_nil hne
        grind
      rintro taken rest e - h
      simpa using h
    · refine .pure ?_
      rw [List.append_nil]
      exact hown (hfeed ▸ nofun)
  · next hdot _ _ =>
    refine .pure ?_
    rw [List.append_nil]
    exact hown hdot

theorem next_unary (hroom : Room 2 (n + 1) tokens m m') :
    Settles (Script.unary m inBody) (Script.unary m' inBody) [] tokens
      fun own _ e => Forms apart own (.expr e) := by
  obtain ⟨m, m', rfl, rfl⟩ := hroom.exists_levels
  obtain ⟨token, more, rfl⟩ := hroom.ended.exists_cons
  unfold Script.unary
  refine .get hroom.ended (fun c halike => ?_) (fun c halike => ?_) ?_
  · rw [halike.current]
    rfl
  · rw [halike.current]
    rfl
  refine .kind hroom.ended ?_
  rintro _ _ ⟨⟩
  split
  · next op hop =>
    have htoken : token.kind ≠ .eof := by
      intro heof
      rw [heof] at hop
      cases hop
    have hbehind := hroom.ended.tail htoken
    refine .advance htoken (.bind hbehind (ih.unary inBody (hroom.after hbehind (by grind))) ?_)
    rintro own rest operand rfl hended hoperand
    exact .pure (.unary hop hoperand)
  · refine .bind hroom.ended (ih.next_primary inBody hroom.down) ?_
    rintro own rest operand htokens hended hoperand
    have hlong := List.length_pos_of_ne_nil (hoperand.leading trivial).ne_nil
    rw [htokens] at hroom
    refine .rest (ih.suffixes inBody (.of_forms hoperand) (hroom.after hended (by grind))) ?_
    exact fun taken rest e _ h => h

theorem next_binaryRest (least : Nat) {own : List Token} {left : Expr}
    (hleft : Pending apart Continues own tokens left)
    (hroom : Room 0 (n + 1) tokens m m') :
    Settles (Script.binaryRest m inBody least left)
      (Script.binaryRest m' inBody least left) [] tokens
      fun taken rest e => Pending apart (Loosens least) (own ++ taken) rest e := by
  obtain ⟨m, m', rfl, rfl⟩ := hroom.exists_levels
  obtain ⟨core, gap, rfl, hcore, hgap, hcontinues⟩ := hleft
  -- Line breaks may have been passed over before this, and may be passed over here.
  have hnext {gap' rest : List Token} (htokens : tokens = gap' ++ rest) (hgap' : Feeds gap')
      (hended : Ended rest)
      (hcontinues : gap ++ gap' ≠ [] → ∃ token ∈ rest.head?, Continues token.kind) :
      Settles (Parser.kind >>= fun kind => afterOperand m inBody least left kind.infix?)
        (Parser.kind >>= fun kind => afterOperand m' inBody least left kind.infix?) gap' rest
        fun taken rest e => Pending apart (Loosens least) (core ++ gap ++ taken) rest e := by
    have hgaps : Feeds (gap ++ gap') := fun token hmem =>
      (List.mem_append.mp hmem).elim (hgap token) (hgap' token)
    refine .kind hended ?_
    rintro token more rfl
    have hleaves {kind : TokenKind} (hkind : token.kind = kind)
        (hloosens : Continues kind → Loosens least kind) :
        Pending apart (Loosens least) (core ++ gap ++ gap') (token :: more) left := by
      refine ⟨core, gap ++ gap', List.append_assoc _ _ _, hcore, hgaps, fun hne => ?_⟩
      obtain ⟨_, ⟨⟩, hkind'⟩ := hcontinues hne
      exact ⟨token, rfl, hkind ▸ hloosens (hkind ▸ hkind')⟩
    cases hop : token.kind.infix? with
    | none =>
      refine .pure (hleaves rfl fun hkind => ?_)
      exact hkind.imp_right fun hsome => by simp [hop] at hsome
    | some op =>
      rw [afterOperand, afterOperand]
      split
      · next hless => exact .pure (hleaves rfl fun _ => .inr ⟨op, hop, hless⟩)
      have htoken : token.kind ≠ .eof := by
        intro heof
        rw [heof] at hop
        cases hop
      subst htokens
      refine .advance htoken (.skipNewlines (hended.tail htoken) ?_)
      rintro gap'' more rfl hgap'' - hended
      refine .bind hended (ih.binary inBody op.right (hroom.after hended (by grind))) ?_
      rintro _ more right rfl hmore ⟨other, behind, rfl, hother, hbehind, hloosens⟩
      have hwhole := Forms.operator hcore hgaps hop hgap'' hother
      have hpending : Pending apart Continues
          (core ++ (gap ++ gap' ++ token :: (gap'' ++ other)) ++ behind) more
          (op.build left right) := by
        refine ⟨_, behind, rfl, hwhole, hbehind, fun hne => ?_⟩
        obtain ⟨next, hnext, hkind⟩ := hloosens hne
        refine ⟨next, hnext, hkind.imp_right ?_⟩
        rintro ⟨op, hop, -⟩
        rw [hop]
        rfl
      refine .rest (ih.binaryRest inBody least hpending (hroom.after hmore (by grind))) ?_
      rintro taken rest e rfl h
      simpa using h
  unfold Script.binaryRest
  refine .get hroom.ended (fun c halike => ?_) (fun c halike => ?_) ?_
  · rw [halike.continues (d := ⟨⟨0, 0⟩, tokens⟩)]
  · rw [halike.continues (d := ⟨⟨0, 0⟩, tokens⟩)]
  split
  · next hgoes =>
    refine .skipNewlines hroom.ended ?_
    rintro gap' rest htokens hgap' hrest hended
    refine hnext htokens hgap' hended fun _ => ?_
    obtain ⟨next, rest, rfl⟩ := hended.exists_cons
    rw [htokens, Cursor.continues, hgap'.kindPastNewlines (hrest next rfl)] at hgoes
    refine ⟨next, rfl, ?_⟩
    simpa [Continues] using hgoes
  · next hgoes =>
    refine hnext rfl .nil hroom.ended ?_
    rwa [List.append_nil]

theorem next_binary (least : Nat) (hroom : Room 3 (n + 1) tokens m m') :
    Settles (Script.binary m inBody least) (Script.binary m' inBody least) [] tokens
      fun own rest e => Pending apart (Loosens least) own rest e := by
  obtain ⟨m, m', rfl, rfl⟩ := hroom.exists_levels
  unfold Script.binary
  refine .bind hroom.ended (ih.next_unary inBody hroom.down) ?_
  rintro own rest left htokens hended hleft
  have hlong := List.length_pos_of_ne_nil (hleft.leading trivial).ne_nil
  rw [htokens] at hroom
  refine .rest (ih.binaryRest inBody least (.of_forms hleft) (hroom.after hended (by grind))) ?_
  exact fun taken rest e _ h => h

theorem next_conditional (hroom : Room 4 (n + 1) tokens m m') :
    Settles (Script.conditional m inBody) (Script.conditional m' inBody) [] tokens
      fun own _ e => Forms apart own (.expr e) := by
  obtain ⟨m, m', rfl, rfl⟩ := hroom.exists_levels
  unfold Script.conditional
  refine .bind hroom.ended (ih.next_binary inBody 0 hroom.down) ?_
  rintro own rest test htokens hended htest
  rw [htokens] at hroom
  refine .accept hended ?_ ?_
  · rintro mark more rfl hmark hended
    obtain ⟨core, gap, rfl, hcore, hgap, -⟩ := htest
    refine .skipNewlines hended ?_
    rintro gap' more rfl hgap' - hended
    refine .bind hended (ih.assignment inBody (hroom.after hended (by grind))) ?_
    rintro inside more yes rfl hended hyes
    refine .skipNewlines hended ?_
    rintro gap'' more rfl hgap'' - hended
    refine .expect hended ?_
    rintro colon more rfl hcolon hended
    refine .skipNewlines hended ?_
    rintro behind more rfl hbehind - hended
    refine .bind hended (ih.assignment inBody (hroom.after hended (by grind))) ?_
    rintro other rest no rfl hended hno
    refine .pure ?_
    have hwhole := Forms.conditional hcore hgap hmark (.padded hgap' hyes hgap'') hcolon hbehind hno
    simpa using hwhole
  · rintro token more rfl hmark
    refine .pure (htest.forms fun first hfirst => ?_)
    obtain rfl := Option.some.inj hfirst
    rintro (hquestion | ⟨op, -, hless⟩)
    · exact hmark hquestion
    · exact Nat.not_lt_zero _ hless

/-! ### Expressions -/

theorem next_arrow (hroom : Room 0 (n + 1) tokens m m') :
    Settles (Script.arrow m inBody) (Script.arrow m' inBody) [] tokens
      fun own _ e => Forms apart own (.expr e) := by
  obtain ⟨m, m', rfl, rfl⟩ := hroom.exists_levels
  have hbody (params : List String) (start : Token) {own rest : List Token} (hended : Ended rest)
      (hparams : Forms apart own (.params params)) (hstart : own.head? = some start)
      (hroom : Room 9 n rest m m') :
      Settles
        (do
          let _ ← expect .arrow
          Parser.skipNewlines
          if ← sees .lbrace then
            let stmts ← Script.block m true
            return .arrow params (.block stmts) (← Parser.spanFrom start.span)
          else
            let value ← Script.assignment m inBody
            return .arrow params (.expr value) (← Parser.spanFrom start.span))
        (do
          let _ ← expect .arrow
          Parser.skipNewlines
          if ← sees .lbrace then
            let stmts ← Script.block m' true
            return .arrow params (.block stmts) (← Parser.spanFrom start.span)
          else
            let value ← Script.assignment m' inBody
            return .arrow params (.expr value) (← Parser.spanFrom start.span)) own rest
        fun own _ e => Forms apart own (.expr e) := by
    have hwhole {mark : Token} {gap inside : List Token} {body : Body}
        (hmark : mark.kind = .symbol .arrow) (hgap : Feeds gap)
        (hinside : Forms apart inside (.body body)) :
        Forms apart (own ++ [mark] ++ gap ++ inside) (.expr (.arrow params body
          (start.span.join (lastSpan (own ++ [mark] ++ gap ++ inside))))) := by
      have harrow := Forms.arrow hparams hmark hgap hinside
      rw [spanAround, List.head?_append, hstart] at harrow
      simpa using harrow
    refine .expect hended ?_
    rintro mark more rfl hmark hended
    refine .skipNewlines hended ?_
    rintro gap more rfl hgap - hended
    refine .sees hended ?_ ?_
    · rintro token more rfl -
      refine .bind hended (ih.block true (hroom.rest hended (by grind))) ?_
      rintro inside rest stmts htokens hended hstmts
      exact .spanFrom hended (by simp) (.pure (hwhole hmark hgap (.run hstmts)))
    · rintro token more rfl -
      refine .bind hended (ih.assignment inBody (hroom.rest hended (by grind))) ?_
      rintro inside rest value htokens hended hvalue
      exact .spanFrom hended (by simp) (.pure (hwhole hmark hgap (.value hvalue)))
  obtain ⟨start, more, rfl⟩ := hroom.ended.exists_cons
  unfold Script.arrow
  refine .get hroom.ended (fun c halike => ?_) (fun c halike => ?_) ?_
  · rw [halike.current]
    rfl
  · rw [halike.current]
    rfl
  dsimp only [Cursor.current, List.headD_cons]
  refine .accept hroom.ended ?_ ?_
  · rintro _ _ ⟨⟩ hopen hended
    refine .skipNewlines hended ?_
    rintro gap more rfl hgap - hended
    refine .bind hended (ih.parameters (hroom.after hended (by grind))) ?_
    rintro own more params rfl hended hnames
    refine .expect hended ?_
    rintro last more rfl hlast hended
    have hparams := Forms.params (.enclosed rfl hopen (hnames gap hgap) hlast)
    have hgoes := hbody params start hended hparams rfl (hroom.after hended (by grind))
    simpa using hgoes
  · rintro _ _ ⟨⟩ -
    refine .bind hroom.ended (.identifier hroom.ended) ?_
    rintro _ more name htokens hended ⟨word, rfl, hname⟩
    obtain ⟨rfl, rfl⟩ := List.cons.inj htokens
    exact hbody [name] _ hended (.param hname) rfl (hroom.after hended (by grind))

theorem next_assignment (hroom : Room 5 (n + 1) tokens m m') :
    Settles (Script.assignment m inBody) (Script.assignment m' inBody) [] tokens
      fun own _ e => Forms apart own (.expr e) := by
  obtain ⟨m, m', rfl, rfl⟩ := hroom.exists_levels
  unfold Script.assignment
  refine .asks (startsArrow_append hroom.ended) ?_
    (fun _ => ih.next_arrow inBody (hroom.down.mono (by decide))) fun _ => ?_
  · rintro own rest e last others rfl hforms halike
    exact hforms.matched.startsArrow (hforms.leading trivial).ne_nil halike.head.symm _ _
  refine .bind hroom.ended (ih.next_conditional inBody hroom.down) ?_
  rintro own rest target htokens hended htarget
  rw [htokens] at hroom
  refine .kind hended ?_
  rintro mark more rfl
  split
  · exact .pure htarget
  · next op hop =>
    have hmark : mark.kind ≠ .eof := by
      intro heof
      rw [heof] at hop
      cases hop
    split
    · refine .failAt nofun ((htarget.joins rfl).mono ?_)
      exact List.subset_append_left _ _
    · next htargets =>
      refine .advance hmark (.skipNewlines (hended.tail hmark) ?_)
      rintro gap more rfl hgap - hended
      refine .bind hended (ih.assignment inBody (hroom.after hended (by grind))) ?_
      rintro other rest value rfl hended hvalue
      refine .pure ?_
      have hassign := Forms.assign htarget (by simpa using htargets) hop hgap hvalue
      simpa using hassign

theorem next_elements (close : Symbol) (hroom : Room 6 (n + 1) tokens m m') :
    Settles (Script.elements m inBody close) (Script.elements m' inBody close) [] tokens
      fun own _ items => ∀ gap, Feeds gap → Forms apart (gap ++ own) (.items items) := by
  obtain ⟨m, m', rfl, rfl⟩ := hroom.exists_levels
  unfold Script.elements
  refine .sees hroom.ended ?_ ?_
  · rintro token more rfl -
    refine .pure fun gap hgap => ?_
    rw [List.append_nil]
    exact .noItems hgap
  rintro token behind rfl -
  refine .bind hroom.ended (ih.next_assignment inBody hroom.down) ?_
  rintro own more item htokens hended hitem
  rw [htokens] at hroom
  refine .skipNewlines hended ?_
  rintro gap' more rfl hgap' - hended
  refine .accept hended ?_ ?_
  · rintro comma more rfl hcomma hended
    refine .skipNewlines hended ?_
    rintro gap'' more rfl hgap'' - hended
    refine .bind hended (ih.elements inBody close (hroom.after hended (by grind))) ?_
    rintro other rest items rfl - hitems
    refine .pure fun gap hgap => ?_
    have hnext := Forms.nextItem (.padded hgap hitem hgap') hcomma (hitems gap'' hgap'')
    simpa using hnext
  · rintro token more rfl -
    refine .pure fun gap hgap => ?_
    exact .lastItem (.padded hgap hitem hgap')

/-! ### Statements -/

theorem next_expressionStatement (hroom : Room 6 (n + 1) tokens m m') :
    Settles (Script.expressionStatement m inBody) (Script.expressionStatement m' inBody) [] tokens
      fun own _ stmt => Forms apart own (.stmt stmt) := by
  obtain ⟨m, m', rfl, rfl⟩ := hroom.exists_levels
  unfold Script.expressionStatement
  refine .bind hroom.ended (ih.next_assignment inBody hroom.down) ?_
  rintro own rest value htokens hended hvalue
  exact .pure (.effect hvalue)

theorem next_declaration {word : Token} {more : List Token} {kind : DeclKind}
    (hword : word.kind.declaration? = some kind)
    (hroom : Room 0 (n + 1) (word :: more) m m') :
    Settles (Script.declaration m inBody) (Script.declaration m' inBody) []
      (word :: more) fun own _ stmt => Forms apart own (.stmt stmt) := by
  obtain ⟨m, m', rfl, rfl⟩ := hroom.exists_levels
  unfold Script.declaration
  have htoken : word.kind ≠ .eof := by
    intro heof
    rw [heof] at hword
    cases hword
  have hbehind := hroom.ended.tail htoken
  refine .next hroom.ended htoken (.bind hbehind (.identifier hbehind) ?_)
  rintro _ more name rfl hended ⟨ident, rfl, hname⟩
  rw [hword]
  refine .accept hended ?_ ?_
  · rintro mark more rfl hmark hended
    refine .skipNewlines hended ?_
    rintro gap more rfl hgap - hended
    refine .bind hended (ih.assignment inBody (hroom.after hended (by grind))) ?_
    rintro own more value rfl hended hvalue
    refine .spanFrom hended (by simp) (.pure ?_)
    have hdeclare := Forms.declareAs hword hname hmark hgap hvalue
    simpa [spanAround] using hdeclare
  · rintro token more rfl -
    split
    · refine .failAt (by simp) (.token ?_)
      simp
    · refine .spanFrom hended (by simp) (.pure ?_)
      exact .declare hword hname

theorem next_block (hroom : Room 0 (n + 1) tokens m m') :
    Settles (Script.block m inBody) (Script.block m' inBody) [] tokens
      fun own _ stmts => Forms apart own (.enclosed .lbrace (.spaced stmts)) := by
  obtain ⟨m, m', rfl, rfl⟩ := hroom.exists_levels
  unfold Script.block
  refine .expect hroom.ended ?_
  rintro first more rfl hfirst hended
  refine .bind hended (ih.blockStatements inBody (hroom.after hended (by grind))) ?_
  rintro own more stmts rfl hended hstmts
  refine .expect hended ?_
  rintro last more rfl hlast -
  exact .pure (.enclosed rfl hfirst hstmts hlast)

theorem next_conditionalStatement {word : Token} {more : List Token}
    (hword : word.kind = .keyword .kwIf) (hroom : Room 0 (n + 1) (word :: more) m m') :
    Settles (Script.conditionalStatement m inBody) (Script.conditionalStatement m' inBody)
      [] (word :: more) fun own _ stmt => Forms apart own (.stmt stmt) := by
  obtain ⟨m, m', rfl, rfl⟩ := hroom.exists_levels
  unfold Script.conditionalStatement
  refine .next hroom.ended (hword ▸ nofun) (.expect (hroom.ended.tail (hword ▸ nofun)) ?_)
  rintro first more rfl hfirst hended
  refine .skipNewlines hended ?_
  rintro gap more rfl hgap - hended
  refine .bind hended (ih.assignment inBody (hroom.after hended (by grind))) ?_
  rintro own more test rfl hended htest
  refine .skipNewlines hended ?_
  rintro gap' more rfl hgap' - hended
  refine .expect hended ?_
  rintro last more rfl hlast hended
  have hgroup := Forms.enclosed rfl hfirst (.padded hgap htest hgap') hlast
  refine .skipNewlines hended ?_
  rintro behind more rfl hbehind - hended
  refine .bind hended (ih.branchBody inBody (hroom.after hended (by grind))) ?_
  rintro inside more yes rfl hended hyes
  refine .get hended (fun c halike => ?_) (fun c halike => ?_) ?_
  · rw [halike.kindPastNewlines (d := ⟨⟨0, 0⟩, more⟩)]
  · rw [halike.kindPastNewlines (d := ⟨⟨0, 0⟩, more⟩)]
  split
  · next helse =>
    refine .skipNewlines hended ?_
    rintro before rest rfl hbefore hrest hended
    obtain ⟨mark, rest, rfl⟩ := hended.exists_cons
    have hmark : mark.kind = .keyword .kwElse := by
      rwa [hbefore.kindPastNewlines (hrest mark rfl)] at helse
    refine .advance (hmark ▸ nofun) (.skipNewlines (hended.tail (hmark ▸ nofun)) ?_)
    rintro after rest rfl hafter - hended
    have hroom := hroom.after hended (by grind)
    refine .kind hended ?_
    rintro next rest rfl
    split
    · next hif =>
      refine .bind hended (ih.conditionalStatement inBody hif hroom) ?_
      rintro other rest stmt htokens hended hstmt
      simp only [pure_bind]
      refine .spanFrom hended (by simp) (.pure ?_)
      have hbranches :=
        Forms.branches hword hgroup hbehind hyes hbefore hmark hafter (.single hstmt)
      simpa [spanAround] using hbranches
    · refine .bind hended (ih.branchBody inBody hroom) ?_
      rintro other rest no htokens hended hno
      refine .spanFrom hended (by simp) (.pure ?_)
      have hbranches := Forms.branches hword hgroup hbehind hyes hbefore hmark hafter hno
      simpa [spanAround] using hbranches
  · refine .spanFrom hended (by simp) (.pure ?_)
    have hbranch := Forms.branch hword hgroup hbehind hyes
    simpa [spanAround] using hbranch

theorem next_statement (hroom : Room 7 (n + 1) tokens m m') :
    Settles (Script.statement m inBody) (Script.statement m' inBody) [] tokens
      fun own _ stmt => Forms apart own (.stmt stmt) := by
  obtain ⟨m, m', rfl, rfl⟩ := hroom.exists_levels
  obtain ⟨word, more, rfl⟩ := hroom.ended.exists_cons
  unfold Script.statement
  refine .get hroom.ended (fun c halike => ?_) (fun c halike => ?_) ?_
  · rw [halike.current]
    rfl
  · rw [halike.current]
    rfl
  dsimp only [Cursor.current, List.headD_cons]
  refine .kind hroom.ended ?_
  rintro _ _ ⟨⟩
  split
  · next hword =>
    exact ih.next_declaration inBody (by rw [hword]; rfl) (hroom.down.mono (by decide))
  · next hword =>
    exact ih.next_declaration inBody (by rw [hword]; rfl) (hroom.down.mono (by decide))
  · next hword =>
    exact ih.next_declaration inBody (by rw [hword]; rfl) (hroom.down.mono (by decide))
  · next hword =>
    have hbehind := hroom.ended.tail (by simp [hword])
    refine .advance (by simp [hword]) (.kind hbehind ?_)
    rintro next rest rfl
    have hbare : Settles
        (MonadState.get >>= fun c : Cursor =>
          (Parser.failAt .bareThrow c.current.span : Parser Stmt))
        (MonadState.get >>= fun c => Parser.failAt .bareThrow c.current.span) [word] (next :: rest)
        fun own _ stmt => Forms apart own (.stmt stmt) := by
      refine .get hbehind (fun c halike => ?_) (fun c halike => ?_) (.failAt (by simp) ?_)
      · rw [halike.current]
        rfl
      · rw [halike.current]
        rfl
      · exact .token (by simp [Cursor.current])
    split
    · exact hbare
    · exact hbare
    · exact hbare
    · refine .bind hbehind (ih.assignment inBody (hroom.after hbehind (by grind))) ?_
      rintro own rest value htokens hended hvalue
      exact .pure (.throwing hword hvalue)
  · next hword =>
    split
    · exact .failAt (by simp) (.token (by simp))
    have hbehind := hroom.ended.tail (by simp [hword])
    refine .advance (by simp [hword]) (.kind hbehind ?_)
    rintro next rest rfl
    split
    · exact .pure (.leaving hword)
    · exact .pure (.leaving hword)
    · exact .pure (.leaving hword)
    · exact .pure (.leaving hword)
    · refine .bind hbehind (ih.assignment inBody (hroom.after hbehind (by grind))) ?_
      rintro own rest value htokens hended hvalue
      exact .pure (.returning hword hvalue)
  · next hword => exact ih.next_conditionalStatement inBody hword (hroom.down.mono (by decide))
  · next hopen =>
    have hsees (last : Span) (others : List Token) :
        Cursor.startsObject ⟨last, word :: more ++ others⟩ =
          Cursor.startsObject ⟨⟨0, 0⟩, word :: more⟩ := by
      obtain ⟨stop, hstop, heof⟩ := hroom.ended.tail (by simp [hopen])
      have happend := startsObject_append hopen ⟨stop, hstop, .inr heof⟩ last ⟨0, 0⟩ others []
      rwa [List.append_nil] at happend
    refine .asks hsees ?_ (fun _ => ih.next_expressionStatement inBody hroom.down) fun _ => ?_
    · rintro own rest stmt last others htokens hforms halike
      obtain ⟨first, inside, rfl, -⟩ := hforms.leading trivial
      obtain ⟨rfl, rfl⟩ := List.cons.inj htokens
      obtain ⟨within, close, behind, rfl, -, hclose⟩ := hforms.matched.exists_pair hopen rfl
      exact startsObject_append hopen ⟨close, by simp, .inl hclose⟩ _ _ _ _
    refine .bind hroom.ended (ih.next_block inBody (hroom.down.mono (by decide))) ?_
    rintro own rest stmts htokens hended hstmts
    refine .spanFrom hended (hstmts.leading trivial).ne_nil (.pure ?_)
    have hwhole := Forms.block hstmts
    obtain ⟨first, inside, rfl, -⟩ := hstmts.leading trivial
    obtain ⟨rfl, rfl⟩ := List.cons.inj htokens
    exact hwhole
  · exact ih.next_expressionStatement inBody hroom.down

theorem next_branchBody (hroom : Room 8 (n + 1) tokens m m') :
    Settles (Script.branchBody m inBody) (Script.branchBody m' inBody) [] tokens
      fun own _ stmts => Forms apart own (.branch stmts) := by
  obtain ⟨m, m', rfl, rfl⟩ := hroom.exists_levels
  unfold Script.branchBody
  refine .sees hroom.ended ?_ ?_
  · rintro token more rfl -
    exact .rest (ih.next_block inBody (hroom.down.mono (by decide)))
      fun own _ stmts _ hstmts => .braced hstmts
  · rintro token more rfl -
    refine .bind hroom.ended (ih.next_statement inBody hroom.down) ?_
    rintro own rest stmt htokens hended hstmt
    exact .pure (.single hstmt)

theorem next_blockStatements
    (hapart : SeparatedBy apart) (hroom : Room 8 (n + 1) tokens m m') :
    Settles (Script.blockStatements m inBody) (Script.blockStatements m' inBody) [] tokens
      fun own _ stmts => Forms apart own (.spaced stmts) := by
  obtain ⟨m, m', rfl, rfl⟩ := hroom.exists_levels
  unfold Script.blockStatements
  refine .skipSeparators hroom.ended ?_
  rintro gap more rfl hgap - hended
  refine .kind hended ?_
  rintro token more rfl
  split
  · refine .pure ?_
    have hnone : Forms apart (gap ++ ([] ++ [])) (.spaced []) := .spaced hgap .noStmts .nil
    simpa using hnone
  · exact .failHere hended
  refine .bind hended (ih.next_statement inBody (hroom.down.rest hended (by simp))) ?_
  rintro own rest stmt htokens hended hstmt
  have hlong := List.length_pos_of_ne_nil (hstmt.leading trivial).ne_nil
  rw [htokens] at hroom
  have hothers := settles_others (fun _ => True) hapart hgap hstmt hended fun hended hlength =>
    (ih.blockStatements inBody (hroom.after hended (by grind))).mono fun _ _ _ h => ⟨h, trivial⟩
  exact hothers.mono fun _ _ _ h => h.1

end

/-- Without tokens there is nothing to settle. -/
theorem zero : Descends apart 0 := by
  have hnone {tokens : List Token} {m m' : Nat} (h : Room 9 0 tokens m m') : False := by
    obtain ⟨first, more, rfl⟩ := h.ended.exists_cons
    have hlength := h.length_le
    rw [List.length_cons] at hlength
    omega
  constructor <;> intros <;> exact (hnone ‹_›).elim

theorem succ {n : Nat} (hapart : SeparatedBy apart) (ih : Descends apart n) :
    Descends apart (n + 1) where
  parameters hroom := ih.next_parameters (hroom.mono (by decide))
  statement inBody _ _ _ hroom := ih.next_statement inBody (hroom.mono (by decide))
  conditionalStatement inBody _ _ _ _ hword hroom :=
    ih.next_conditionalStatement inBody hword (hroom.mono (by decide))
  branchBody inBody _ _ _ hroom := ih.next_branchBody inBody (hroom.mono (by decide))
  block inBody _ _ _ hroom := ih.next_block inBody (hroom.mono (by decide))
  blockStatements inBody _ _ _ hroom :=
    ih.next_blockStatements inBody hapart (hroom.mono (by decide))
  assignment inBody _ _ _ hroom := ih.next_assignment inBody (hroom.mono (by decide))
  binary inBody least _ _ _ hroom := ih.next_binary inBody least (hroom.mono (by decide))
  binaryRest inBody least _ _ _ _ _ hleft hroom :=
    ih.next_binaryRest inBody least hleft (hroom.mono (by decide))
  unary inBody _ _ _ hroom := ih.next_unary inBody (hroom.mono (by decide))
  suffixes inBody _ _ _ _ _ hoperand hroom :=
    ih.next_suffixes inBody hoperand (hroom.mono (by decide))
  arguments inBody _ _ _ hroom := ih.next_arguments inBody (hroom.mono (by decide))
  elements inBody close _ _ _ hroom := ih.next_elements inBody close (hroom.mono (by decide))
  primary inBody _ _ _ hroom := ih.next_primary inBody (hroom.mono (by decide))
  properties inBody _ _ _ hroom := ih.next_properties inBody (hroom.mono (by decide))
  calleeSuffixes inBody _ _ _ _ _ hcallee hroom :=
    ih.next_calleeSuffixes inBody hcallee (hroom.mono (by decide))

end Descends

theorem descends (hapart : SeparatedBy apart) (n : Nat) : Descends apart n := by
  induction n with
  | zero => exact .zero
  | succ n ih => exact ih.succ hapart

end Doctest.Script.Parser
