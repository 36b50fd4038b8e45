import Doctest.Proofs.Script.Parsing.Joining
import Doctest.Proofs.Script.Returning

/-!
# Evaluating in pieces

Two texts that are run one after the other do what the text does that joins them: it has the
statements of both, and these are run in the same order, in the same scope. Only their spans differ,
which no evaluation looks at.
-/

namespace Doctest.Script

/-- Two evaluations end in the same way, on machines that differ in spans only. -/
def AlikeEnds {α : Type} (first second : Except Signal α × Machine) : Prop :=
  first.1 = second.1 ∧ first.2.mapSpans noSpan = second.2.mapSpans noSpan

theorem AlikeEnds.map {α β : Type} {first second : Except Signal α × Machine} (f : α → β)
    (h : AlikeEnds first second) : AlikeEnds (first.1.map f, first.2) (second.1.map f, second.2) :=
  ⟨congrArg (Except.map f) h.1, h.2⟩

/-! ### Trees that differ in spans only -/

namespace Pairing

/-- The second machine is the first one without its spans. -/
def bare : Pairing where
  same m n := n = m.mapSpans noSpan
  cuts := False
  stuck _ := True
  returns := True
  spans := noSpan

theorem bare_lawful : bare.Lawful where
  resembles := by
    rintro m _ rfl
    exact m.heap.resembles_mapSpans noSpan
  waits := by
    rintro m _ rfl ref
    exact .rfl
  inspect := by
    rintro m _ rfl value
    exact (m.heap.resembles_mapSpans noSpan).inspect (fun _ => .inl rfl) value
  alloc := by
    rintro m _ rfl kind cell
    exact congrArg (Machine.mk · m.depth) (m.heap.mapSpans_alloc noSpan cell)
  change := by
    rintro m _ rfl kind ref f ⟨-, hkind⟩
    exact congrArg (Machine.mk · m.depth) (m.heap.mapSpans_modify noSpan hkind ref f)
  resolve := by
    rintro m _ rfl ref state -
    have hkind : CellKind.promise ≠ .callable := nofun
    exact congrArg (Machine.mk · m.depth) (m.heap.mapSpans_modify noSpan hkind ref fun _ => state)
  endless _ _ := trivial

theorem bare_deeper : bare.Deeper bare where
  depth := by
    rintro m _ rfl
    rfl
  into := by
    rintro m _ rfl -
    rfl
  back := by
    rintro m _ rfl
    rfl
  cuts := id
  stuck := id
  returns := id
  spans := rfl

theorem bare_invoke (levels : Nat) : bare.Calls (Script.invoke levels) (Script.invoke levels) :=
  invoke_keeps bare_lawful bare_deeper (fun _ => trivial) levels

end Pairing

variable {levels : Nat} {scope : Scope} {start : Machine}

/-- Statements that differ in spans only end in the same way. -/
theorem execStmts_alike {stmts stmts' : List Stmt}
    (h : Stmt.mapSpansAll noSpan stmts = Stmt.mapSpansAll noSpan stmts') :
    AlikeEnds (execStmts (invoke levels) scope stmts start)
      (execStmts (invoke levels) scope stmts' start) := by
  have hbare (stmts : List Stmt) :
      (execStmts (invoke levels) scope stmts start).1 =
          (execStmts (invoke levels) scope (Stmt.mapSpansAll noSpan stmts)
            (start.mapSpans noSpan)).1 ∧
        (execStmts (invoke levels) scope (Stmt.mapSpansAll noSpan stmts)
            (start.mapSpans noSpan)).2 =
          (execStmts (invoke levels) scope stmts start).2.mapSpans noSpan := by
    have hruns := Pairing.execStmts Pairing.bare_lawful (Pairing.bare_invoke levels) scope stmts
      (fun _ => trivial) start (start.mapSpans noSpan) rfl
    rcases hruns with ⟨hcuts, -⟩ | ⟨hfound, hlast, -⟩
    · exact hcuts.elim
    · exact ⟨hfound, hlast⟩
  obtain ⟨hfound, hlast⟩ := hbare stmts
  obtain ⟨hfound', hlast'⟩ := hbare stmts'
  rw [h] at hfound hlast
  exact ⟨hfound.trans hfound'.symm, hlast.symm.trans hlast'⟩

/-! ### Texts one after the other -/

/-- A text that is taken ends as its statements do; without a result it gives `undefined`. -/
theorem runSource_of_parse {source : String} {program : List Stmt}
    (h : parse source = .ok program) :
    runSource (invoke levels) scope source start =
      ((execStmts (invoke levels) scope program start).1.map (·.getD .undefined),
        (execStmts (invoke levels) scope program start).2) := by
  rw [runSource, h]
  dsimp only
  rw [runProgram_of_parse levels h scope, Eval.bind_apply]
  rcases execStmts (invoke levels) scope program start with ⟨_ | _, _⟩ <;> rfl

/-- How a text and another one after it end, which has some statements and is run unless the first
one is stopped. The result is that of the second one if an expression statement of it is reached,
and otherwise that of the first one. -/
inductive RunsInTurn (invoke : Invoke) (scope : Scope) (p q : String) (qs : List Stmt)
    (start : Machine) : Except Signal Value × Machine → Prop
  | stopped {signal : Signal} {last : Machine}
    (hp : runSource invoke scope p start = (.error signal, last)) :
    RunsInTurn invoke scope p q qs start (.error signal, last)
  | stoppedLater {first : Value} {signal : Signal} {middle last : Machine}
    (hp : runSource invoke scope p start = (.ok first, middle))
    (hq : runSource invoke scope q middle = (.error signal, last)) :
    RunsInTurn invoke scope p q qs start (.error signal, last)
  | second {first second : Value} {middle last : Machine}
    (hp : runSource invoke scope p start = (.ok first, middle))
    (hq : runSource invoke scope q middle = (.ok second, last))
    (hreach : ∃ inner expr span m, Reaches invoke scope qs middle inner (.expr expr span) m) :
    RunsInTurn invoke scope p q qs start (.ok second, last)
  | first {first second : Value} {middle last : Machine}
    (hp : runSource invoke scope p start = (.ok first, middle))
    (hq : runSource invoke scope q middle = (.ok second, last))
    (hnone : ¬ ∃ inner expr span m, Reaches invoke scope qs middle inner (.expr expr span) m) :
    RunsInTurn invoke scope p q qs start (.ok first, last)

/-- Statements of two texts after each other end as the texts do in turn. -/
theorem runsInTurn_execStmts {p q : String} {ps qs : List Stmt} (hp : parse p = .ok ps)
    (hq : parse q = .ok qs) :
    RunsInTurn (invoke levels) scope p q qs start
      ((execStmts (invoke levels) scope (ps ++ qs) start).1.map (·.getD .undefined),
        (execStmts (invoke levels) scope (ps ++ qs) start).2) := by
  rw [execStmts_append, Eval.bind_apply]
  rcases hfirst : execStmts (invoke levels) scope ps start with ⟨signal | found, middle⟩
  · refine .stopped ?_
    rw [runSource_of_parse hp, hfirst]
    rfl
  have hrunp : runSource (invoke levels) scope p start = (.ok (found.getD .undefined), middle) := by
    rw [runSource_of_parse hp, hfirst]
    rfl
  dsimp only
  rw [Eval.bind_apply]
  rcases hsecond : execStmts (invoke levels) scope qs middle with ⟨signal | result, last⟩
  · refine .stoppedLater hrunp ?_
    rw [runSource_of_parse hq, hsecond]
    rfl
  have hrunq : runSource (invoke levels) scope q middle = (.ok (result.getD .undefined), last) := by
    rw [runSource_of_parse hq, hsecond]
    rfl
  have hreaches := isSome_iff_reaches hsecond
  cases result with
  | some value => exact .second hrunp hrunq (hreaches.mp rfl)
  | none =>
    refine .first hrunp hrunq fun hreach => ?_
    exact absurd (hreaches.mpr hreach) Bool.false_ne_true

/-- **Evaluating in pieces is evaluating at once.** Two texts are taken, the first of which does not
end within a block comment. Then the text is taken that joins them with a semicolon on a line of its
own; it has the statements of both, and it ends as they do in turn, in the same scope, whatever was
there before: stopped in the same way or with the same result, on a machine that differs in nothing
but the spans of functions. -/
theorem pieces_at_once {p q : String} {ps qs : List Stmt} (hp : parse p = .ok ps)
    (hq : parse q = .ok qs) (hclosed : ¬ OpenComment p.toList) :
    (∃ joined, parse (p ++ "\n;\n" ++ q) = .ok joined ∧
      Stmt.mapSpansAll noSpan joined = Stmt.mapSpansAll noSpan (ps ++ qs)) ∧
    ∀ levels scope start, ∃ ends, RunsInTurn (invoke levels) scope p q qs start ends ∧
      AlikeEnds (runSource (invoke levels) scope (p ++ "\n;\n" ++ q) start) ends := by
  obtain ⟨joined, hjoined, hspans⟩ := exists_parse_joined hp hq hclosed
  refine ⟨⟨joined, hjoined, hspans⟩, fun levels scope start => ?_⟩
  refine ⟨_, runsInTurn_execStmts hp hq, ?_⟩
  rw [runSource_of_parse hjoined]
  exact (execStmts_alike hspans).map _

/-- A text that ends with a comment on its line, and one whose result comes from a branch. -/
theorem pieces_at_once_behind_comment :
    ∃ ps qs, parse "let x = 'a' // b" = .ok ps ∧ parse "if (x) x" = .ok qs ∧
      ¬ OpenComment "let x = 'a' // b".toList ∧
      (∃ joined, parse ("let x = 'a' // b" ++ "\n;\n" ++ "if (x) x") = .ok joined ∧
        Stmt.mapSpansAll noSpan joined = Stmt.mapSpansAll noSpan (ps ++ qs)) ∧
      ∀ levels scope start, ∃ ends,
        RunsInTurn (invoke levels) scope "let x = 'a' // b" "if (x) x" qs start ends ∧
        AlikeEnds (runSource (invoke levels) scope
          ("let x = 'a' // b" ++ "\n;\n" ++ "if (x) x") start) ends := by
  have hp : (parse "let x = 'a' // b").isOk = true := by decide +kernel
  have hq : (parse "if (x) x").isOk = true := by decide +kernel
  have hclosed : ¬ OpenComment "let x = 'a' // b".toList := fun hopen =>
    absurd hopen.infix (by decide +kernel)
  cases hps : parse "let x = 'a' // b" with
  | error fault =>
    rw [hps] at hp
    cases hp
  | ok ps =>
    cases hqs : parse "if (x) x" with
    | error fault =>
      rw [hqs] at hq
      cases hq
    | ok qs => exact ⟨ps, qs, rfl, rfl, hclosed, pieces_at_once hps hqs hclosed⟩

end Doctest.Script
