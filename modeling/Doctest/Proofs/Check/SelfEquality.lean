import Doctest.Proofs.Check.Comparison
import Doctest.Proofs.Check.Openings
import Doctest.Proofs.Script.AccessPaths
import Doctest.Proofs.Script.Making
import Doctest.Proofs.Script.Repeating.Evaluation
import Doctest.Proofs.Text.Lines

/-!
# Expressions equal themselves

A value and the one that is made again in its place are deeply equal. So a block passes in which an
expression without calls and assignments is expected to be what it is, and nothing that was there
before is changed by it.
-/

namespace Doctest

open Script

namespace Script

/-! ### Values that are made again are equal -/

section

variable {shift : Shift} {other : Heap}

/-- What a relation says of two values it says of all that is paired in them. -/
theorem Heap.alike_of_forall {heap : Heap} (related : Value → Value → Prop)
    (h : ∀ a b, related a b → ∃ parts, heap.parts? a b = some parts ∧
      ∀ pair ∈ parts, related pair.1 pair.2) {a b : Value} (hab : related a b) :
    heap.Alike a b := by
  intro depth
  induction depth generalizing a b with
  | zero => trivial
  | succ depth ih =>
    obtain ⟨parts, hparts, hall⟩ := h a b hab
    exact ⟨parts, hparts, fun pair hmem => ih (hall pair hmem)⟩

/-- Every value is paired with what it was changed to. -/
theorem pairedProperties?_mapValues (f : Value → Value) (d : Dict Value) :
    ∃ parts, pairedProperties? d (d.mapValues f) = some parts ∧
      ∀ pair ∈ parts, (∃ key, d.get? key = some pair.1) ∧ pair.2 = f pair.1 := by
  cases hparts : pairedProperties? d (d.mapValues f) with
  | none =>
    have hkeys : (d.mapValues f).keys = d.keys := by
      rw [Dict.keys, Dict.mapValues, List.map_map]
      rfl
    refine absurd (fun key => ?_) (pairedProperties?_eq_none_iff.mp hparts)
    rw [hkeys]
  | some parts =>
    refine ⟨parts, rfl, fun pair hmem => ?_⟩
    obtain ⟨key, hfirst, hsecond⟩ := (mem_pairedProperties?_iff hparts).mp hmem
    rw [Dict.get?_mapValues, hfirst, Option.map_some] at hsecond
    exact ⟨⟨key, hfirst⟩, (Option.some.inj hsecond).symm⟩

/-- **What is made again is deeply equal to what it is made again of.** -/
theorem Shift.Twins.deepEquals_value (h : shift.Twins shift.later other)
    (hclosed : shift.later.Closed fun _ => False) {value : Value}
    (hvalue : value.Of (fun _ => False) shift.later) :
    other.deepEquals value (shift.value value) = true := by
  rw [deepEquals_iff_alike]
  refine Heap.alike_of_forall
    (fun a b => a.Of (fun _ => False) shift.later ∧ b = shift.value a) ?_ ⟨hvalue, rfl⟩
  rintro a _ ⟨ha, rfl⟩
  by_cases hsame : shift.value a = a
  · rw [hsame, parts?_self]
    exact ⟨[], rfl, List.forall_mem_nil _⟩
  cases a with
  | array x =>
    have hget : other.get x = shift.later.get x := h.second.get_eq x ha.1
    have hne : x ≠ shift.ref x := fun heq => hsame (congrArg Value.array heq.symm)
    have hzip (items : List Value) :
        items.zip (items.map shift.value) = items.map fun item => (item, shift.value item) := by
      conv_lhs => rw [← List.map_id items, List.map_map, List.zip_map']
      rfl
    refine ⟨(Array.toList (shift.later.get x)).map fun item => (item, shift.value item), ?_, ?_⟩
    · rw [Shift.value, Heap.parts?, if_neg hne, hget, h.array, Array.size_map, if_pos rfl,
        Array.toList_map, hzip]
    · intro pair hmem
      obtain ⟨item, hitem, rfl⟩ := List.mem_map.mp hmem
      exact ⟨hclosed.within x id item (Array.mem_toList_iff.mp hitem), rfl⟩
  | object x =>
    have hget : other.get x = shift.later.get x := h.second.get_eq x ha.1
    have hne : x ≠ shift.ref x := fun heq => hsame (congrArg Value.object heq.symm)
    obtain ⟨parts, hparts, hpairs⟩ := pairedProperties?_mapValues shift.value (shift.later.get x)
    refine ⟨parts, ?_, fun pair hmem => ?_⟩
    · rw [Shift.value, Heap.parts?, if_neg hne, hget, h.object, hparts]
    · obtain ⟨⟨key, hfirst⟩, hsecond⟩ := hpairs pair hmem
      exact ⟨Dict.All.get? (hclosed.within x id) hfirst, hsecond⟩
  | _ => exact absurd rfl hsame

end

/-! ### Evaluating a line twice -/

/-- Whether a source is one expression without calls and assignments. -/
def isPureExpression (source : String) : Bool :=
  match parse source with
  | .ok [.expr e _] => e.isPure
  | _ => false

theorem isPureExpression_iff {source : String} :
    isPureExpression source = true ↔
      ∃ e span, parse source = .ok [.expr e span] ∧ e.isPure = true := by
  rw [isPureExpression]
  constructor
  · intro h
    split at h
    · next e span hparse => exact ⟨e, span, hparse, h⟩
    · cases h
  · rintro ⟨e, span, hparse, he⟩
    rw [hparse]
    exact he

section

variable {code : String} {e : Expr} {span : Span} {levels : Nat} {session after : Session}
  {value : Value}

theorem evaluate_expr_iff (hparse : parse code = .ok [.expr e span]) :
    (Step.evaluate levels code).run session = some (.ok value, after) ↔
      evalExpr (invoke levels) session.scope e session.machine = (.ok value, after.machine) ∧
        after.scope = session.scope := by
  rw [← runSource_expr_iff hparse, Step.evaluate, Step.ofEval_apply]
  obtain ⟨last, scope⟩ := after
  rcases runSource (invoke levels) session.scope code session.machine with
    ⟨(_ | _ | _) | found, machine⟩
  · exact ⟨nofun, nofun⟩
  · exact ⟨nofun, nofun⟩
  · exact ⟨nofun, nofun⟩
  · constructor
    · rintro ⟨⟩
      exact ⟨rfl, rfl⟩
    · rintro ⟨⟨⟩, rfl⟩
      rfl

/-- An expression that made no function gives again something that is deeply equal, and all cells
that there were stay as they are. -/
theorem evaluate_again (hwhole : session.Whole) (hparse : parse code = .ok [.expr e span])
    (he : e.isPure = true)
    (hrun : (Step.evaluate levels code).run session = some (.ok value, after))
    (hfunctions : after.heap.count .callable = session.heap.count .callable) :
    ∃ again last, (Step.evaluate levels code).run after = some (.ok again, last) ∧
      last.heap.deepEquals value again = true ∧ session.heap.Extends last.heap ∧
      last.scope = session.scope := by
  obtain ⟨heval, hscope⟩ := (evaluate_expr_iff hparse).mp hrun
  have hkept := Step.evaluate_kept hwhole hrun
  -- Alongside itself, the first evaluation is seen to add arrays and objects only.
  let still : Shift := ⟨session.heap, session.heap, hwhole.heap, .refl _, fun _ _ => rfl⟩
  have hstill := still.evalExpr_repeats hwhole.scope (invoke levels) e he
  obtain ⟨_, -, hadded⟩ := hstill.again .start heval hfunctions
  let shift : Shift := ⟨session.heap, after.heap, hwhole.heap, hadded.first, hadded.count_rest⟩
  have hshift := shift.evalExpr_repeats hwhole.scope (invoke levels) e he
  obtain ⟨other, hagain, htwins⟩ := hshift.again .start heval hfunctions
  refine ⟨shift.value value, ⟨other, after.scope⟩, ?_, ?_, ?_, hscope⟩
  · refine (evaluate_expr_iff hparse).mpr ⟨?_, rfl⟩
    rw [hscope]
    exact hagain
  · exact htwins.deepEquals_value hkept.closed.heap hkept.found
  · exact hadded.first.trans htwins.second

end

end Script

/-! ### The block -/

/-- The statements of a line that is a script, as an input and as the output expected of it. -/
theorem Block.statements_repeated {code : String} {program : List Stmt}
    (hparse : parse code = .ok program) (hfeed : '\n' ∉ code.toList)
    (hreturn : code.toList.getLast? ≠ some '\r') :
    Block.statements ("> " ++ code ++ "\n" ++ code) = .ok [⟨.input, code⟩, ⟨.output, code⟩] := by
  have htext : ("> " ++ code ++ "\n" ++ code).toList =
      ('>' :: ' ' :: code.toList) ++ '\n' :: code.toList := by
    simp
  have hinput : '\n' ∉ '>' :: ' ' :: code.toList := by
    simp [hfeed]
  have hlast : ('>' :: ' ' :: code.toList).getLast? ≠ some '\r' := by
    cases hcode : code.toList with
    | nil => decide
    | cons c s => rwa [List.getLast?_cons_cons, List.getLast?_cons_cons, ← hcode]
  have hline : BlockLine.ofLine ('>' :: ' ' :: code.toList) = .statement ⟨.input, code⟩ := by
    have hprefix : StatementKind.input.opening.toList.isPrefixOf? ('>' :: ' ' :: code.toList) =
        some code.toList := rfl
    rw [BlockLine.ofLine, StatementKind.marked, BlockLine.marked?, hprefix]
    dsimp only
    rw [String.ofList_toList]
  have hlines : Block.lines ("> " ++ code ++ "\n" ++ code) =
      [.statement ⟨.input, code⟩, .statement ⟨.output, code⟩] := by
    rw [Block.lines, htext, Text.splitLines_append_feed, Text.splitLines_of_not_mem hinput,
      Text.splitLines_of_not_mem hfeed, List.singleton_append, List.map_cons, List.map_cons,
      List.map_nil, Text.dropReturn_of_getLast? hlast, Text.dropReturn_of_getLast? hreturn, hline,
      BlockLine.ofLine_of_parse hparse]
  rw [Block.statements, hlines]
  rfl

namespace Evaluator

open EndsWell

/-- **An expression without calls and assignments equals itself**, if its evaluation in the session
gives a value and makes no function on the way. Such an expression makes one only by reading a
property that is a method or belongs to a built-in function (`property_isReading`). All bindings and
all cells that the session has are left as they are. -/
theorem runBlock_repeated {levels : Nat} {session after : Session} (hwhole : session.Whole)
    {code : String} (hfeed : '\n' ∉ code.toList) (hreturn : code.toList.getLast? ≠ some '\r')
    (hpure : isPureExpression code = true) {value : Value}
    (hrun : (Step.evaluate levels code).run session = some (.ok value, after))
    (hfunctions : after.heap.count .callable = session.heap.count .callable) :
    ∃ last, ((evaluator levels).runBlock ("> " ++ code ++ "\n" ++ code)).run session =
        some (.pass, last) ∧
      last.scope = session.scope ∧ session.heap.Extends last.heap := by
  obtain ⟨e, span, hparse, he⟩ := isPureExpression_iff.mp hpure
  obtain ⟨again, last, hagain, hequal, hextends, hscope⟩ :=
    evaluate_again hwhole hparse he hrun hfunctions
  refine ⟨last, ?_, hscope, hextends⟩
  rw [runBlock_pass_iff (Block.statements_repeated hparse hfeed hreturn)]
  refine bind_iff.mpr ⟨⟨code, value⟩, after, endsWell_start.mpr ⟨.ok value, hrun, rfl⟩, ?_⟩
  have hstep : EndsWell ((evaluator levels).step ⟨code, value⟩ ⟨.output, code⟩) after ⟨code, value⟩
      last :=
    endsWell_compare.mpr ⟨value, after, again, pure_iff.mpr ⟨rfl, rfl⟩,
      endsWell_expected.mpr hagain, hequal, rfl⟩
  rw [discard_eq, map_iff, List.foldlM_cons]
  simp only [List.foldlM_nil, bind_pure]
  exact ⟨⟨code, value⟩, hstep, trivial⟩

/-- New arrays and objects with what was there before below them, and comparisons by identity. -/
def sampleRepeated : String :=
  "[o, o.self === o, [p, \x7b a: [-0, 0 / 0, Promise] \x7d], [] === [] || o.list[0]]"

/-- An object that is in itself and a promise are made, and they are in what is compared then. -/
theorem runBlock_repeated_sample :
    ∃ value session last,
      (Step.evaluate amplyManyLevels
        "let o = \x7b list: [1] \x7d; o.self = o; let p = Promise.resolve(o)").run Session.new =
          some (.ok value, session) ∧
      ((evaluator amplyManyLevels).runBlock
        ("> " ++ sampleRepeated ++ "\n" ++ sampleRepeated)).run session = some (.pass, last) ∧
      last.scope = session.scope ∧ session.heap.Extends last.heap := by
  have hruns : ((Step.evaluate amplyManyLevels
      "let o = \x7b list: [1] \x7d; o.self = o; let p = Promise.resolve(o)" >>= fun made => do
      let before ← get
      let outcome ← Step.evaluate amplyManyLevels sampleRepeated
      let after ← get
      return (made.isOk, outcome.isOk,
        decide (after.heap.count .callable = before.heap.count .callable))).run Session.new).map
        Prod.fst = some (true, true, true) := by
    decide +kernel
  obtain ⟨⟨answer, _⟩, hrun, hanswer⟩ := Option.map_eq_some_iff.mp hruns
  obtain ⟨made, session, hmade, hrun⟩ := Step.run_bind_eq_some_iff.mp hrun
  obtain ⟨_, _, ⟨⟩, hrun⟩ := Step.run_bind_eq_some_iff.mp hrun
  obtain ⟨outcome, after, hexpression, hrun⟩ := Step.run_bind_eq_some_iff.mp hrun
  obtain ⟨_, _, ⟨⟩, hrun⟩ := Step.run_bind_eq_some_iff.mp hrun
  cases hrun
  obtain ⟨hok, hothers⟩ := Prod.mk.inj hanswer
  obtain ⟨houtcome, hfunctions⟩ := Prod.mk.inj hothers
  cases made with
  | error reason => cases hok
  | ok made =>
    cases outcome with
    | error reason => cases houtcome
    | ok value =>
      have hwhole : session.Whole := (Step.evaluate_kept Session.whole_new hmade).closed
      obtain ⟨last, hlast⟩ := runBlock_repeated hwhole (by decide +kernel) (by decide +kernel)
        (by decide +kernel) hexpression (of_decide_eq_true hfunctions)
      exact ⟨made, session, last, hmade, hlast⟩

end Evaluator

end Doctest
