import Doctest.Proofs.Script.Pairing.Settling

/-!
# The count of calls

A machine counts the calls of closures that are being made. Whatever way out of a call is taken, it
is counted off again, so that between evaluations none is counted. To say so of calls within
evaluations, the calls are counted a second time, by the recursion that makes them.
-/

namespace Doctest.Script

/-! ### Calls counted a second time -/

/-- An evaluation before and after which a machine has to count so many calls of closures, of which
there may be no more than that. Where it does not, something else is done. -/
def Eval.guarded (alarm : Eval Value) (calls : Nat) (eval : Eval Value) : Eval Value := fun start =>
  if start.depth = calls ∧ calls ≤ greatestDepth then
    match eval start with
    | (found, last) => if last.depth = calls then (found, last) else alarm last
  else alarm start

/-- How values are called where all calls are guarded, and so is what closures do, within so many
calls of closures. Only what a closure does stands within one call more. -/
def invokeGuarded (alarm : Eval Value) : Nat → Nat → Invoke
  | 0, _ => fun _ _ => throw .exhausted
  | levels + 1, calls => fun callee args =>
    Eval.guarded alarm calls <|
      callValue
        (fun made args => Eval.asCall <| Eval.guarded alarm (calls + 1) <|
          runClosure (invokeGuarded alarm levels (calls + 1)) made args)
        (Library.call (invokeGuarded alarm levels calls)) callee args

namespace Pairing

/-- The same machine twice, which counts so many calls. -/
def counting (calls : Nat) : Pairing :=
  itself (fun m => m.depth = calls) False fun _ => True

theorem counting_settles (calls : Nat) : (counting calls).Settles :=
  itself_settles (.of_depth (· = calls)) fun h _ _ => h

theorem counting_deeper (calls : Nat) : (counting calls).Deeper (counting (calls + 1)) :=
  itself_deeper (fun h _ => congrArg (· + 1) h) (fun h => congrArg (· - 1) h) id

/-- An evaluation that counts its calls off again does the same where it is guarded. -/
theorem counting_guarded (alarm : Eval Value) {calls : Nat} (hcalls : calls ≤ greatestDepth)
    {x y : Eval Value} (h : (counting calls).Follows x y) :
    (counting calls).Follows (Eval.guarded alarm calls x) y := by
  rintro m _ ⟨rfl, hm⟩
  have hends := h m m ⟨rfl, hm⟩
  unfold Eval.guarded
  rw [if_pos ⟨hm, hcalls⟩]
  revert hends
  rcases x m with ⟨found, last⟩
  rintro (⟨hcuts, -⟩ | hends)
  · exact hcuts.elim
  · have hcount : last.depth = calls := hends.2.1.2
    dsimp only
    rw [if_pos hcount]
    exact .inr hends

/-- Guarded calls are the same as others. Closures are called within one call more, and only if
there may be one more. -/
theorem counting_invoke (alarm : Eval Value) (levels : Nat) {calls : Nat}
    (hcalls : calls ≤ greatestDepth) :
    (counting calls).Calls (invokeGuarded alarm levels calls) (Script.invoke levels) := by
  have hp := (counting_settles calls).toLawful
  induction levels generalizing calls with
  | zero => exact fun _ _ _ _ hsame => .error hsame trivial
  | succ levels ih =>
    rw [invoke_succ, invokeGuarded]
    refine fun callee args => counting_guarded alarm hcalls ?_
    refine callValue hp (fun made args => ?_) ?_ callee args
    · refine asCall hp (counting_deeper calls) fun hdescends => ?_
      obtain ⟨m, -, ⟨-, hm⟩, hdepth⟩ := hdescends
      have hinner : calls + 1 ≤ greatestDepth := hm ▸ hdepth
      have hp' := (counting_settles (calls + 1)).toLawful
      exact counting_guarded alarm hinner (runClosure hp' (ih hinner hp') made args)
    · exact call hp (ih hcalls hp)

end Pairing

/-! ### From one evaluation to the next -/

/-- What an interpreter is asked to do. -/
inductive Query where
  | source (scope : Scope) (text : String)
  | program (scope : Scope) (stmts : List Stmt)
  | settle (value : Value)
  | property (target : Value) (key : String)

/-- What is done about a query, with so many promises waiting for each other at most. -/
def Query.eval (invoke : Invoke) (levels : Nat) : Query → Eval Outcome
  | source scope text => Except.ok <$> runSource invoke scope text
  | program scope stmts => Except.ok <$> runProgram invoke scope stmts
  | settle value => Script.settle invoke levels value
  | property target key => Except.ok <$> Eval.property target key

/-- The machine after queries, each with the levels that are granted to it. -/
def Machine.after (start : Machine) (queries : List (Nat × Query)) : Machine :=
  queries.foldl (fun m query => (query.2.eval (invoke query.1) query.1 m).2) start

theorem Pairing.query {p : Pairing} {invoke invoke' : Invoke} (hp : p.Settles)
    (hspans : p.spans = id) (hcalls : p.Calls invoke invoke') (levels : Nat) (query : Query) :
    p.Follows (query.eval invoke levels) (query.eval invoke' levels) := by
  cases query with
  | source scope text => exact map (runSource hp.toLawful hspans hcalls scope text)
  | program scope stmts =>
    have hprogram := runProgram hp.toLawful hcalls scope stmts
    rw [hspans, Stmt.mapSpansAll_id] at hprogram
    exact map hprogram
  | settle value => exact settle hp hcalls levels value
  | property target key => exact map (property hp.toLawful target key)

/-- On a machine that counts no calls, guarded calls are the same as others, and no call is counted
at the end. -/
theorem Query.eval_guarded (alarm : Eval Value) (levels : Nat) (query : Query) {start : Machine}
    (hstart : start.depth = 0) :
    query.eval (invokeGuarded alarm levels 0) levels start =
        query.eval (invoke levels) levels start ∧
      (query.eval (invoke levels) levels start).2.depth = 0 := by
  have hcalls := Pairing.counting_invoke alarm levels (Nat.zero_le greatestDepth)
  have hquery := Pairing.query (Pairing.counting_settles 0) rfl hcalls levels query
  obtain ⟨heq, hlast, -⟩ := Pairing.eq_of_itself id hquery hstart
  exact ⟨heq, heq ▸ hlast⟩

theorem Machine.depth_after (queries : List (Nat × Query)) {start : Machine}
    (hstart : start.depth = 0) : (start.after queries).depth = 0 := by
  induction queries generalizing start with
  | nil => exact hstart
  | cons query rest ih =>
    exact ih (query.2.eval_guarded (throw .exhausted) query.1 hstart).2

/-- **Nothing but the heap is carried over.** After any queries, whatever became of them, no call is
counted any more. While the next one is answered, before and after every call and whatever a closure
does, the machine counts exactly the calls of closures that are being made, and no more than there
may be: the alarm is never raised, whatever it would do. So the next query is answered as it is by a
new interpreter with the same heap. -/
theorem nothing_carried_over (heap : Heap) (queries : List (Nat × Query)) :
    (Machine.after ⟨heap, 0⟩ queries).depth = 0 ∧
    (∀ alarm levels (query : Query),
      query.eval (invokeGuarded alarm levels 0) levels (Machine.after ⟨heap, 0⟩ queries) =
        query.eval (invoke levels) levels (Machine.after ⟨heap, 0⟩ queries)) ∧
    ∀ levels (query : Query),
      query.eval (invoke levels) levels (Machine.after ⟨heap, 0⟩ queries) =
        query.eval (invoke levels) levels ⟨(Machine.after ⟨heap, 0⟩ queries).heap, 0⟩ := by
  have hdepth : (Machine.after ⟨heap, 0⟩ queries).depth = 0 := Machine.depth_after queries rfl
  refine ⟨hdepth, fun alarm levels query => (query.eval_guarded alarm levels hdepth).1, ?_⟩
  generalize Machine.after ⟨heap, 0⟩ queries = last at hdepth
  obtain ⟨found, depth⟩ := last
  obtain rfl : depth = 0 := hdepth
  exact fun _ _ => rfl

end Doctest.Script
