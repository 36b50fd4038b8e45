import Doctest.Proofs.Script.Keeping.Sessions
import Doctest.Proofs.Script.Pairing.Itself

/-!
# How deeply calls are nested

Calls of closures are counted, and beyond the greatest depth they raise an error. Calls of built-in
functions are not: a method of an array that calls another such method for its items goes on as long
as the items are such methods. So a script comes back if and only if there is a bound on how many
calls of built-in functions are made directly within each other, or if a conversion comes to no end
in it.
-/

namespace Doctest.Script

/-- How values are called where no more than `bound` calls of built-in functions are made directly
within each other, `left` of which are left. One more is made in some other way. -/
def invokeChained (beyond : Builtin → List Value → Eval Value) (bound : Nat) :
    Nat → Nat → Invoke
  | 0, _ => fun _ _ => throw .exhausted
  | levels + 1, 0 => callValue (callClosure (invokeChained beyond bound levels bound)) beyond
  | levels + 1, left + 1 =>
    callValue (callClosure (invokeChained beyond bound levels bound))
      (Library.call (invokeChained beyond bound levels left))

/-- The levels of nested calls that there may be if no more than so many calls of built-in functions
are made directly within each other. -/
def callsWithin (bound : Nat) : Nat :=
  (greatestDepth + 1) * (bound + 1)

/-- A script in which no more than so many calls of built-in functions are made directly within each
other: one more is never made, since it does not matter how it would be. -/
def NestsWithin (bound : Nat) (scope : Scope) (source : String) (start : Machine) : Prop :=
  ∀ beyond levels, callsWithin bound ≤ levels →
    runSource (invokeChained beyond bound levels bound) scope source start =
      runSource (invoke levels) scope source start

/-- At the greatest depth a call of a closure raises an error, whatever the closure does. -/
theorem callClosure_of_le {start : Machine} (h : greatestDepth ≤ start.depth) {invoke : Invoke}
    {made : Closure} {args : List Value} :
    callClosure invoke made args start = Eval.fail .callDepth start :=
  if_neg (Nat.not_lt.mpr h)

/-! ### Levels that are enough -/

namespace Pairing

/-- The same machine twice, so many calls of closures deep. Only conversions come to no end. -/
def exact (depth : Nat) : Pairing :=
  itself (fun m => m.depth = depth) False fun m => m.heap.Endless

theorem exact_lawful (depth : Nat) : (exact depth).Lawful :=
  itself_lawful (.of_depth (· = depth)) fun _ h => h

theorem exact_deeper (depth : Nat) : (exact depth).Deeper (exact (depth + 1)) :=
  itself_deeper (fun h _ => congrArg (· + 1) h) (fun h => congrArg (· - 1) h) id

/-- Calls of values are the same however many levels there are, if there are enough of them. Every
call of a closure takes a level and one of the calls of closures that are left, and at most `bound`
calls of built-in functions come before the next one. -/
theorem exact_calls {bound : Nat} {beyond : Builtin → List Value → Eval Value}
    (hbeyond : ∀ depth function args, (exact depth).Keeps (beyond function args))
    {levels levels' depth left : Nat}
    (henough : (greatestDepth - depth) * (bound + 1) + left + 1 ≤ levels)
    (henough' : (greatestDepth - depth) * (bound + 1) + left + 1 ≤ levels') :
    (exact depth).Calls (invokeChained beyond bound levels left)
      (invokeChained beyond bound levels' left) := by
  induction levels generalizing levels' depth left with
  | zero => omega
  | succ levels ih =>
    obtain ⟨levels', rfl⟩ : ∃ rest, levels' = rest + 1 := ⟨levels' - 1, by omega⟩
    have hp := exact_lawful depth
    have hinner (hdescends : (exact depth).Descends) :
        (exact (depth + 1)).Calls (invokeChained beyond bound levels bound)
          (invokeChained beyond bound levels' bound) := by
      obtain ⟨m, -, ⟨-, hm⟩, hdepth⟩ := hdescends
      have hdeeper : greatestDepth - depth = greatestDepth - (depth + 1) + 1 := by omega
      rw [hdeeper, Nat.add_mul] at henough henough'
      exact ih (by omega) (by omega)
    have hclosure := callClosure hp (exact_lawful _) (exact_deeper depth) hinner
    cases left with
    | zero => exact callValue hp hclosure (hbeyond depth)
    | succ left => exact callValue hp hclosure (call hp (ih (by omega) (by omega)))

/-- The same machine twice, where the first evaluation may be cut off. -/
def cutting : Pairing :=
  itself (fun _ => True) True fun _ => True

theorem cutting_lawful : cutting.Lawful :=
  itself_lawful (.of_depth fun _ => True) fun _ _ => trivial

theorem cutting_deeper : cutting.Deeper cutting :=
  itself_deeper (fun _ _ => trivial) id id

/-- Where an evaluation is not cut off, another one that goes on behind is the same. -/
theorem eq_of_cutting {x y : Eval Value} (h : cutting.Follows x y) {start : Machine}
    (hback : (x start).1 ≠ .error .exhausted) : y start = x start := by
  rcases h start start ⟨rfl, trivial⟩ with ⟨-, hcut⟩ | ⟨hfound, ⟨hlast, -⟩, -⟩
  · exact absurd hcut hback
  · exact (Prod.ext hfound hlast).symm

/-- More levels change nothing but where calls are cut off. -/
theorem cutting_invoke {levels more : Nat} (h : levels ≤ more) :
    cutting.Calls (Script.invoke levels) (Script.invoke more) := by
  induction levels generalizing more with
  | zero => exact fun _ _ => exhausted trivial _
  | succ levels ih =>
    obtain ⟨more, rfl⟩ : ∃ rest, more = rest + 1 := ⟨more - 1, by omega⟩
    have hp := cutting_lawful
    have hinner := ih (Nat.le_of_succ_le_succ h)
    rw [invoke_succ, invoke_succ]
    exact callValue hp (callClosure hp hp cutting_deeper fun _ => hinner) (call hp hinner)

/-- So many levels end before so many calls of built-in functions are made within each other. -/
theorem cutting_invokeChained (beyond : Builtin → List Value → Eval Value)
    {bound levels more left : Nat} (hmore : levels ≤ more) (hbound : levels ≤ bound)
    (hleft : levels ≤ left) :
    cutting.Calls (Script.invoke levels) (invokeChained beyond bound more left) := by
  induction levels generalizing more left with
  | zero => exact fun _ _ => exhausted trivial _
  | succ levels ih =>
    obtain ⟨more, rfl⟩ : ∃ rest, more = rest + 1 := ⟨more - 1, by omega⟩
    obtain ⟨left, rfl⟩ : ∃ rest, left = rest + 1 := ⟨left - 1, by omega⟩
    have hp := cutting_lawful
    rw [invoke_succ]
    have hinner := ih (by omega : levels ≤ more) (by omega) (by omega : levels ≤ bound)
    exact callValue hp (callClosure hp hp cutting_deeper fun _ => hinner)
      (call hp (ih (by omega) (by omega) (by omega)))

end Pairing

/-! ### Scripts that come back -/

/-- A script in which built-in functions are not called without end gives or raises a value, unless
a conversion comes to no end. Where there are enough levels, more of them change nothing. -/
theorem NestsWithin.comes_back {bound : Nat} {scope : Scope} {source : String} {start : Machine}
    (h : NestsWithin bound scope source start) {levels : Nat}
    (hlevels : callsWithin bound ≤ levels) :
    runSource (invoke levels) scope source start =
        runSource (invoke (callsWithin bound)) scope source start ∧
      ((∃ value, (runSource (invoke levels) scope source start).1 = .ok value) ∨
        (∃ reason, (runSource (invoke levels) scope source start).1 = .error (.raised reason)) ∨
        (runSource (invoke levels) scope source start).1 = .error .exhausted ∧
          (runSource (invoke levels) scope source start).2.heap.Endless) := by
  let beyond (_ : Builtin) (_ : List Value) : Eval Value := Eval.raise .undefined
  have henough : (greatestDepth - start.depth) * (bound + 1) + bound + 1 ≤ callsWithin bound := by
    have hdepth : greatestDepth - start.depth ≤ greatestDepth := Nat.sub_le _ _
    have hcalls := Nat.mul_le_mul_right (bound + 1) hdepth
    rw [callsWithin, Nat.add_mul]
    omega
  have hbeyond (depth : Nat) (function : Builtin) (args : List Value) :
      (Pairing.exact depth).Keeps (beyond function args) :=
    Pairing.raise _
  have hcalls := Pairing.exact_calls hbeyond (Nat.le_trans henough hlevels) henough
  have hends := Pairing.runSource (Pairing.exact_lawful start.depth) rfl hcalls scope source start
    start ⟨rfl, rfl⟩
  rw [h beyond levels hlevels, h beyond _ (Nat.le_refl _)] at hends
  rcases hends with ⟨hcuts, -⟩ | ⟨hfound, ⟨hlast, -⟩, hadmits⟩
  · exact hcuts.elim
  · refine ⟨Prod.ext hfound hlast, ?_⟩
    revert hadmits
    rcases runSource (invoke levels) scope source start with ⟨signal | value, last⟩
    case ok => exact fun _ => .inl ⟨value, rfl⟩
    case error =>
      intro hadmits
      have hadmitted := hadmits signal rfl
      cases signal with
      | raised reason => exact .inr (.inl ⟨reason, rfl⟩)
      | returned value => exact hadmitted.elim
      | exhausted => exact .inr (.inr ⟨rfl, hadmitted⟩)

/-- A script that comes back with so many levels makes no more calls within each other. -/
theorem nestsWithin_of_comes_back {levels : Nat} {scope : Scope} {source : String}
    {start : Machine} (h : (runSource (invoke levels) scope source start).1 ≠ .error .exhausted) :
    NestsWithin levels scope source start := by
  intro beyond more hmore
  have hlevels : levels ≤ more := by
    have hone : 1 * (levels + 1) ≤ (greatestDepth + 1) * (levels + 1) :=
      Nat.mul_le_mul_right _ (Nat.le_add_left _ _)
    rw [callsWithin] at hmore
    omega
  have hp := Pairing.cutting_lawful
  have hchained := Pairing.runSource hp rfl
    (Pairing.cutting_invokeChained beyond hlevels (Nat.le_refl _) (Nat.le_refl _)) scope source
  have hplain := Pairing.runSource hp rfl (Pairing.cutting_invoke hlevels) scope source
  rw [Pairing.eq_of_cutting hchained h, Pairing.eq_of_cutting hplain h]

/-- A method that goes through an array is called for itself, the only item of that array. -/
theorem invoke_of_own_item {heap : Heap} {items : Ref .array} {method : Ref .callable}
    (hitems : heap.get items = #[.callable method])
    (hmethod : heap.get method = .builtin (.arrayMethod items .map)) (levels depth : Nat)
    (rest : List Value) :
    invoke levels (.callable method) (.callable method :: rest) ⟨heap, depth⟩ =
      (.error .exhausted, ⟨heap, depth⟩) := by
  induction levels generalizing rest with
  | zero => rfl
  | succ levels ih =>
    have hsnapshot : (do return (← Eval.read items).toList.zipIdx : Eval (List (Value × Nat)))
        ⟨heap, depth⟩ = (.ok [(.callable method, 0)], ⟨heap, depth⟩) := by
      rw [Eval.bind_apply]
      change (Except.ok (heap.get items).toList.zipIdx, Machine.mk heap depth) = _
      rw [hitems]
      rfl
    have hitem := ih [numberOfNat 0, .array items]
    rw [invoke_builtin hmethod]
    change ((do return (← Eval.read items).toList.zipIdx) >>= fun entries =>
      (entries.mapM fun entry => invoke levels (.callable method)
        [entry.1, numberOfNat entry.2, .array items]) >>= fun values =>
          Eval.newArray values.toArray : Eval Value) _ = _
    rw [Eval.bind_apply, hsnapshot]
    dsimp only
    rw [Eval.bind_apply, List.mapM_cons, Eval.bind_apply, hitem]

/-- Whether all that is to be run is a call of a name with that name. -/
def callsWithItself (name : String) : Except Fault (List Stmt) → Bool
  | .ok [.expr (.call (.ident callee _) [.ident arg _] _) _] => callee = name ∧ arg = name
  | _ => false

theorem exists_of_callsWithItself {name : String} {parsed : Except Fault (List Stmt)}
    (h : callsWithItself name parsed = true) : ∃ first second third fourth,
      parsed = .ok [.expr (.call (.ident name first) [.ident name second] third) fourth] := by
  unfold callsWithItself at h
  split at h
  case h_2 => cases h
  case h_1 =>
    obtain ⟨rfl, rfl⟩ := of_decide_eq_true h
    exact ⟨_, _, _, _, rfl⟩

/-- A script that only calls a function with itself is cut off if the call is. -/
theorem runSource_of_call {invoke : Invoke} {scope : Scope} {start last : Machine} {name : String}
    {function : Ref .callable} {source : String}
    (hcalls : callsWithItself name (parse source) = true)
    (hname : scope.get? start.heap name = some (.callable function))
    (hcall : invoke (.callable function) [.callable function] start = (.error .exhausted, last)) :
    runSource invoke scope source start = (.error .exhausted, last) := by
  obtain ⟨first, second, third, fourth, hparse⟩ := exists_of_callsWithItself hcalls
  have hvalue : scope.value name start = (.ok (.callable function), start) := by
    have hfound : Eval.ofHeap (scope.get? · name) start =
        (.ok (some (.callable function)), start) := by
      rw [← hname]
      rfl
    rw [Scope.value, Eval.bind_apply, hfound]
    rfl
  have hargs : evalExprs invoke scope [.ident name second] start =
      (.ok [.callable function], start) := by
    rw [evalExprs, evalExpr, Eval.bind_apply, hvalue]
    dsimp only
    rw [evalExprs]
    rfl
  have hexpr : evalExpr invoke scope (.call (.ident name first) [.ident name second] third) start =
      (.error .exhausted, last) := by
    rw [evalExpr, evalExpr, Eval.bind_apply, hvalue]
    dsimp only
    rw [Eval.bind_apply, hargs]
    exact hcall
  rw [runSource, hparse]
  dsimp only
  rw [runProgram, Eval.bind_apply, Eval.tryCatch_apply, Eval.bind_apply, execStmts,
    Eval.bind_apply, execStmt, Eval.bind_apply, hexpr]
  rfl

end Doctest.Script
