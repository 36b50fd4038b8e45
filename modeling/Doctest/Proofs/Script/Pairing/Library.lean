import Doctest.Proofs.Script.Keeping.Library
import Doctest.Proofs.Script.Pairing.Rules

/-!
# The library alongside itself

Functions of the library go alongside themselves. Those that call values do so if the ways in which
they call them go alongside each other.
-/

namespace Doctest.Script

/-! ### Promises that wait -/

namespace Library

theorem resolve_apply (ref : Ref .promise) (outcome : Outcome) (start : Machine) :
    resolve ref outcome start =
      (match start.heap.get ref with
      | .pending .unresolved => do
        let state ← resolvedState ref outcome
        Eval.change ref fun _ => state
      | _ => pure () : Eval Unit) start :=
  rfl

/-- A promise that waits to be resolved becomes what the outcome makes of it. -/
theorem resolve_of_eq {ref : Ref .promise} {start : Machine}
    (h : start.heap.get ref = .pending .unresolved) (outcome : Outcome) :
    resolve ref outcome start =
      (do
        let state ← resolvedState ref outcome
        Eval.change ref fun _ => state : Eval Unit) start := by
  rw [resolve_apply, h]

/-- A promise that does not wait to be resolved stays as it is. -/
theorem resolve_of_ne {ref : Ref .promise} {start : Machine}
    (h : start.heap.get ref ≠ .pending .unresolved) (outcome : Outcome) :
    resolve ref outcome start = (.ok (), start) := by
  rw [resolve_apply]
  cases hstate : start.heap.get ref with
  | fulfilled | rejected => rfl
  | pending reaction =>
    cases reaction with
    | unresolved => exact absurd hstate h
    | adopt | andThen | all | running => rfl

end Library

namespace Pairing

variable {p : Pairing}

/-- Two ways to call values that go alongside each other. -/
def Calls (p : Pairing) (invoke invoke' : Invoke) : Prop :=
  ∀ callee args, p.Follows (invoke callee args) (invoke' callee args)

/-! ### Making cells, texts and numbers -/

section

variable (hp : p.Lawful)
include hp

theorem newArray (items : Array Value) : p.Keeps (Eval.newArray items) :=
  bind (alloc hp .array items) fun _ => pure _

theorem newObject (properties : Dict Value) : p.Keeps (Eval.newObject properties) :=
  bind (alloc hp .object properties) fun _ => pure _

theorem newCallable (callable : Callable) :
    p.Follows (Eval.newCallable callable) (Eval.newCallable (callable.mapSpans p.spans)) :=
  bind (alloc hp .callable callable) fun _ => pure _

/-- Built-in functions have no spans. -/
theorem newBuiltin (function : Builtin) : p.Keeps (Eval.newCallable (.builtin function)) :=
  newCallable hp (.builtin function)

theorem newPromise (state : PromiseState) : p.Keeps (Eval.newPromise state) :=
  bind (alloc hp .promise state) fun _ => pure _

theorem newError (failure : Failure) : p.Keeps (Eval.newError failure) :=
  bind (alloc hp .error _) fun _ => pure _

theorem fail {α : Type} (failure : Failure) : p.Keeps (Eval.fail failure : Eval α) :=
  bind (newError hp failure) fun _ => raise _

theorem text (value : Value) : p.Keeps (Eval.text value) :=
  ofHeap? hp (fun _ _ h => h.text? value) fun _ => .of_text?

theorem number (value : Value) : p.Keeps (Eval.number value) :=
  ofHeap? hp (fun _ _ h => h.number? value) fun _ => .of_number?

theorem inspect (value : Value) : p.Keeps (Eval.inspect value) :=
  ofHeap fun _ _ hsame => hp.inspect hsame value

/-! ### Properties -/

theorem method? {α : Type} (all : List α) (name : α → String) (bound : α → Builtin)
    (key : String) : p.Keeps (Eval.method? all name bound key) := by
  unfold Eval.method?
  split
  · exact newBuiltin hp _
  · exact pure _

theorem property (target : Value) (key : String) : p.Keeps (Eval.property target key) := by
  cases target with
  | undefined | null => exact bind (text hp _) fun _ => fail hp _
  | bool b => exact pure _
  | number x => exact method? hp _ _ _ key
  | string s =>
    dsimp only [Eval.property]
    split
    · exact pure _
    · split
      · exact pure _
      · exact method? hp _ _ _ key
  | array ref =>
    dsimp only [Eval.property]
    split
    · exact bind (read hp ref (by decide)) fun _ => pure _
    · split
      · exact bind (read hp ref (by decide)) fun _ => pure _
      · exact method? hp _ _ _ key
  | object ref => exact bind (read hp ref (by decide)) fun _ => pure _
  | error ref =>
    refine bind (read hp ref (by decide)) fun error => ?_
    split
    · exact pure _
    · split
      · exact pure _
      · exact pure _
  | promise ref => exact method? hp _ _ _ key
  | callable ref =>
    refine bindCallable hp ref fun callable => ?_
    rw [Callable.name_mapSpans]
    split
    · exact pure _
    · cases callable with
      | closure made => exact pure _
      | builtin function =>
        dsimp only [Callable.mapSpans]
        split
        · exact newBuiltin hp _
        · exact pure _

theorem setLength (ref : Ref .array) (length : Float) : p.Keeps (Eval.setLength ref length) := by
  unfold Eval.setLength
  split
  · exact change hp ref _ (by decide)
  · exact fail hp _

theorem setItem (ref : Ref .array) (index : Nat) (value : Value) :
    p.Keeps (Eval.setItem ref index value) := by
  unfold Eval.setItem
  refine bind (read hp ref (by decide)) fun items => ?_
  split
  · exact change hp ref _ (by decide)
  split
  · exact change hp ref _ (by decide)
  · exact fail hp _

theorem setProperty (target : Value) (key : String) (value : Value) :
    p.Keeps (Eval.setProperty target key value) := by
  cases target with
  | undefined | null => exact bind (text hp _) fun _ => fail hp _
  | bool | number | string | promise | callable => exact pure _
  | object ref => exact change hp ref _ (by decide)
  | array ref =>
    dsimp only [Eval.setProperty]
    split
    · exact bind (number hp _) fun _ => setLength hp ref _
    · split
      · exact setItem hp ref _ value
      · exact pure _
  | error ref =>
    dsimp only [Eval.setProperty]
    split
    · exact bind (text hp _) fun _ => change hp ref _ (by decide)
    · split
      · exact bind (text hp _) fun _ => change hp ref _ (by decide)
      · exact change hp ref _ (by decide)

end

/-! ### JSON texts -/

mutual

theorem ofJson (hp : p.Lawful) (json : Json) : p.Keeps (Script.ofJson json) := by
  cases json with
  | null | bool | number | string => exact pure _
  | array items => exact bind (ofJsonItems hp items) fun _ => newArray hp _
  | object members => exact bind (ofJsonMembers hp members) fun _ => newObject hp _

theorem ofJsonItems (hp : p.Lawful) (items : List Json) :
    p.Keeps (Script.ofJsonItems items) := by
  cases items with
  | nil => exact pure _
  | cons item rest =>
    exact bind (ofJson hp item) fun _ => bind (ofJsonItems hp rest) fun _ => pure _

theorem ofJsonMembers (hp : p.Lawful) (members : List (String × Json)) :
    p.Keeps (Script.ofJsonMembers members) := by
  cases members with
  | nil => exact pure _
  | cons member rest =>
    exact bind (ofJson hp member.2) fun _ => bind (ofJsonMembers hp rest) fun _ => pure _

end

section

variable (hp : p.Lawful)
include hp

omit hp in
theorem stringify_apply (value indent : Value) (start : Machine) :
    Library.stringify value indent start =
      (match start.heap.json value with
      | .ok (some json) => Pure.pure (.string (json.text (Library.indentOf indent)))
      | .ok none => Pure.pure .undefined
      | .error .circular => Eval.fail .circularJson
      | .error .endless => throw .exhausted : Eval Value) start :=
  rfl

theorem stringify (value indent : Value) : p.Keeps (Library.stringify value indent) := by
  intro m n hsame
  have hjson : n.heap.json value = m.heap.json value := ((hp.resembles hsame).json value).symm
  rw [stringify_apply, stringify_apply, hjson]
  rcases hfound : m.heap.json value with (_ | _) | _ | _
  · exact fail hp _ m n hsame
  · exact .error hsame (hp.endless hsame (.inr ⟨value, hfound⟩))
  · exact .ok hsame
  · exact .ok hsame

theorem parseJson (value : Value) : p.Keeps (Library.parseJson value) := by
  refine bind (text hp value) fun s => ?_
  split
  · exact ofJson hp _
  · exact fail hp _

/-! ### Numbers -/

theorem numberOr (value? : Option Value) (default : Float) :
    p.Keeps (match value? with | some value => Eval.number value | none => Pure.pure default) := by
  cases value? with
  | some value => exact number hp value
  | none => exact pure _

theorem fixedText (x receiver : Float) : p.Keeps
    (match Library.decimalPlaces? x with
    | some places =>
      return .string ((Number.fixedText? places receiver).getD (Number.text receiver))
    | none => Eval.fail .decimalPlaces : Eval Value) := by
  split
  · exact pure _
  · exact fail hp _

theorem callNumberMethod (receiver : Float) (method : NumberMethod) (args : List Value) :
    p.Keeps (Library.callNumberMethod receiver method args) := by
  cases method with
  | toString => exact pure _
  | toFixed =>
    dsimp only [Library.callNumberMethod]
    split
    · exact bind (number hp _) fun x => fixedText hp x receiver
    · exact bind (pure _) fun x => fixedText hp x receiver

theorem extreme (atLeastAsExtreme : Float → Float → Bool) (best : Float) (values : List Value) :
    p.Keeps (Library.extreme atLeastAsExtreme best values) := by
  induction values generalizing best with
  | nil => exact pure _
  | cons value rest ih =>
    refine bind (number hp value) fun x => ?_
    split
    · exact pure _
    · exact ih _

theorem callMath (function : MathFunction) (args : List Value) :
    p.Keeps (Library.callMath function args) := by
  have hnumber (index : Nat) := numberOr hp args[index]? (0.0 / 0.0)
  cases function with
  | max | min => exact bind (extreme hp _ _ args) fun _ => pure _
  | floor | ceil | round | trunc | abs | sqrt => exact bind (hnumber 0) fun _ => pure _
  | pow =>
    refine bind (hnumber 1) fun exponent => ?_
    split
    · exact pure _
    · exact bind (hnumber 0) fun _ => pure _

/-! ### Objects and errors -/

theorem ownProperties (target : Value) : p.Keeps (Library.ownProperties target) := by
  cases target with
  | undefined | null => exact fail hp _
  | bool | number | callable | promise | string => exact pure _
  | object ref => exact bind (read hp ref (by decide)) fun _ => pure _
  | array ref => exact bind (read hp ref (by decide)) fun _ => pure _
  | error ref => exact bind (read hp ref (by decide)) fun _ => pure _

theorem keys (target : Value) : p.Keeps (Library.keys target) :=
  bind (ownProperties hp target) fun _ => newArray hp _

theorem values (target : Value) : p.Keeps (Library.values target) :=
  bind (ownProperties hp target) fun _ => newArray hp _

theorem entries (target : Value) : p.Keeps (Library.entries target) :=
  bind (ownProperties hp target) fun pairs =>
    bind (mapM (fun pair => newArray hp #[.string pair.1, pair.2]) pairs) fun _ => newArray hp _

theorem toObject (value : Value) : p.Keeps (Library.toObject value) := by
  unfold Library.toObject
  split
  · exact newObject hp _
  · exact pure _

theorem messageOf (arg : Option Value) : p.Keeps (Library.messageOf arg) := by
  unfold Library.messageOf
  split
  · exact pure _
  · exact pure _
  · exact text hp _

theorem optionsOf (arg : Option Value) : p.Keeps (Library.optionsOf arg) := by
  unfold Library.optionsOf
  split
  · exact read hp _ (by decide)
  · exact pure _

theorem newErrorOf (kind : ErrorKind) (args : List Value) :
    p.Keeps (Library.newErrorOf kind args) :=
  bind (messageOf hp _) fun _ => bind (optionsOf hp _) fun _ =>
    bind (alloc hp .error _) fun _ => pure _

/-! ### Promises -/

theorem promiseOf (value : Value) : p.Keeps (Library.promiseOf value) := by
  unfold Library.promiseOf
  split
  · exact pure _
  · exact newPromise hp _

theorem promiseOfAll (items : Value) : p.Keeps (Library.promiseOfAll items) := by
  unfold Library.promiseOfAll
  split
  · exact bind (read hp _ (by decide)) fun _ => newPromise hp _
  · exact bind (inspect hp _) fun _ => bind (newError hp _) fun _ => newPromise hp _

theorem resolvedState (ref : Ref .promise) (outcome : Outcome) :
    p.Keeps (Library.resolvedState ref outcome) := by
  unfold Library.resolvedState
  split
  · split
    · exact bind (newError hp _) fun _ => pure _
    · exact pure _
  · exact pure _

end

section

variable (hp : p.Lawful)
include hp

/-- Both promises wait to be resolved or neither does, and both become the same. -/
theorem resolve (ref : Ref .promise) (outcome : Outcome) :
    p.Keeps (Library.resolve ref outcome) := by
  intro m n hsame
  by_cases hwaits : m.heap.get ref = .pending .unresolved
  · have hother := (hp.waits hsame ref).mp hwaits
    rw [Library.resolve_of_eq hwaits, Library.resolve_of_eq hother]
    refine (resolvedState hp ref outcome m n hsame).bind fun state last other hlast _ hend => ?_
    have hkept := Library.get_resolvedState ref ref outcome m
    rw [hlast, hwaits] at hkept
    exact .inr ⟨rfl, hp.resolve hend ref state hkept, nofun⟩
  · have hother : n.heap.get ref ≠ .pending .unresolved := fun h =>
      hwaits ((hp.waits hsame ref).mpr h)
    rw [Library.resolve_of_ne hwaits, Library.resolve_of_ne hother]
    exact .ok hsame

theorem newPromiseBy {invoke invoke' : Invoke} (hcalls : p.Calls invoke invoke')
    (args : List Value) :
    p.Follows (Library.newPromiseBy invoke args) (Library.newPromiseBy invoke' args) := by
  unfold Library.newPromiseBy
  dsimp only
  split
  · refine bind (alloc hp .promise _) fun ref => ?_
    refine bind (newBuiltin hp _) fun resolver => bind (newBuiltin hp _) fun rejecter => ?_
    refine bind (outcome (hcalls _ _)) fun found => ?_
    cases found with
    | ok value => exact pure _
    | error reason => exact bind (resolve hp ref _) fun _ => pure _
  · exact bind (inspect hp _) fun _ => fail hp _

theorem callPromiseMethod (ref : Ref .promise) (method : PromiseMethod) (args : List Value) :
    p.Keeps (Library.callPromiseMethod ref method args) := by
  cases method with
  | andThen | onRejected => exact newPromise hp _

/-! ### Arrays and strings -/

theorem position (arg : Option Value) (length default : Nat) :
    p.Keeps (Library.position arg length default) := by
  unfold Library.position
  split
  · exact pure _
  · exact pure _
  · exact bind (number hp _) fun _ => pure _

theorem itemText (item : Value) : p.Keeps (Library.itemText item) := by
  unfold Library.itemText
  split
  · exact pure _
  · exact text hp _

theorem newArrayOf (args : List Value) : p.Keeps (Library.newArrayOf args) := by
  unfold Library.newArrayOf
  split
  · split
    · exact newArray hp _
    · exact fail hp _
  · exact newArray hp _

theorem spread (arg : Value) : p.Keeps (Library.spread arg) := by
  unfold Library.spread
  split
  · exact read hp _ (by decide)
  · exact pure _

theorem callArrayMethod {invoke invoke' : Invoke} (hcalls : p.Calls invoke invoke')
    (ref : Ref .array) (method : ArrayMethod) (args : List Value) :
    p.Follows (Library.callArrayMethod invoke ref method args)
      (Library.callArrayMethod invoke' ref method args) := by
  have hread : p.Keeps (Eval.read ref) := read hp ref (by decide)
  have hsnapshot : p.Keeps (do return (← Eval.read ref).toList.zipIdx) :=
    bind hread fun _ => pure _
  have hcall (entry : Value × Nat) :
      p.Follows
        (invoke (args.getD 0 .undefined) [entry.1, numberOfNat entry.2, .array ref])
        (invoke' (args.getD 0 .undefined) [entry.1, numberOfNat entry.2, .array ref]) :=
    hcalls _ _
  have hholds (entry : Value × Nat) :
      p.Follows
        (do
          return (← invoke (args.getD 0 .undefined)
            [entry.1, numberOfNat entry.2, .array ref]).isTruthy)
        (do
          return (← invoke' (args.getD 0 .undefined)
            [entry.1, numberOfNat entry.2, .array ref]).isTruthy) :=
    bind (hcall entry) fun _ => pure _
  cases method with
  | push => exact bind (change hp ref _ (by decide)) fun _ => bind hread fun _ => pure _
  | pop => exact bind hread fun _ => bind (change hp ref _ (by decide)) fun _ => pure _
  | map => exact bind hsnapshot fun entries => bind (mapM hcall entries) fun _ => newArray hp _
  | filter =>
    exact bind hsnapshot fun entries => bind (filterM hholds entries) fun _ => newArray hp _
  | forEach =>
    exact bind hsnapshot fun entries =>
      bind (forM (fun entry => map (hcall entry)) entries) fun _ => pure _
  | find => exact bind hsnapshot fun entries => bind (findM? hholds entries) fun _ => pure _
  | some => exact bind hsnapshot fun entries => bind (anyM hholds entries) fun _ => pure _
  | every => exact bind hsnapshot fun entries => bind (allM hholds entries) fun _ => pure _
  | reduce =>
    have hfold (entries : List (Value × Nat)) (start : Value) :=
      foldlM (fun (total : Value) (entry : Value × Nat) => hcalls (args.getD 0 .undefined)
        [total, entry.1, numberOfNat entry.2, .array ref]) entries start
    refine bind hsnapshot fun entries => ?_
    cases args[1]? with
    | some start => exact hfold entries start
    | none =>
      cases entries with
      | cons entry entries => exact hfold entries entry.1
      | nil => exact fail hp _
  | join =>
    have hjoined (separator : String) : p.Keeps (do
        return Value.string (separator.intercalate
          (← (← Eval.read ref).toList.mapM Library.itemText))) :=
      bind hread fun items => bind (mapM (itemText hp) items.toList) fun _ => pure _
    dsimp only [Library.callArrayMethod]
    split
    · exact bind (pure _) hjoined
    · exact bind (text hp _) hjoined
  | includes => exact bind hread fun _ => bind (position hp _ _ _) fun _ => pure _
  | indexOf =>
    refine bind hread fun _ => bind (position hp _ _ _) fun _ => ?_
    split
    · exact pure _
    · exact pure _
  | slice =>
    exact bind hread fun _ => bind (position hp _ _ _) fun _ => bind (position hp _ _ _) fun _ =>
      newArray hp _
  | concat =>
    exact bind hread fun items =>
      bind (foldlM (fun _ arg => bind (spread hp arg) fun _ => pure _) args items) fun _ =>
        newArray hp _
  | reverse => exact bind (change hp ref _ (by decide)) fun _ => pure _

theorem newTexts (texts : List (List Char)) : p.Keeps (Library.newTexts texts) :=
  newArray hp _

theorem repeatText (x : Float) (s : List Char) : p.Keeps (Library.repeatText x s) := by
  unfold Library.repeatText
  generalize (if x.isNaN then 0.0 else x) = count
  dsimp only
  split
  · exact fail hp _
  split
  · exact fail hp _
  split
  · exact fail hp _
  · exact pure _

theorem callStringMethod (receiver : String) (method : StringMethod) (args : List Value) :
    p.Keeps (Library.callStringMethod receiver method args) := by
  have hneedle : p.Keeps (do return (← Eval.text (args.getD 0 .undefined)).toList) :=
    bind (text hp _) fun _ => pure _
  have hcount := numberOr hp args[0]? 0.0
  cases method with
  | toUpperCase | toLowerCase | trim | trimStart | trimEnd => exact pure _
  | split =>
    dsimp only [Library.callStringMethod]
    split
    · exact bind (pure _) fun _ => newTexts hp _
    · exact bind (map hneedle) fun _ => newTexts hp _
  | includes | startsWith | endsWith => exact bind hneedle fun _ => pure _
  | slice => exact bind (position hp _ _ _) fun _ => bind (position hp _ _ _) fun _ => pure _
  | indexOf =>
    refine bind hneedle fun needle => ?_
    split
    · exact pure _
    · exact pure _
  | charAt => exact bind hcount fun _ => pure _
  | «repeat» => exact bind hcount fun _ => bind (repeatText hp _ _) fun _ => pure _

/-! ### Calls -/

theorem call {invoke invoke' : Invoke} (hcalls : p.Calls invoke invoke') (function : Builtin)
    (args : List Value) :
    p.Follows (Library.call invoke function args) (Library.call invoke' function args) := by
  cases function with
  | error kind => exact newErrorOf hp kind args
  | promise => exact fail hp _
  | promiseResolve => exact promiseOf hp _
  | promiseReject => exact newPromise hp _
  | promiseAll => exact promiseOfAll hp _
  | resolver target rejects => exact bind (resolve hp target _) fun _ => pure _
  | object => exact toObject hp _
  | objectKeys => exact keys hp _
  | objectValues => exact values hp _
  | objectEntries => exact entries hp _
  | array => exact newArrayOf hp args
  | arrayIsArray | boolean => exact pure _
  | string =>
    dsimp only [Library.call]
    split
    · exact pure _
    · exact bind (text hp _) fun _ => pure _
  | number =>
    dsimp only [Library.call]
    split
    · exact pure _
    · exact bind (number hp _) fun _ => pure _
  | math function => exact callMath hp function args
  | jsonStringify => exact stringify hp _ _
  | jsonParse => exact parseJson hp _
  | arrayMethod receiver method => exact callArrayMethod hp hcalls receiver method args
  | stringMethod receiver method => exact callStringMethod hp receiver method args
  | numberMethod receiver method => exact callNumberMethod hp receiver method args
  | promiseMethod receiver method => exact callPromiseMethod hp receiver method args

theorem construct {invoke invoke' : Invoke} (hcalls : p.Calls invoke invoke') (callee : Value)
    (args : List Value) (shown : String) :
    p.Follows (Library.construct invoke callee args shown)
      (Library.construct invoke' callee args shown) := by
  cases callee with
  | callable ref =>
    refine bindCallable hp ref fun callable => ?_
    cases callable with
    | closure made => exact fail hp _
    | builtin function =>
      dsimp only [Callable.mapSpans]
      split
      · exact newPromiseBy hp hcalls args
      · split
        · exact call hp hcalls _ args
        · exact fail hp _
      · contradiction
  | _ => exact fail hp _

end

end Pairing

end Doctest.Script
