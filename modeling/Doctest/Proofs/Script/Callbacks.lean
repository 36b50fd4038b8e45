import Doctest.Proofs.Script.RelativePositions

/-!
# Callbacks of arrays

The methods that walk through an array hand its items to a callback, which may do anything to the
array meanwhile. They walk through the items that there were in the beginning, so that it does not
matter: each item is handed over once and in order, up to one where the callback raises or gives an
answer that decides.
-/

namespace Doctest.Script

open Library

variable {start middle last : Machine} {ref : Ref .array} {items answers : List Value}
  {before behind : List (Value × Nat)} {args : List Value}

/-! ### Asking about items -/

/-- What a method of an array asks a callback about. -/
structure Inquiry where
  /-- The items, with their indices. -/
  entries : List (Value × Nat)
  /-- What is handed over for an item, by the answers before it. -/
  handed : List Value → Value × Nat → List Value
  /-- Whether no more has to be asked after an answer. -/
  decides : Value → Bool
  /-- What is given for an item with such an answer. -/
  verdict : Value → Value
  /-- What is given, and what it is in the heap, if there are only other answers. -/
  result : List Value → Heap → Value → Prop

namespace Inquiry

variable {inquiry : Inquiry} {call : List Value → Eval Value} {conclude : List Value → Eval Value}

/-- Some items were asked about, one after the other, each in the machine that was left by the call
before it, and none of the answers decides. -/
inductive Asked (inquiry : Inquiry) (call : List Value → Eval Value) (start : Machine) :
    List (Value × Nat) → List Value → Machine → Prop
  | none : Asked inquiry call start [] [] start
  | more {before : List (Value × Nat)} {answers : List Value} {middle last : Machine}
    {entry : Value × Nat} {answer : Value}
    (hbefore : Asked inquiry call start before answers middle)
    (hcall : call (inquiry.handed answers entry) middle = (.ok answer, last))
    (hopen : inquiry.decides answer = false) :
    Asked inquiry call start (before ++ [entry]) (answers ++ [answer]) last

/-- How an inquiry ends: with the signal of a call, with the verdict about an item, or after all
items. Then cells are added at most, for what is given. -/
inductive Ends (inquiry : Inquiry) (call : List Value → Eval Value) (start : Machine) :
    Except Signal Value × Machine → Prop
  | stopped {before behind : List (Value × Nat)} {answers : List Value} {middle last : Machine}
    {entry : Value × Nat} {signal : Signal} (hentries : inquiry.entries = before ++ entry :: behind)
    (hbefore : Asked inquiry call start before answers middle)
    (hcall : call (inquiry.handed answers entry) middle = (.error signal, last)) :
    Ends inquiry call start (.error signal, last)
  | decided {before behind : List (Value × Nat)} {answers : List Value} {middle last : Machine}
    {entry : Value × Nat} {answer : Value} (hentries : inquiry.entries = before ++ entry :: behind)
    (hbefore : Asked inquiry call start before answers middle)
    (hcall : call (inquiry.handed answers entry) middle = (.ok answer, last))
    (hdecides : inquiry.decides answer = true) :
    Ends inquiry call start (.ok (inquiry.verdict entry.1), last)
  | concluded {answers : List Value} {middle last : Machine} {value : Value}
    (hall : Asked inquiry call start inquiry.entries answers middle)
    (hextends : middle.heap.Extends last.heap) (hdepth : last.depth = middle.depth)
    (hresult : inquiry.result answers last.heap value) :
    Ends inquiry call start (.ok value, last)

theorem Asked.length_eq (h : Asked inquiry call start before answers last) :
    answers.length = before.length := by
  induction h with
  | none => rfl
  | more _ _ _ ih =>
    rw [List.length_append, List.length_append, ih]
    rfl

/-- Asks about items that are left, and concludes from all answers if none of them decides. -/
def ask (inquiry : Inquiry) (call : List Value → Eval Value) (conclude : List Value → Eval Value)
    (answers : List Value) : List (Value × Nat) → Eval Value
  | [] => conclude answers
  | entry :: behind => do
    let answer ← call (inquiry.handed answers entry)
    if inquiry.decides answer then return inquiry.verdict entry.1
    else ask inquiry call conclude (answers ++ [answer]) behind

theorem ask_ends (hconclude : ∀ answers middle, answers.length = inquiry.entries.length →
      Eval.Makes (inquiry.result answers) middle (conclude answers))
    (hentries : inquiry.entries = before ++ behind)
    (hbefore : Asked inquiry call start before answers middle) :
    Ends inquiry call start (inquiry.ask call conclude answers behind middle) := by
  -- On the items that are left: with each answer, one more of them is among those asked about.
  induction behind generalizing before answers middle with
  | nil =>
    rw [List.append_nil] at hentries
    subst hentries
    obtain ⟨value, last, hrun, hextends, hdepth, hresult⟩ :=
      hconclude answers middle hbefore.length_eq
    rw [ask, hrun]
    exact .concluded hbefore hextends hdepth hresult
  | cons entry behind ih =>
    rw [ask, Eval.bind_apply]
    rcases hcall : call (inquiry.handed answers entry) middle with ⟨signal | answer, last⟩
    · exact .stopped hentries hbefore hcall
    dsimp only
    cases hdecides : inquiry.decides answer with
    | true => exact .decided hentries hbefore hcall hdecides
    | false =>
      rw [if_neg Bool.false_ne_true]
      refine ih ?_ (.more hbefore hcall hdecides)
      rw [hentries, List.append_assoc, List.singleton_append]

end Inquiry

/-! ### The methods -/

section Methods

variable (ref : Ref .array) (items : List Value)

/-- An item is handed over with its index and the array. -/
def handedItem (_ : List Value) (entry : Value × Nat) : List Value :=
  [entry.1, numberOfNat entry.2, .array ref]

/-- An item is handed over with what was answered last before it. -/
def handedInTurn (total : Value) (entry : Value × Nat) : List Value :=
  [total, entry.1, numberOfNat entry.2, .array ref]

/-- The items of which the answers count as true. -/
def keptItems (items answers : List Value) : List Value :=
  ((items.zip answers).filter (·.2.isTruthy)).map Prod.fst

/-- An inquiry about all items, whatever the answers are. -/
def asksAll (result : List Value → Heap → Value → Prop) : Inquiry where
  entries := items.zipIdx
  handed := handedItem ref
  decides _ := false
  verdict item := item
  result := result

/-- An inquiry about items until an answer decides. -/
def asksUntil (decides : Value → Bool) (verdict : Value → Value) (otherwise : Value) : Inquiry where
  entries := items.zipIdx
  handed := handedItem ref
  decides := decides
  verdict := verdict
  result _ _ value := value = otherwise

/-- An inquiry in which the answer to an item is handed over with the next one. -/
def asksInTurn (first : Value) (entries : List (Value × Nat)) : Inquiry where
  entries := entries
  handed answers := handedInTurn ref (answers.getLastD first)
  decides _ := false
  verdict item := item
  result answers _ value := value = answers.getLastD first

variable {ref items} {call : List Value → Eval Value}

@[simp] theorem asksAll_decides (result : List Value → Heap → Value → Prop) (answer : Value) :
    (asksAll ref items result).decides answer = false :=
  rfl

@[simp] theorem asksUntil_decides (decides : Value → Bool) (verdict : Value → Value)
    (otherwise answer : Value) :
    (asksUntil ref items decides verdict otherwise).decides answer = decides answer :=
  rfl

@[simp] theorem asksInTurn_decides (first : Value) (entries : List (Value × Nat))
    (answer : Value) : (asksInTurn ref first entries).decides answer = false :=
  rfl

/-- Asks about an item whether the answer counts as true. -/
def answersTrue (ref : Ref .array) (call : List Value → Eval Value) (entry : Value × Nat) :
    Eval Bool := do
  return (← call (handedItem ref [] entry)).isTruthy

theorem mapM_eq_ask (conclude : List Value → Eval Value)
    (result : List Value → Heap → Value → Prop) (answers : List Value)
    (behind : List (Value × Nat)) :
    (do conclude (answers ++ (← behind.mapM fun entry => call (handedItem ref [] entry)))) =
      (asksAll ref items result).ask call conclude answers behind := by
  induction behind generalizing answers with
  | nil => rw [List.mapM_nil, pure_bind, List.append_nil, Inquiry.ask]
  | cons entry behind ih =>
    rw [List.mapM_cons, bind_assoc, Inquiry.ask]
    refine bind_congr fun answer => ?_
    rw [asksAll_decides, if_neg Bool.false_ne_true, ← ih, bind_assoc]
    refine bind_congr fun more => ?_
    rw [pure_bind, List.append_assoc, List.singleton_append]

theorem forM_eq_ask (result : List Value → Heap → Value → Prop) (answers : List Value)
    (behind : List (Value × Nat)) :
    (do
      behind.forM fun entry => discard (call (handedItem ref [] entry))
      return .undefined) =
      (asksAll ref items result).ask call (fun _ => return .undefined) answers behind := by
  induction behind generalizing answers with
  | nil => rfl
  | cons entry behind ih =>
    rw [Inquiry.ask, List.forM_eq_forM, List.forM_cons, bind_assoc, discard, map_const,
      Function.comp_apply, map_eq_pure_bind, bind_assoc]
    refine bind_congr fun answer => ?_
    rw [asksAll_decides, if_neg Bool.false_ne_true, ← ih]
    rfl

theorem keptItems_append {answers : List Value} {entry : Value × Nat} {answer : Value}
    (hlength : answers.length = before.length) :
    keptItems ((before ++ [entry]).map Prod.fst) (answers ++ [answer]) =
      keptItems (before.map Prod.fst) answers ++ if answer.isTruthy then [entry.1] else [] := by
  have hlength' : (before.map Prod.fst).length = answers.length := by
    rw [List.length_map, hlength]
  rw [keptItems, List.map_append, List.zip_append hlength', List.filter_append, List.map_append]
  cases hanswer : answer.isTruthy <;> simp [keptItems, hanswer]

/-- What was found so far is held in reverse, and was kept of the items before those that are
left. -/
theorem filterAuxM_eq_ask (result : List Value → Heap → Value → Prop) {answers : List Value}
    {found : List (Value × Nat)}
    (hentries : items = (before ++ behind).map Prod.fst) (hlength : answers.length = before.length)
    (hfound : found.reverse.map Prod.fst = keptItems (before.map Prod.fst) answers) :
    (do
      let found ← behind.filterAuxM (answersTrue ref call) found
      Eval.newArray (found.reverse.map Prod.fst).toArray) =
      (asksAll ref items result).ask call
        (fun answers => Eval.newArray (keptItems items answers).toArray) answers behind := by
  induction behind generalizing before answers found with
  | nil =>
    rw [List.append_nil] at hentries
    rw [List.filterAuxM, pure_bind, Inquiry.ask, hentries, hfound]
  | cons entry behind ih =>
    rw [Inquiry.ask, List.filterAuxM, answersTrue, bind_assoc, bind_assoc]
    refine bind_congr fun answer => ?_
    rw [asksAll_decides, if_neg Bool.false_ne_true, pure_bind]
    refine @ih (before ++ [entry]) _ _ ?_ ?_ ?_
    · rw [hentries, List.append_assoc, List.singleton_append]
    · rw [List.length_append, List.length_append, hlength]
      rfl
    · rw [keptItems_append hlength, ← hfound]
      cases answer.isTruthy <;> simp

theorem filterM_eq_ask (result : List Value → Heap → Value → Prop) :
    (do Eval.newArray ((← items.zipIdx.filterM (answersTrue ref call)).map Prod.fst).toArray) =
      (asksAll ref items result).ask call
        (fun answers => Eval.newArray (keptItems items answers).toArray) [] items.zipIdx := by
  have hentries : items = ([] ++ items.zipIdx).map Prod.fst := (List.zipIdx_map_fst 0 items).symm
  have hnone : ([] : List (Value × Nat)).reverse.map Prod.fst =
      keptItems (([] : List (Value × Nat)).map Prod.fst) [] :=
    rfl
  rw [List.filterM, bind_assoc, ← filterAuxM_eq_ask result hentries rfl hnone]
  refine bind_congr fun found => ?_
  rw [pure_bind]

theorem findM?_eq_ask (answers : List Value) (behind : List (Value × Nat)) :
    (do return ((← behind.findM? (answersTrue ref call)).map Prod.fst).getD .undefined) =
      (asksUntil ref items Value.isTruthy id .undefined).ask call (fun _ => return .undefined)
        answers behind := by
  induction behind generalizing answers with
  | nil => rfl
  | cons entry behind ih =>
    rw [Inquiry.ask, List.findM?, answersTrue, bind_assoc, bind_assoc]
    refine bind_congr fun answer => ?_
    rw [← ih, pure_bind, asksUntil_decides]
    cases answer.isTruthy <;> rfl

theorem anyM_eq_ask (answers : List Value) (behind : List (Value × Nat)) :
    (do return .bool (← behind.anyM (answersTrue ref call))) =
      (asksUntil ref items Value.isTruthy (fun _ => .bool true) (.bool false)).ask call
        (fun _ => return .bool false) answers behind := by
  induction behind generalizing answers with
  | nil => rfl
  | cons entry behind ih =>
    rw [Inquiry.ask, List.anyM_cons, answersTrue, bind_assoc, bind_assoc]
    refine bind_congr fun answer => ?_
    rw [← ih, pure_bind, asksUntil_decides]
    cases answer.isTruthy <;> rfl

theorem allM_eq_ask (answers : List Value) (behind : List (Value × Nat)) :
    (do return .bool (← behind.allM (answersTrue ref call))) =
      (asksUntil ref items (!Value.isTruthy ·) (fun _ => .bool false) (.bool true)).ask call
        (fun _ => return .bool true) answers behind := by
  induction behind generalizing answers with
  | nil => rfl
  | cons entry behind ih =>
    rw [Inquiry.ask, List.allM_cons, answersTrue, bind_assoc, bind_assoc]
    refine bind_congr fun answer => ?_
    rw [← ih, pure_bind, asksUntil_decides]
    cases answer.isTruthy <;> rfl

theorem foldlM_eq_ask (first : Value) (entries : List (Value × Nat)) (answers : List Value) :
    behind.foldlM (fun total entry => call (handedInTurn ref total entry))
        (answers.getLastD first) =
      (asksInTurn ref first entries).ask call (fun answers => return answers.getLastD first)
        answers behind := by
  induction behind generalizing answers with
  | nil => rfl
  | cons entry behind ih =>
    rw [Inquiry.ask, List.foldlM_cons]
    refine bind_congr fun answer => ?_
    rw [asksInTurn_decides, if_neg Bool.false_ne_true, ← ih, List.getLastD_concat]

end Methods

/-! ### Calls of the methods -/

/-- A method of an array is called after a cell was made for it, and finds the array unchanged. -/
theorem callMethod_array (levels : Nat) (ref : Ref .array) (method : ArrayMethod)
    (args : List Value) (start : Machine) :
    ∃ begun : Machine, start.heap.Extends begun.heap ∧ begun.depth = start.depth ∧
      begun.heap.get ref = start.heap.get ref ∧
      Eval.callMethod (invoke (levels + 1)) (.array ref) method.name args start =
        callArrayMethod (invoke levels) ref method args begun := by
  have hread : Eval.property (.array ref) method.name =
      Eval.newCallable (.builtin (.arrayMethod ref method)) := by cases method <;> rfl
  obtain ⟨begun, hextends, hdepth, hget, hcall⟩ :=
    Eval.callMethod_builtin hread levels args start
  exact ⟨begun, hextends, hdepth, hget ref, hcall⟩

/-- `reduce` starts with a value that it was called with or with the first item. -/
theorem callArrayMethod_reduce (invoke : Invoke) (ref : Ref .array) (args : List Value)
    (start : Machine) :
    let step (total : Value) (entry : Value × Nat) : Eval Value :=
      invoke (args.getD 0 .undefined) (handedInTurn ref total entry)
    callArrayMethod invoke ref .reduce args start =
      (match args[1]?, (start.heap.get ref).toList.zipIdx with
        | some first, entries => entries.foldlM step first
        | none, entry :: entries => entries.foldlM step entry.1
        | none, [] => Eval.fail .emptyReduce) start :=
  rfl

/-- A call of a method is an inquiry, before which there is made a cell for the method at most. -/
def Inquiry.IsMade (inquiry : Inquiry) (call : List Value → Eval Value) (start : Machine)
    (x : Eval Value) : Prop :=
  ∃ begun : Machine, start.heap.Extends begun.heap ∧ begun.depth = start.depth ∧
    inquiry.Ends call begun (x start)

/-- A method that comes to asking about all items makes an inquiry. -/
theorem Inquiry.isMade_of_ask {inquiry : Inquiry} {levels : Nat} {call : List Value → Eval Value}
    (method : ArrayMethod) (conclude : List Value → Eval Value)
    (hconclude : ∀ answers middle, answers.length = inquiry.entries.length →
      Eval.Makes (inquiry.result answers) middle (conclude answers))
    (hrun : ∀ begun : Machine, begun.heap.get ref = start.heap.get ref →
      callArrayMethod (invoke levels) ref method args begun =
        inquiry.ask call conclude [] inquiry.entries begun) :
    inquiry.IsMade call start
      (Eval.callMethod (invoke (levels + 1)) (.array ref) method.name args) := by
  obtain ⟨begun, hextends, hdepth, hget, hcall⟩ := callMethod_array levels ref method args start
  refine ⟨begun, hextends, hdepth, ?_⟩
  rw [hcall, hrun begun hget]
  exact ask_ends hconclude rfl .none

/-- What the methods of an array ask about its items. `reduce` hands over the last answer with each
item, which for the first one is a value that it was called with or else the item before it. -/
structure AsksAbout (method : String → Eval Value) (call : List Value → Eval Value)
    (ref : Ref .array) (items : List Value) (first? : Option Value) (start : Machine) : Prop where
  map : (asksAll ref items fun answers heap value =>
    heap.IsArrayOf answers value ∧ answers.length = items.length).IsMade call start (method "map")
  filter : (asksAll ref items fun answers heap value =>
    heap.IsArrayOf (keptItems items answers) value).IsMade call start (method "filter")
  forEach : (asksAll ref items fun _ _ value => value = .undefined).IsMade call start
    (method "forEach")
  find : (asksUntil ref items Value.isTruthy id .undefined).IsMade call start (method "find")
  some : (asksUntil ref items Value.isTruthy (fun _ => .bool true) (.bool false)).IsMade call start
    (method "some")
  every : (asksUntil ref items (!Value.isTruthy ·) (fun _ => .bool false) (.bool true)).IsMade call
    start (method "every")
  reduce : ∀ first, first? = .some first →
    (asksInTurn ref first items.zipIdx).IsMade call start (method "reduce")
  reduceItems : ∀ first rest, first? = .none → items = first :: rest →
    (asksInTurn ref first (rest.zipIdx 1)).IsMade call start (method "reduce")
  reduceNothing : first? = .none → items = [] → ∃ begun : Machine,
    start.heap.Extends begun.heap ∧ begun.depth = start.depth ∧
      method "reduce" start = Eval.fail .emptyReduce begun

/-- **Callbacks of arrays.** The methods that walk through an array ask about the items that it has
when they are called, in order and each with its index, whatever the callback does meanwhile. They
end with the first call that raises or whose answer decides, and else after all items. Apart from
the calls nothing is changed: there are only cells added, for the method and for a new array. -/
theorem callbacks_see_snapshot (levels : Nat) (ref : Ref .array) (args : List Value)
    (start : Machine) :
    AsksAbout (Eval.callMethod (invoke (levels + 1)) (.array ref) · args)
      (invoke levels (args.getD 0 .undefined)) ref (start.heap.get ref).toList args[1]? start where
  map := by
    refine Inquiry.isMade_of_ask .map (fun answers => Eval.newArray answers.toArray) ?_
      fun begun hget => ?_
    · intro answers middle hlength
      refine (Eval.Makes.arrayOf answers.toArray).mono fun _ _ value hvalue => ⟨hvalue, ?_⟩
      rw [hlength]
      exact List.length_zipIdx
    · rw [← hget]
      exact congrFun (mapM_eq_ask (fun answers => Eval.newArray answers.toArray) _ [] _) begun
  filter := by
    refine Inquiry.isMade_of_ask .filter
      (fun answers => Eval.newArray (keptItems (start.heap.get ref).toList answers).toArray)
      (fun answers _ _ => Eval.Makes.arrayOf (keptItems _ answers).toArray) fun begun hget => ?_
    rw [← hget]
    exact congrFun (filterM_eq_ask _) begun
  forEach := by
    refine Inquiry.isMade_of_ask .forEach _ (fun _ _ _ => .pure rfl) fun begun hget => ?_
    rw [← hget]
    exact congrFun (forM_eq_ask _ [] _) begun
  find := by
    refine Inquiry.isMade_of_ask .find _ (fun _ _ _ => .pure rfl) fun begun hget => ?_
    rw [← hget]
    exact congrFun (findM?_eq_ask [] _) begun
  some := by
    refine Inquiry.isMade_of_ask .some _ (fun _ _ _ => .pure rfl) fun begun hget => ?_
    rw [← hget]
    exact congrFun (anyM_eq_ask [] _) begun
  every := by
    refine Inquiry.isMade_of_ask .every _ (fun _ _ _ => .pure rfl) fun begun hget => ?_
    rw [← hget]
    exact congrFun (allM_eq_ask [] _) begun
  reduce first hfirst := by
    refine Inquiry.isMade_of_ask .reduce _ (fun _ _ _ => .pure rfl) fun begun hget => ?_
    rw [← hget, callArrayMethod_reduce, hfirst]
    exact congrFun (foldlM_eq_ask first _ []) begun
  reduceItems first rest hfirst hitems := by
    refine Inquiry.isMade_of_ask .reduce _ (fun _ _ _ => .pure rfl) fun begun hget => ?_
    have hentries : (begun.heap.get ref).toList.zipIdx = (first, 0) :: rest.zipIdx 1 := by
      rw [hget, hitems, List.zipIdx_cons]
    rw [callArrayMethod_reduce, hfirst, hentries]
    exact congrFun (foldlM_eq_ask first _ []) begun
  reduceNothing hfirst hitems := by
    obtain ⟨begun, hextends, hdepth, hget, hcall⟩ := callMethod_array levels ref .reduce args start
    refine ⟨begun, hextends, hdepth, hcall.trans ?_⟩
    rw [callArrayMethod_reduce, hfirst, hget, hitems]
    rfl

end Doctest.Script
