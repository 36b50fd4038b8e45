import Doctest.Proofs.Script.AccessPaths
import Doctest.Proofs.Script.Making
import Doctest.Proofs.Script.NestedScopes
import Doctest.Proofs.Script.Repeating.Evaluation

/-!
# Reading again what was read

Reading a property gives the value that is stored there, or it makes a function: the methods of
values, and the functions that belong to built-in ones, are made anew by each reading. What is read
by names, literals and properties depends on nothing that other readings have made.
-/

namespace Doctest.Script

/-! ### What one reading gives -/

namespace Heap

/-- The function that reading a property makes: a method that is bound to the value, or a function
that belongs to a built-in one. -/
def made? (heap : Heap) (target : Value) (key : String) : Option Builtin :=
  match target with
  | .number x => (NumberMethod.all.find? (·.name = key)).map (.numberMethod x)
  | .string s => (StringMethod.all.find? (·.name = key)).map (.stringMethod s)
  | .array ref => (ArrayMethod.all.find? (·.name = key)).map (.arrayMethod ref)
  | .promise ref => (PromiseMethod.all.find? (·.name = key)).map (.promiseMethod ref)
  | .callable ref =>
    match heap.get ref with
    | .closure _ => none
    | .builtin function => function.member? key
  | _ => none

/-- The value that is stored as a property; `undefined` where there is none. -/
def stored (heap : Heap) (target : Value) (key : String) : Value :=
  match target with
  | .string s =>
    if key = "length" then numberOfNat s.length
    else
      match indexOfKey? key with
      | some index =>
        (s.toList[index]?.map fun c => Value.string (String.singleton c)).getD .undefined
      | none => .undefined
  | .array ref =>
    if key = "length" then numberOfNat (heap.get ref).size
    else
      match indexOfKey? key with
      | some index => (heap.get ref).getD index .undefined
      | none => .undefined
  | .object ref => ((heap.get ref).get? key).getD .undefined
  | .error ref => (heap.get ref).property key
  | .callable ref =>
    if key = "name" then .string (heap.get ref).name
    else
      match heap.get ref with
      | .closure made => if key = "length" then numberOfNat made.params.length else .undefined
      | .builtin _ => .undefined
  | _ => .undefined

end Heap

/-- What reading a property gives and leaves, if it does not fail. -/
def Eval.reading (target : Value) (key : String) (start : Machine) :
    Except Signal Value × Machine :=
  match start.heap.made? target key with
  | some function => Eval.newCallable (.builtin function) start
  | none => (.ok (start.heap.stored target key), start)

theorem method?_apply {ι : Type} (all : List ι) (name : ι → String) (bind : ι → Builtin)
    (key : String) (start : Machine) :
    Eval.method? all name bind key start =
      match (all.find? (name · = key)).map bind with
      | some function => Eval.newCallable (.builtin function) start
      | none => (.ok .undefined, start) := by
  unfold Eval.method?
  cases all.find? (name · = key) <;> rfl

/-- No key of a list of names is the length or an index. -/
theorem find?_eq_none {ι : Type} {all : List ι} {name : ι → String} {key : String}
    (h : ∀ method ∈ all, name method ≠ "length" ∧ indexOfKey? (name method) = none)
    (hkey : key = "length" ∨ indexOfKey? key ≠ none) : all.find? (name · = key) = none := by
  refine List.find?_eq_none.mpr fun method hmem hname => ?_
  obtain ⟨hlength, hindex⟩ := h method hmem
  rw [of_decide_eq_true hname] at hlength hindex
  exact hkey.elim hlength (absurd hindex)

theorem stringMethod_names : ∀ method ∈ StringMethod.all,
    method.name ≠ "length" ∧ indexOfKey? method.name = none := by
  decide

theorem arrayMethod_names : ∀ method ∈ ArrayMethod.all,
    method.name ≠ "length" ∧ indexOfKey? method.name = none := by
  decide

/-- **Reading a property finds what is stored or makes a function.** Only `undefined` and `null`
have no properties. -/
theorem property_eq_reading {target : Value} (h : target.isNullish = false) (key : String)
    (start : Machine) : Eval.property target key start = Eval.reading target key start := by
  unfold Eval.property Eval.reading
  cases target with
  | undefined | null => cases h
  | bool b => rfl
  | number x => exact method?_apply _ _ _ _ _
  | string s =>
    dsimp only [Heap.made?, Heap.stored]
    by_cases hlength : key = "length"
    · rw [if_pos hlength, if_pos hlength, find?_eq_none stringMethod_names (.inl hlength)]
      rfl
    rw [if_neg hlength, if_neg hlength]
    cases hindex : indexOfKey? key with
    | some index =>
      rw [find?_eq_none stringMethod_names (.inr (hindex ▸ nofun))]
      rfl
    | none => exact method?_apply _ _ _ _ _
  | array ref =>
    dsimp only [Heap.made?, Heap.stored]
    by_cases hlength : key = "length"
    · rw [if_pos hlength, if_pos hlength, find?_eq_none arrayMethod_names (.inl hlength)]
      rfl
    rw [if_neg hlength, if_neg hlength]
    cases hindex : indexOfKey? key with
    | some index =>
      rw [find?_eq_none arrayMethod_names (.inr (hindex ▸ nofun))]
      rfl
    | none => exact method?_apply _ _ _ _ _
  | object ref => rfl
  | error ref => exact congrFun (property_error ref key) start
  | promise ref => exact method?_apply _ _ _ _ _
  | callable ref =>
    dsimp only [Heap.made?, Heap.stored]
    rw [Eval.bind_apply, Eval.read, Eval.ofHeap]
    dsimp only
    cases hcell : start.heap.get ref with
    | closure made =>
      dsimp only
      split
      · rfl
      split <;> rfl
    | builtin function =>
      dsimp only
      by_cases hname : key = "name"
      · subst hname
        rw [if_pos rfl, if_pos rfl]
        cases function <;> rfl
      rw [if_neg hname, if_neg hname]
      cases function.member? key <;> rfl

theorem isNullish_eq_false_of_read {target value : Value} {key : String} {start last : Machine}
    (h : Eval.property target key start = (.ok value, last)) : target.isNullish = false := by
  have hfails (nothing : Value) : (Eval.text nothing >>= fun shown =>
      Eval.fail (.readOfNothing shown key) : Eval Value) start ≠ (.ok value, last) := by
    rw [Eval.bind_apply, Eval.text, Eval.ofHeap?_apply]
    intro hread
    cases htext : start.heap.text? nothing <;> rw [htext] at hread <;> cases hread
  cases target with
  | undefined | null => exact absurd h (hfails _)
  | _ => rfl

section

variable {target value : Value} {key : String} {start last : Machine}
  (h : Eval.property target key start = (.ok value, last))
include h

theorem made_of_read {function : Builtin} (hmade : start.heap.made? target key = some function) :
    Eval.newCallable (.builtin function) start = (.ok value, last) := by
  rwa [property_eq_reading (isNullish_eq_false_of_read h), Eval.reading, hmade] at h

/-- What was stored was read without a change. -/
theorem stored_of_read (hmade : start.heap.made? target key = none) :
    value = start.heap.stored target key ∧ last = start := by
  rw [property_eq_reading (isNullish_eq_false_of_read h), Eval.reading, hmade] at h
  cases h
  exact ⟨rfl, rfl⟩

end

/-! ### Reading twice -/

theorem deepEquals_self (heap : Heap) (value : Value) : heap.deepEquals value value = true := by
  rw [deepEquals_iff_alike, Heap.alike_iff]
  exact ⟨[], parts?_self value, List.forall_mem_nil _⟩

/-- A function is deeply equal to itself only. -/
theorem deepEquals_callable_iff {heap : Heap} {x : Ref .callable} {other : Value} :
    heap.deepEquals (.callable x) other = true ↔ other = .callable x := by
  constructor
  · intro hequal
    have hmatch : ¬ heap.Mismatch (.callable x) other := by
      obtain ⟨parts, hparts, -⟩ := Heap.alike_iff.mp (deepEquals_iff_alike.mp hequal)
      rw [← parts?_eq_none_iff, hparts]
      exact Option.some_ne_none parts
    cases other with
    | callable y =>
      by_contra hne
      exact hmatch (.functions fun heq => hne (congrArg Value.callable heq.symm))
    | _ => exact absurd (.kinds nofun) hmatch
  · rintro rfl
    exact deepEquals_self heap _

/-- How two values have to do with each other that were read one after the other. -/
structure ReadTwice (start : Machine) (target : Value) (key : String) (first second : Value)
    (last : Machine) : Prop where
  equal_iff : last.heap.deepEquals first second = true ↔ start.heap.made? target key = none
  /-- What is stored is read as it is, and reading it changes nothing. -/
  stored : start.heap.made? target key = none → second = first ∧ last = start
  /-- What is made are two functions that do the same. -/
  made : ∀ function, start.heap.made? target key = some function →
    ∃ x y, first = .callable x ∧ second = .callable y ∧ x ≠ y ∧
      last.heap.get x = .builtin function ∧ last.heap.get y = .builtin function

/-- Cells of a heap are read in a later one as they were. -/
theorem Heap.Extends.made?_eq {base later : Heap} (h : base.Extends later) {target : Value}
    (htarget : target.Of (fun _ => False) base) (key : String) :
    later.made? target key = base.made? target key := by
  cases target with
  | callable ref =>
    dsimp only [made?]
    rw [h.get_eq ref htarget.1]
  | _ => rfl

theorem Heap.Extends.stored_eq {base later : Heap} (h : base.Extends later) {target : Value}
    (htarget : target.Of (fun _ => False) base) (key : String) :
    later.stored target key = base.stored target key := by
  cases target with
  | array ref | object ref | error ref | callable ref =>
    dsimp only [stored]
    rw [h.get_eq ref htarget.1]
  | _ => rfl

/-- **Of two readings, one after the other, the second gives what is deeply equal to what the first
gave, unless they make functions.** -/
theorem property_twice {start middle : Machine} {target first : Value} {key : String}
    (htarget : target.Of (fun _ => False) start.heap)
    (hread : Eval.property target key start = (.ok first, middle)) :
    ∃ second last, Eval.property target key middle = (.ok second, last) ∧
      ReadTwice start target key first second last := by
  cases hmade : start.heap.made? target key with
  | none =>
    obtain ⟨-, rfl⟩ := stored_of_read hread hmade
    refine ⟨first, middle, hread, ?_, fun _ => ⟨rfl, rfl⟩, fun _ h => nomatch hmade.symm.trans h⟩
    exact iff_of_true (deepEquals_self middle.heap first) hmade
  | some function =>
    have hnullish := isNullish_eq_false_of_read hread
    cases made_of_read hread hmade
    let cell : Cell .callable := Callable.builtin function
    let made := (start.heap.alloc .callable cell).2
    have hagain : made.made? target key = some function :=
      ((start.heap.extends_alloc cell).made?_eq htarget key).trans hmade
    have hcount : made.count .callable = start.heap.count .callable + 1 := by
      rw [Heap.count_alloc, if_pos rfl]
    let x : Ref .callable := ⟨start.heap.count .callable⟩
    let y : Ref .callable := ⟨made.count .callable⟩
    have hindex : start.heap.count .callable ≠ made.count .callable := by omega
    have hne : x ≠ y := fun heq => hindex (congrArg Ref.index heq)
    have hfirst : (made.alloc .callable cell).2.get x = Callable.builtin function := by
      rw [Heap.get_alloc, if_neg hindex, Heap.get_alloc, if_pos rfl]
    have hsecond : (made.alloc .callable cell).2.get y = Callable.builtin function := by
      rw [Heap.get_alloc, if_pos rfl]
    refine ⟨.callable y, ⟨(made.alloc .callable cell).2, start.depth⟩, ?_, ?_, ?_, ?_⟩
    · have hsecondRead : Eval.property target key ⟨made, start.depth⟩ =
          Eval.newCallable (.builtin function) ⟨made, start.depth⟩ := by
        rw [property_eq_reading hnullish, Eval.reading, hagain]
      exact hsecondRead
    · refine iff_of_false (fun hequal => hne ?_) (hmade ▸ nofun)
      exact (Value.callable.inj (deepEquals_callable_iff.mp hequal)).symm
    · exact fun h => nomatch hmade.symm.trans h
    · intro other hother
      cases hmade.symm.trans hother
      exact ⟨x, y, rfl, rfl, hne, hfirst, hsecond⟩

/-! ### Values that are read again -/

/-- A heap to which functions at most were added. -/
structure Heap.AddsFunctions (heap later : Heap) : Prop where
  extended : heap.Extends later
  count_eq : ∀ kind : CellKind, kind ≠ .callable → later.count kind = heap.count kind

/-- Two values that are read on heaps which have come from one: it is a value of that heap, or both
are built-in functions that were made to do the same. -/
inductive Heap.Rereads (base first second : Heap) : Value → Value → Prop
  | stored {value : Value} (h : value.Of (fun _ => False) base) :
    Rereads base first second value value
  | made {x y : Ref .callable} {function : Builtin} (hx : x.index < first.count .callable)
    (hfirst : first.get x = .builtin function) (hy : y.index < second.count .callable)
    (hsecond : second.get y = .builtin function) :
    Rereads base first second (.callable x) (.callable y)

namespace Heap.AddsFunctions

variable {heap later last : Heap}

theorem refl (heap : Heap) : heap.AddsFunctions heap :=
  ⟨.refl heap, fun _ _ => rfl⟩

theorem trans (h : heap.AddsFunctions later) (hlater : later.AddsFunctions last) :
    heap.AddsFunctions last :=
  ⟨h.extended.trans hlater.extended,
    fun kind hkind => (hlater.count_eq kind hkind).trans (h.count_eq kind hkind)⟩

theorem alloc (heap : Heap) (callable : Callable) :
    heap.AddsFunctions (heap.alloc .callable callable).2 where
  extended := heap.extends_alloc _
  count_eq kind hkind := by rw [Heap.count_alloc, if_neg hkind, Nat.add_zero]

theorem mapM_eq_mapM {α β : Type} {f g : α → Option β} {as : List α}
    (h : ∀ a ∈ as, f a = g a) : as.mapM f = as.mapM g := by
  induction as with
  | nil => rfl
  | cons a rest ih =>
    obtain ⟨ha, hrest⟩ := List.forall_mem_cons.mp h
    rw [List.mapM_cons, List.mapM_cons, ha, ih hrest]

/-- A value of the heap has the text that it had. -/
theorem text?_eq (h : heap.AddsFunctions later) (hclosed : heap.Closed fun _ => False)
    {value : Value} (hvalue : value.Of (fun _ => False) heap) :
    later.text? value = heap.text? value := by
  have hwithin (levels : Nat) : textWithin later levels value = textWithin heap levels value := by
    have hplain {value : Value} (hvalue : value.Of (fun _ => False) heap) :
        later.plainText value = heap.plainText value := by
      cases value with
      | error ref | callable ref =>
        rw [plainText, plainText, h.extended.get_eq ref hvalue.1]
      | _ => rfl
    induction levels generalizing value with
    | zero =>
      cases value with
      | array ref => rfl
      | _ => exact congrArg some (hplain hvalue)
    | succ levels ih =>
      cases value with
      | array ref =>
        have hitems : ∀ item ∈ (heap.get ref : Array Value).toList,
            (if item.isNullish then some "" else textWithin later levels item) =
              if item.isNullish then some "" else textWithin heap levels item := by
          intro item hmem
          rw [ih (hclosed.within ref id item (Array.mem_toList_iff.mp hmem))]
        rw [textWithin, textWithin, h.extended.get_eq ref hvalue.1, mapM_eq_mapM hitems]
      | _ => exact congrArg some (hplain hvalue)
  rw [text?, text?, h.count_eq .array (by decide), hwithin]

end Heap.AddsFunctions

namespace Heap.Rereads

variable {base first second : Heap} {a b : Value} {key : String}

theorem later {first' second' : Heap} (h : base.Rereads first second a b)
    (hfirst : first.Extends first') (hsecond : second.Extends second') :
    base.Rereads first' second' a b := by
  cases h with
  | stored hvalue => exact .stored hvalue
  | made hx hgetx hy hgety =>
    exact .made (Nat.lt_of_lt_of_le hx (hfirst.grows _)) ((hfirst.get_eq _ hx).trans hgetx)
      (Nat.lt_of_lt_of_le hy (hsecond.grows _)) ((hsecond.get_eq _ hy).trans hgety)

/-- Functions that are made next on both heaps. -/
theorem alloc (base first second : Heap) (function : Builtin) :
    base.Rereads (first.alloc .callable (Callable.builtin function)).2
      (second.alloc .callable (Callable.builtin function)).2
      (.callable ⟨first.count .callable⟩) (.callable ⟨second.count .callable⟩) := by
  have hlt (heap : Heap) : heap.count .callable <
      (heap.alloc .callable (Callable.builtin function)).2.count .callable := by
    rw [Heap.count_alloc, if_pos rfl]
    exact Nat.lt_succ_self _
  have hget (heap : Heap) : (heap.alloc .callable (Callable.builtin function)).2.get
      (⟨heap.count .callable⟩ : Ref .callable) = Callable.builtin function := by
    rw [Heap.get_alloc, if_pos rfl]
  exact .made (hlt first) (hget first) (hlt second) (hget second)

section

variable (h : base.Rereads first second a b) (hfirst : base.AddsFunctions first)
  (hsecond : base.AddsFunctions second)
include h

theorem isNullish_eq : a.isNullish = b.isNullish := by
  cases h <;> rfl

include hfirst hsecond

theorem text?_eq (hclosed : base.Closed fun _ => False) : first.text? a = second.text? b := by
  cases h with
  | stored hvalue => rw [hfirst.text?_eq hclosed hvalue, hsecond.text?_eq hclosed hvalue]
  | @made x y function hx hgetx hy hgety =>
    have harray (z : Ref .callable) (ref : Ref .array) : Value.callable z ≠ .array ref := nofun
    rw [Heap.text?_of_not_array (harray x), Heap.text?_of_not_array (harray y), Heap.plainText,
      Heap.plainText, hgetx, hgety]

theorem made?_eq : first.made? a key = second.made? b key := by
  cases h with
  | stored hvalue =>
    rw [hfirst.extended.made?_eq hvalue, hsecond.extended.made?_eq hvalue]
  | made hx hgetx hy hgety => rw [Heap.made?, Heap.made?, hgetx, hgety]

/-- What is stored is found again, and it is a value that there was. -/
theorem stored_eq (hclosed : base.Closed fun _ => False) (hnullish : a.isNullish = false)
    (hmade : first.made? a key = none) :
    first.stored a key = second.stored b key ∧ (first.stored a key).Of (fun _ => False) base := by
  cases h with
  | stored hvalue =>
    rw [hfirst.extended.stored_eq hvalue, hsecond.extended.stored_eq hvalue]
    rw [hfirst.extended.made?_eq hvalue] at hmade
    have hgives : Eval.GivesValue (fun _ => False) False base (Eval.property _ key) :=
      Eval.property_gives hvalue key
    have hkept := hgives ⟨base, 0⟩ (.refl _) hclosed
    rw [property_eq_reading hnullish, Eval.reading, hmade] at hkept
    exact ⟨rfl, hkept.found⟩
  | made hx hgetx hy hgety =>
    rw [Heap.stored, Heap.stored, hgetx, hgety]
    refine ⟨rfl, ?_⟩
    dsimp only
    split <;> trivial

end

end Heap.Rereads

/-- A property of values that were read again is read again itself. -/
theorem property_rereads {base : Heap} (hclosed : base.Closed fun _ => False)
    {start later middle : Machine} {a b value : Value} {key : String}
    (hstart : base.AddsFunctions start.heap) (hlater : base.AddsFunctions later.heap)
    (h : base.Rereads start.heap later.heap a b)
    (hread : Eval.property a key start = (.ok value, middle)) :
    ∃ again last, Eval.property b key later = (.ok again, last) ∧
      start.heap.AddsFunctions middle.heap ∧ later.heap.AddsFunctions last.heap ∧
      base.Rereads middle.heap last.heap value again ∧
      (start.heap.made? a key = none → again = value ∧ middle = start ∧ last = later) := by
  have hnullish := isNullish_eq_false_of_read hread
  have hmade : start.heap.made? a key = later.heap.made? b key := h.made?_eq hstart hlater
  rw [property_eq_reading (h.isNullish_eq ▸ hnullish), Eval.reading, ← hmade]
  cases hfunction : start.heap.made? a key with
  | none =>
    obtain ⟨rfl, rfl⟩ := stored_of_read hread hfunction
    obtain ⟨hsame, hof⟩ := h.stored_eq hstart hlater hclosed hnullish hfunction
    exact ⟨_, later, by rw [hsame], .refl _, .refl _, .stored hof, fun _ => ⟨rfl, rfl, rfl⟩⟩
  | some function =>
    cases made_of_read hread hfunction
    exact ⟨_, _, rfl, .alloc _ _, .alloc _ _, .alloc base start.heap later.heap function, nofun⟩

/-- A name has the value that it had. -/
theorem Heap.Extends.get?_eq {base later : Heap} (h : base.Extends later) {scope : Scope}
    (hscope : scope.Of (fun _ => False) base) (name : String) :
    scope.get? later name = scope.get? base name := by
  refine congrArg (Option.map fun found => found.2.value) (Heap.binder?_congr fun frame hmem => ?_)
  rw [h.get_eq frame (hscope frame hmem).1]

/-! ### Expressions that read -/

/-- Whether an expression is made of names, literals and property accesses only. -/
def Expr.isRead : Expr → Bool
  | .number .. | .string .. | .bool .. | .null .. | .undefined .. | .ident .. => true
  | .member target _ _ => target.isRead
  | .index target key _ => target.isRead && key.isRead
  | _ => false

/-- The expressions that are evaluated for a property access. -/
def Expr.accessed : Expr → List Expr
  | .member target _ _ => [target]
  | .index target key _ => [target, key]
  | _ => []

/-- A property access comes to the reading of a property. -/
inductive Expr.ReadsAt (invoke : Invoke) (scope : Scope) (start : Machine) :
    Expr → Value → String → Machine → Prop
  | member {target : Expr} {value : Value} {key : String} {span : Span} {before : Machine}
    (htarget : evalExpr invoke scope target start = (.ok value, before)) :
    ReadsAt invoke scope start (.member target key span) value key before
  | index {target key : Expr} {value name : Value} {text : String} {span : Span}
    {middle before : Machine} (htarget : evalExpr invoke scope target start = (.ok value, middle))
    (hkey : evalExpr invoke scope key middle = (.ok name, before))
    (htext : before.heap.text? name = some text) :
    ReadsAt invoke scope start (.index target key span) value text before

section

variable {invoke : Invoke} {scope : Scope} {start before last : Machine} {e : Expr}
  {target value : Value} {key : String}

theorem Expr.ReadsAt.evalExpr_eq (h : e.ReadsAt invoke scope start target key before) :
    evalExpr invoke scope e start = Eval.property target key before := by
  cases h with
  | member htarget => rw [evalExpr, Eval.bind_apply, htarget]
  | index htarget hkey htext =>
    rw [evalExpr, Eval.bind_apply, htarget]
    dsimp only
    rw [Eval.bind_apply, hkey]
    dsimp only
    rw [Eval.bind_apply, Eval.text, Eval.ofHeap?_apply, htext]

/-- A property access that gives a value has read a property. -/
theorem Expr.exists_readsAt (haccess : e.accessed ≠ [])
    (hread : evalExpr invoke scope e start = (.ok value, last)) :
    ∃ target key before, e.ReadsAt invoke scope start target key before ∧
      Eval.property target key before = (.ok value, last) := by
  cases e with
  | member target key span =>
    rw [evalExpr, Eval.bind_apply] at hread
    rcases htarget : evalExpr invoke scope target start with ⟨_ | a, before⟩ <;>
      rw [htarget] at hread
    · cases hread
    exact ⟨a, key, before, .member htarget, hread⟩
  | index target key span =>
    rw [evalExpr, Eval.bind_apply] at hread
    rcases htarget : evalExpr invoke scope target start with ⟨_ | a, middle⟩ <;>
      rw [htarget] at hread
    · cases hread
    dsimp only at hread
    rw [Eval.bind_apply] at hread
    rcases hkey : evalExpr invoke scope key middle with ⟨_ | name, before⟩ <;> rw [hkey] at hread
    · cases hread
    dsimp only at hread
    rw [Eval.bind_apply, Eval.text, Eval.ofHeap?_apply] at hread
    cases htext : before.heap.text? name with
    | none =>
      rw [htext] at hread
      cases hread
    | some text =>
      rw [htext] at hread
      exact ⟨a, text, before, .index htarget hkey htext, hread⟩
  | _ => exact absurd rfl haccess

end

/-- On all heaps that have come from one, an expression gives what it gives on any of them. -/
structure Heap.RereadsExpr (base : Heap) (invoke : Invoke) (scope : Scope) (e : Expr) : Prop where
  again : ∀ {start later middle : Machine} {value : Value}, base.AddsFunctions start.heap →
    base.AddsFunctions later.heap → evalExpr invoke scope e start = (.ok value, middle) →
      ∃ again last, evalExpr invoke scope e later = (.ok again, last) ∧
        start.heap.AddsFunctions middle.heap ∧ later.heap.AddsFunctions last.heap ∧
        base.Rereads middle.heap last.heap value again

section

variable {base : Heap} (hclosed : base.Closed fun _ => False) {invoke : Invoke} {scope : Scope}
include hclosed

/-- A property access comes again to the reading of the property that it read. -/
theorem Expr.ReadsAt.again {e : Expr}
    (hparts : ∀ part ∈ e.accessed, base.RereadsExpr invoke scope part)
    {start later before : Machine} {target : Value} {key : String}
    (hstart : base.AddsFunctions start.heap) (hlater : base.AddsFunctions later.heap)
    (h : e.ReadsAt invoke scope start target key before) :
    ∃ target' before', e.ReadsAt invoke scope later target' key before' ∧
      start.heap.AddsFunctions before.heap ∧ later.heap.AddsFunctions before'.heap ∧
      base.Rereads before.heap before'.heap target target' := by
  cases h with
  | member htarget =>
    have hpart := List.forall_mem_singleton.mp hparts
    obtain ⟨target', before', hagain, hadds, hadds', hrereads⟩ := hpart.again hstart hlater htarget
    exact ⟨target', before', .member hagain, hadds, hadds', hrereads⟩
  | index htarget hkey htext =>
    obtain ⟨hpart, hrest⟩ := List.forall_mem_cons.mp hparts
    have hpartKey := List.forall_mem_singleton.mp hrest
    obtain ⟨target', middle', hagain, hadds, hadds', hrereads⟩ := hpart.again hstart hlater htarget
    obtain ⟨name', before', hagainKey, hmore, hmore', hnames⟩ :=
      hpartKey.again (hstart.trans hadds) (hlater.trans hadds') hkey
    have hbefore := hadds.trans hmore
    have hbefore' := hadds'.trans hmore'
    have hsame := hnames.text?_eq (hstart.trans hbefore) (hlater.trans hbefore') hclosed
    exact ⟨target', before', .index hagain hagainKey (hsame ▸ htext), hbefore, hbefore',
      hrereads.later hmore.extended hmore'.extended⟩

theorem rereadsExpr_access {e : Expr} (haccess : e.accessed ≠ [])
    (hparts : ∀ part ∈ e.accessed, base.RereadsExpr invoke scope part) :
    base.RereadsExpr invoke scope e := by
  refine ⟨fun {start later middle value} hstart hlater hread => ?_⟩
  obtain ⟨target, key, before, hreads, hproperty⟩ := Expr.exists_readsAt haccess hread
  obtain ⟨target', before', hreads', hadds, hadds', htargets⟩ :=
    hreads.again hclosed hparts hstart hlater
  obtain ⟨again, last, hlast, hmore, hmore', hvalues, -⟩ :=
    property_rereads hclosed (hstart.trans hadds) (hlater.trans hadds') htargets hproperty
  exact ⟨again, last, hreads'.evalExpr_eq.trans hlast, hadds.trans hmore, hadds'.trans hmore',
    hvalues⟩

/-- **What is read by names, literals and properties is read again on a later heap.** -/
theorem rereadsExpr_of_isRead (hscope : scope.Of (fun _ => False) base) (e : Expr)
    (he : e.isRead = true) : base.RereadsExpr invoke scope e := by
  match e with
  | .number .. | .string .. | .bool .. | .null .. | .undefined .. =>
    refine ⟨fun {start later middle value} _ _ hread => ?_⟩
    rw [evalExpr] at hread
    cases hread
    exact ⟨_, later, by rw [evalExpr]; rfl, .refl _, .refl _, .stored trivial⟩
  | .ident name _ =>
    refine ⟨fun {start later middle value} hstart hlater hread => ?_⟩
    rw [evalExpr, Scope.value, Eval.bind_apply, Eval.ofHeap] at hread
    rw [evalExpr, Scope.value, Eval.bind_apply, Eval.ofHeap]
    dsimp only at hread ⊢
    rw [hstart.extended.get?_eq hscope] at hread
    rw [hlater.extended.get?_eq hscope]
    cases hfound : scope.get? base name <;> rw [hfound] at hread <;> cases hread
    exact ⟨_, later, rfl, .refl _, .refl _, .stored (Scope.get?_of hclosed hscope hfound)⟩
  | .member target _ _ =>
    have htarget := rereadsExpr_of_isRead hscope target he
    exact rereadsExpr_access hclosed (List.cons_ne_nil _ _) (List.forall_mem_singleton.mpr htarget)
  | .index target key _ =>
    obtain ⟨hetarget, hekey⟩ := Bool.and_eq_true_iff.mp he
    have htarget := rereadsExpr_of_isRead hscope target hetarget
    have hkey := rereadsExpr_of_isRead hscope key hekey
    exact rereadsExpr_access hclosed (List.cons_ne_nil _ _)
      (List.forall_mem_cons.mpr ⟨htarget, List.forall_mem_singleton.mpr hkey⟩)
termination_by structural e

end

end Doctest.Script
