import Doctest.Proofs.Script.Repeating.Shifts

/-!
# Evaluating an expression again

Expressions that neither call nor assign only add arrays and objects, and functions where a property
is a method. Where no function is added, the same expression gives the same again on a later heap.
-/

namespace Doctest.Script

mutual

/-- Whether an expression is made of literals, names, arrays, objects, property accesses and
operators only. -/
def Expr.isPure : Expr → Bool
  | .number .. | .string .. | .bool .. | .null .. | .undefined .. | .ident .. => true
  | .array items _ => allPure items
  | .object properties _ => allPureUnder properties
  | .member target _ _ => target.isPure
  | .index target key _ => target.isPure && key.isPure
  | .unary _ operand _ => operand.isPure
  | .binary _ left right _ => left.isPure && right.isPure
  | .logical _ left right _ => left.isPure && right.isPure
  | .conditional test yes no _ => test.isPure && (yes.isPure && no.isPure)
  | .call .. | .construct .. | .arrow .. | .assign .. => false

def Expr.allPure : List Expr → Bool
  | [] => true
  | e :: rest => e.isPure && allPure rest

def Expr.allPureUnder : List (String × Expr) → Bool
  | [] => true
  | (_, e) :: rest => e.isPure && allPureUnder rest

end

/-- The property of an error with a key. -/
def ErrorObject.property (error : ErrorObject) (key : String) : Value :=
  if key = "name" then .string error.name
  else if key = "message" then .string error.message
  else (error.properties.get? key).getD .undefined

theorem property_error (ref : Ref .error) (key : String) :
    Eval.property (.error ref) key = Eval.ofHeap fun heap => (heap.get ref).property key := by
  have hproperty (error : ErrorObject) :
      (if key = "name" then return .string error.name
        else if key = "message" then return .string error.message
        else return (error.properties.get? key).getD .undefined : Eval Value) =
        pure (error.property key) := by
    rw [ErrorObject.property]
    split
    · rfl
    split <;> rfl
  unfold Eval.property
  dsimp only
  simp only [hproperty]
  rfl

/-- It leaves all as it is, unless it gives a built-in function that it makes. -/
def Eval.IsReading (x : Eval Value) : Prop :=
  ∀ m last value, x m = (.ok value, last) →
    last = m ∨ ∃ function, Eval.newCallable (.builtin function) m = (.ok value, last)

namespace Eval.IsReading

theorem pure {value : Value} : IsReading (Pure.pure value) := by
  rintro m _ _ ⟨⟩
  exact .inl rfl

theorem fail {failure : Failure} : IsReading (Eval.fail failure) :=
  nofun

theorem newCallable {function : Builtin} : IsReading (Eval.newCallable (.builtin function)) :=
  fun _ _ _ hrun => .inr ⟨function, hrun⟩

theorem method? {ι : Type} {all : List ι} {name : ι → String} {bind : ι → Builtin} {key : String} :
    IsReading (Eval.method? all name bind key) := by
  unfold Eval.method?
  split
  · exact newCallable
  · exact .pure

theorem ofHeap {α : Type} {f : Heap → α} {g : α → Eval Value} (hg : ∀ a, IsReading (g a)) :
    IsReading (Eval.ofHeap f >>= g) :=
  fun m => hg (f m.heap) m

theorem ofHeap? {α : Type} {f : Heap → Option α} {g : α → Eval Value}
    (hg : ∀ a, IsReading (g a)) : IsReading (Eval.ofHeap? f >>= g) := by
  intro m last value hrun
  rw [Eval.bind_apply, Eval.ofHeap?_apply] at hrun
  cases hfound : f m.heap <;> rw [hfound] at hrun
  · cases hrun
  · exact hg _ m last value hrun

end Eval.IsReading

/-- The functions that a property can be without having been there before are the methods of the
value and what belongs to a built-in function: each is made as it is read. -/
theorem property_isReading (target : Value) (key : String) :
    (Eval.property target key).IsReading := by
  unfold Eval.property
  cases target with
  | undefined | null => exact .ofHeap? fun _ => .fail
  | bool b => exact .pure
  | number x => exact .method?
  | string s =>
    dsimp only
    split
    · exact .pure
    split
    · exact .pure
    · exact .method?
  | array ref =>
    dsimp only
    split
    · exact .ofHeap fun _ => .pure
    split
    · exact .ofHeap fun _ => .pure
    · exact .method?
  | object ref => exact .ofHeap fun _ => .pure
  | error ref =>
    refine .ofHeap fun error => ?_
    split
    · exact .pure
    split <;> exact .pure
  | promise ref => exact .method?
  | callable ref =>
    refine .ofHeap fun callable => ?_
    split
    · exact .pure
    split
    · exact .pure
    split
    · exact .newCallable
    · exact .pure

namespace Shift

variable {α β γ δ : Type} {shift : Shift}

/-- What an evaluation gives without making a function, another one gives again on a later heap, as
the image of that. The first one takes no function away. -/
structure Repeats (shift : Shift) (image : α → γ) (x : Eval α) (y : Eval γ) : Prop where
  grows : ∀ {m last : Machine} {a : α}, x m = (.ok a, last) →
    m.heap.count .callable ≤ last.heap.count .callable
  again : ∀ {m n last : Machine} {a : α}, shift.Twins m.heap n.heap → x m = (.ok a, last) →
    last.heap.count .callable = m.heap.count .callable →
      ∃ other, y n = (.ok (image a), other) ∧ shift.Twins last.heap other.heap

namespace Repeats

variable {image : α → γ} {more : β → δ}

theorem pure {a : α} {c : γ} (h : c = image a) :
    shift.Repeats image (Pure.pure a) (Pure.pure c) where
  grows := by
    rintro m _ _ ⟨⟩
    exact Nat.le_refl _
  again := by
    rintro m n _ _ htwins ⟨⟩ -
    exact ⟨n, by rw [h]; rfl, htwins⟩

/-- What never gives anything gives nothing that has to be given again. -/
theorem never {x : Eval α} {y : Eval γ} (h : ∀ m last a, x m ≠ (.ok a, last)) :
    shift.Repeats image x y where
  grows hrun := absurd hrun (h _ _ _)
  again _ hrun := absurd hrun (h _ _ _)

theorem fail {failure : Failure} {y : Eval γ} :
    shift.Repeats image (Eval.fail failure) y :=
  .never fun _ _ _ => nofun

theorem bind {x : Eval α} {y : Eval γ} {f : α → Eval β} {g : γ → Eval δ}
    (hx : shift.Repeats image x y) (hf : ∀ a, shift.Repeats more (f a) (g (image a))) :
    shift.Repeats more (x >>= f) (y >>= g) where
  grows {m last b} hrun := by
    rw [Eval.bind_apply] at hrun
    rcases hfirst : x m with ⟨_ | a, middle⟩ <;> rw [hfirst] at hrun
    · cases hrun
    · exact Nat.le_trans (hx.grows hfirst) ((hf a).grows hrun)
  again {m n last b} htwins hrun hcount := by
    rw [Eval.bind_apply] at hrun
    rcases hfirst : x m with ⟨_ | a, middle⟩ <;> rw [hfirst] at hrun
    · cases hrun
    -- no function is made by the whole, so none is made by either of the parts
    have hbefore := hx.grows hfirst
    have hbehind := (hf a).grows hrun
    obtain ⟨between, hagain, htwins⟩ := hx.again htwins hfirst (by omega)
    obtain ⟨other, hrest, htwins⟩ := (hf a).again htwins hrun (by omega)
    refine ⟨other, ?_, htwins⟩
    rw [Eval.bind_apply, hagain]
    exact hrest

theorem ofHeap {f : Heap → α} {g : Heap → γ}
    (h : ∀ heap other, shift.Twins heap other → g other = image (f heap)) :
    shift.Repeats image (Eval.ofHeap f) (Eval.ofHeap g) where
  grows := by
    rintro m _ _ ⟨⟩
    exact Nat.le_refl _
  again := by
    rintro m n _ _ htwins ⟨⟩ -
    exact ⟨n, by rw [← h _ _ htwins]; rfl, htwins⟩

theorem ofHeap? {f : Heap → Option α} {g : Heap → Option γ}
    (h : ∀ heap other, shift.Twins heap other → ∀ a, f heap = some a →
      g other = some (image a)) :
    shift.Repeats image (Eval.ofHeap? f) (Eval.ofHeap? g) where
  grows {m last a} hrun := by
    rw [Eval.ofHeap?_apply] at hrun
    split at hrun <;> cases hrun
    exact Nat.le_refl _
  again {m n last a} htwins hrun _ := by
    rw [Eval.ofHeap?_apply] at hrun
    cases hfound : f m.heap <;> rw [hfound] at hrun <;> cases hrun
    refine ⟨n, ?_, htwins⟩
    rw [Eval.ofHeap?_apply, h _ _ htwins _ hfound]

theorem read {kind : CellKind} (ref : Ref kind) (hkind : kind ≠ .array ∧ kind ≠ .object) :
    shift.Repeats id (Eval.read ref) (Eval.read ref) :=
  .ofHeap fun _ _ htwins => htwins.get_eq ref hkind

/-- A function that is made has to be made no second time. -/
theorem newCallable {image : Value → γ} {callable : Callable} {y : Eval γ} :
    shift.Repeats image (Eval.newCallable callable) y := by
  have hcount {m last : Machine} {a : Value} (hrun : Eval.newCallable callable m = (.ok a, last)) :
      last.heap.count .callable = m.heap.count .callable + 1 := by
    cases hrun
    exact Array.size_push _
  refine ⟨fun hrun => ?_, fun _ hrun heq => ?_⟩
  · have hmore := hcount hrun
    omega
  · have hmore := hcount hrun
    omega

/-- What is added to the first heap as the next cell of a kind is found again in the second one. -/
theorem alloc {kind : CellKind} {cell cell' : Cell kind}
    (h : ∀ heap other, shift.Twins heap other →
      shift.Twins (heap.alloc kind cell).2 (other.alloc kind cell').2) :
    shift.Repeats shift.ref (Eval.alloc kind cell) (Eval.alloc kind cell') where
  grows {m last a} hrun := by
    have hlast : (⟨(m.heap.alloc kind cell).2, m.depth⟩ : Machine) = last :=
      congrArg Prod.snd hrun
    rw [← hlast]
    exact m.heap.grows_alloc cell .callable
  again {m n last a} htwins hrun _ := by
    obtain ⟨hfound, hlast⟩ : Except.ok (m.heap.alloc kind cell).1 = Except.ok a ∧
        (⟨(m.heap.alloc kind cell).2, m.depth⟩ : Machine) = last := Prod.mk.inj hrun
    rw [← hlast, ← Except.ok.inj hfound, Heap.alloc_fst]
    refine ⟨⟨(n.heap.alloc kind cell').2, n.depth⟩, ?_, h _ _ htwins⟩
    have hindex := (htwins.ref_eq_iff (⟨m.heap.count kind⟩ : Ref kind)).mpr rfl
    have hsame : (n.heap.alloc kind cell').1 = shift.ref ⟨m.heap.count kind⟩ := by
      rw [Heap.alloc_fst, ← hindex]
    rw [← hsame]
    rfl

theorem newArray (items : Array Value) :
    shift.Repeats shift.value (Eval.newArray items) (Eval.newArray (items.map shift.value)) :=
  (alloc fun _ _ htwins => htwins.alloc_array items).bind fun _ => .pure rfl

theorem newObject (properties : Dict Value) :
    shift.Repeats shift.value (Eval.newObject properties)
      (Eval.newObject (properties.mapValues shift.value)) :=
  (alloc fun _ _ htwins => htwins.alloc_object properties).bind fun _ => .pure rfl

end Repeats

/-! ### Properties -/

theorem value_property {error : ErrorObject} {key : String}
    (h : error.properties.All (Value.Within (shift.base.Has fun _ => False))) :
    shift.value (error.property key) = error.property key := by
  unfold ErrorObject.property
  split
  · rfl
  split
  · rfl
  cases hget : error.properties.get? key with
  | none => rfl
  | some value => exact value_of_within (h.get? hget)

theorem text_repeats (value : Value) :
    shift.Repeats id (Eval.text value) (Eval.text (shift.value value)) :=
  .ofHeap? fun _ _ htwins _ htext => htwins.text? htext

theorem method?_repeats {ι : Type} (all : List ι) (name : ι → String) (bind bind' : ι → Builtin)
    (key : String) :
    shift.Repeats shift.value (Eval.method? all name bind key)
      (Eval.method? all name bind' key) := by
  unfold Eval.method?
  split
  · exact .newCallable
  · exact .pure rfl

theorem value_getD (value? : Option Value) :
    (value?.map shift.value).getD .undefined = shift.value (value?.getD .undefined) := by
  cases value? <;> rfl

/-- Reading a property only looks at the heap, unless it makes a function. -/
theorem property_repeats (target : Value) (key : String) :
    shift.Repeats shift.value (Eval.property target key)
      (Eval.property (shift.value target) key) := by
  cases target with
  | undefined | null => exact (text_repeats _).bind fun _ => .fail
  | bool b => exact .pure rfl
  | number x => exact method?_repeats _ _ _ _ _
  | string s =>
    change shift.Repeats shift.value (Eval.property (.string s) key) (Eval.property (.string s) key)
    unfold Eval.property
    dsimp only
    split
    · exact .pure rfl
    split
    · next index _ => exact .pure (by cases s.toList[index]? <;> rfl)
    · exact method?_repeats _ _ _ _ _
  | array ref =>
    have hread : shift.Repeats (Array.map shift.value) (Eval.read ref)
        (Eval.read (shift.ref ref)) := .ofHeap fun _ _ htwins => htwins.array ref
    change shift.Repeats shift.value (Eval.property (.array ref) key)
      (Eval.property (.array (shift.ref ref)) key)
    unfold Eval.property
    dsimp only
    split
    · exact hread.bind fun items => .pure (by rw [Array.size_map]; rfl)
    split
    · refine hread.bind fun items => .pure ?_
      rw [Array.getD_eq_getD_getElem?, Array.getElem?_map, value_getD,
        Array.getD_eq_getD_getElem?]
    · exact method?_repeats _ _ _ _ _
  | object ref =>
    have hread : shift.Repeats (Dict.mapValues shift.value) (Eval.read ref)
        (Eval.read (shift.ref ref)) := .ofHeap fun _ _ htwins => htwins.object ref
    refine hread.bind fun properties => .pure ?_
    rw [Dict.get?_mapValues, value_getD]
  | error ref =>
    change shift.Repeats shift.value (Eval.property (.error ref) key)
      (Eval.property (.error ref) key)
    rw [property_error]
    refine .ofHeap fun heap other htwins => ?_
    obtain ⟨hheap, hother⟩ := htwins.rest ref (by decide)
    have hvalues : Dict.All (Value.Within (shift.base.Has fun _ => False))
        (shift.base.get ref).properties := shift.closed.within ref id
    rw [hheap, hother, value_property hvalues]
  | promise ref => exact method?_repeats _ _ _ _ _
  | callable ref =>
    refine (Repeats.read ref (by decide)).bind fun callable => ?_
    dsimp only [id]
    split
    · exact .pure rfl
    cases callable with
    | closure made => exact .pure (by split <;> rfl)
    | builtin function =>
      dsimp only
      split
      · exact .newCallable
      · exact .pure rfl

/-! ### Expressions -/

theorem settledBy_value (op : LogicalOp) (value : Value) :
    op.settledBy (shift.value value) = op.settledBy value := by
  cases op with
  | and | or => rw [LogicalOp.settledBy, LogicalOp.settledBy, isTruthy_value]
  | nullish => rw [LogicalOp.settledBy, LogicalOp.settledBy, isNullish_value]

variable {scope : Scope}

theorem get?_repeats (hscope : scope.Of (fun _ => False) shift.base) (name : String) :
    shift.Repeats (Option.map shift.value) (Eval.ofHeap (scope.get? · name))
      (Eval.ofHeap (scope.get? · name)) :=
  .ofHeap fun _ _ htwins => htwins.get? hscope name

theorem value_repeats (hscope : scope.Of (fun _ => False) shift.base) (name : String) :
    shift.Repeats shift.value (scope.value name) (scope.value name) := by
  refine (get?_repeats hscope name).bind fun value? => ?_
  cases value? with
  | none => exact .fail
  | some value => exact .pure rfl

mutual

/-- **An expression without calls and assignments gives the same again.** -/
theorem evalExpr_repeats (shift : Shift) (hscope : scope.Of (fun _ => False) shift.base)
    (invoke : Invoke) (e : Expr) (he : e.isPure = true) :
    shift.Repeats shift.value (evalExpr invoke scope e) (evalExpr invoke scope e) := by
  match e with
  | .number .. | .string .. | .bool .. | .null .. | .undefined .. =>
    rw [evalExpr]
    exact .pure rfl
  | .ident name _ =>
    rw [evalExpr]
    exact value_repeats hscope name
  | .array items _ =>
    rw [evalExpr]
    refine (evalExprs_repeats shift hscope invoke items he).bind fun values => ?_
    rw [← List.map_toArray]
    exact .newArray _
  | .object properties _ =>
    rw [evalExpr]
    refine (evalProperties_repeats shift hscope invoke properties he).bind fun pairs => ?_
    rw [← Dict.mapValues_ofList]
    exact .newObject _
  | .member target key _ =>
    rw [evalExpr]
    refine (evalExpr_repeats shift hscope invoke target he).bind fun value => ?_
    exact property_repeats value key
  | .index target key _ =>
    obtain ⟨htarget, hkey⟩ := Bool.and_eq_true_iff.mp he
    rw [evalExpr]
    refine (evalExpr_repeats shift hscope invoke target htarget).bind fun value => ?_
    refine (evalExpr_repeats shift hscope invoke key hkey).bind fun name => ?_
    exact (text_repeats name).bind fun text => property_repeats value text
  | .unary op operand _ =>
    have hoperand := evalExpr_repeats shift hscope invoke operand he
    by_cases hname : op = .typeof ∧ ∃ name span, operand = .ident name span
    · obtain ⟨rfl, name, span, rfl⟩ := hname
      rw [evalExpr]
      refine (get?_repeats hscope name).bind fun value? => .pure ?_
      cases value? with
      | none => rfl
      | some value => exact congrArg Value.string (typeName_value value)
    · rw [evalExpr]
      · refine hoperand.bind fun value => ?_
        exact .ofHeap? fun _ _ htwins _ hmade => htwins.operateUnary hmade
      · rintro name span rfl rfl
        exact hname ⟨rfl, name, span, rfl⟩
  | .binary op left right _ =>
    obtain ⟨hleft, hright⟩ := Bool.and_eq_true_iff.mp he
    rw [evalExpr]
    refine (evalExpr_repeats shift hscope invoke left hleft).bind fun a => ?_
    refine (evalExpr_repeats shift hscope invoke right hright).bind fun b => ?_
    exact .ofHeap? fun _ _ htwins _ hmade => htwins.operate hmade
  | .logical op left right _ =>
    obtain ⟨hleft, hright⟩ := Bool.and_eq_true_iff.mp he
    rw [evalExpr]
    refine (evalExpr_repeats shift hscope invoke left hleft).bind fun a => ?_
    rw [settledBy_value]
    split
    · exact .pure rfl
    · exact evalExpr_repeats shift hscope invoke right hright
  | .conditional test yes no _ =>
    obtain ⟨htest, hbranches⟩ := Bool.and_eq_true_iff.mp he
    obtain ⟨hyes, hno⟩ := Bool.and_eq_true_iff.mp hbranches
    rw [evalExpr]
    refine (evalExpr_repeats shift hscope invoke test htest).bind fun value => ?_
    rw [isTruthy_value]
    split
    · exact evalExpr_repeats shift hscope invoke yes hyes
    · exact evalExpr_repeats shift hscope invoke no hno
termination_by structural e

theorem evalExprs_repeats (shift : Shift) (hscope : scope.Of (fun _ => False) shift.base)
    (invoke : Invoke) (exprs : List Expr) (h : Expr.allPure exprs = true) :
    shift.Repeats (List.map shift.value) (evalExprs invoke scope exprs)
      (evalExprs invoke scope exprs) := by
  match exprs with
  | [] => exact .pure rfl
  | e :: rest =>
    obtain ⟨he, hrest⟩ := Bool.and_eq_true_iff.mp h
    rw [evalExprs]
    refine (evalExpr_repeats shift hscope invoke e he).bind fun value => ?_
    exact (evalExprs_repeats shift hscope invoke rest hrest).bind fun values => .pure rfl
termination_by structural exprs

theorem evalProperties_repeats (shift : Shift) (hscope : scope.Of (fun _ => False) shift.base)
    (invoke : Invoke) (properties : List (String × Expr))
    (h : Expr.allPureUnder properties = true) :
    shift.Repeats (List.map fun pair : String × Value => (pair.1, shift.value pair.2))
      (evalProperties invoke scope properties) (evalProperties invoke scope properties) := by
  match properties with
  | [] => exact .pure rfl
  | (key, e) :: rest =>
    obtain ⟨he, hrest⟩ := Bool.and_eq_true_iff.mp h
    rw [evalProperties]
    refine (evalExpr_repeats shift hscope invoke e he).bind fun value => ?_
    exact (evalProperties_repeats shift hscope invoke rest hrest).bind fun pairs => .pure rfl
termination_by structural properties

end

end Shift

end Doctest.Script
