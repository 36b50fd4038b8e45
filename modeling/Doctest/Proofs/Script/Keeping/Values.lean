import Doctest.Proofs.Script.Keeping.Steps
import Doctest.Script.Property
import Doctest.Script.Scope

/-!
# What reading and writing keeps

Making cells, reading and writing properties, and looking up and assigning names give values of the
heap when they are handed values of the heap.
-/

namespace Doctest.Script

variable {apart : Place → Prop} {returns : Prop} {base : Heap}

/-! ### Values out of containers -/

theorem Value.Of.later {value : Value} {heap : Heap} (h : value.Of apart base)
    (hgrows : base.Grows heap) : value.Of apart heap :=
  h.mono hgrows.has

theorem of_later (heap later : Heap) (value : Value) (hgrows : heap.Grows later)
    (h : value.Of apart heap) : value.Of apart later :=
  h.later hgrows

/-- Values of a heap in a list. -/
abbrev AllOf (apart : Place → Prop) (heap : Heap) (values : List Value) : Prop :=
  ∀ value ∈ values, value.Of apart heap

theorem AllOf.later {values : List Value} {heap : Heap} (h : AllOf apart base values)
    (hgrows : base.Grows heap) : AllOf apart heap values :=
  fun value hmem => (h value hmem).later hgrows

theorem AllOf.cons {value : Value} {values : List Value} (h : value.Of apart base)
    (hrest : AllOf apart base values) : AllOf apart base (value :: values) :=
  List.forall_mem_cons.mpr ⟨h, hrest⟩

theorem of_getD {value? : Option Value} (h : ∀ value ∈ value?, value.Of apart base) :
    (value?.getD .undefined).Of apart base := by
  cases value? with
  | none => trivial
  | some value => exact h value rfl

theorem AllOf.getElem? {values : List Value} (h : AllOf apart base values) (i : Nat) :
    ∀ value ∈ values[i]?, value.Of apart base :=
  fun value hmem => h value (List.mem_of_getElem? hmem)

theorem AllOf.getD {values : List Value} (h : AllOf apart base values) (i : Nat) :
    (values.getD i .undefined).Of apart base := by
  rw [List.getD_eq_getElem?_getD]
  exact of_getD (h.getElem? i)

/-- The functions that built-in functions hold as properties are bound to nothing. -/
theorem Builtin.within_of_member? {area : Place → Prop} {function member : Builtin} {key : String}
    (h : function.member? key = some member) : member.Within area := by
  unfold Builtin.member? at h
  split at h <;> cases h <;> trivial

/-- The items of an array with a new length are old ones or `undefined`. -/
theorem mem_resized {items : Array Value} {length : Nat} {item : Value}
    (h : item ∈ resized items length) : item ∈ items ∨ item = .undefined := by
  unfold resized at h
  split at h
  · rw [Array.take_eq_extract] at h
    obtain ⟨k, hk, rfl⟩ := Array.mem_extract_iff_getElem.mp h
    exact .inl (Array.getElem_mem _)
  · rcases Array.mem_append.mp h with h | h
    · exact .inl h
    · exact .inr (Array.eq_of_mem_replicate h)

namespace Eval

/-! ### Making cells -/

theorem newArray_gives {items : Array Value} (h : ∀ item ∈ items, item.Of apart base) :
    GivesValue apart returns base (newArray items) := by
  refine .bind (.alloc (fun _ => .alloc _ (by decide) trivial) fun _ hgrows item hmem => ?_) ?_
  · exact (h item hmem).later hgrows
  · exact fun _ _ _ href => .pure fun _ hlater => hlater.has _ href

theorem newObject_gives {properties : Dict Value} (h : properties.All (·.Of apart base)) :
    GivesValue apart returns base (newObject properties) := by
  refine .bind (.alloc (fun _ => .alloc _ (by decide) trivial) fun _ hgrows entry hmem => ?_) ?_
  · exact (h entry hmem).later hgrows
  · exact fun _ _ _ href => .pure fun _ hlater => hlater.has _ href

theorem newCallable_gives {callable : Callable} (h : callable.Within (base.Has apart)) :
    GivesValue apart returns base (newCallable callable) :=
  .bind
    (.alloc (fun _ => .alloc _ (by decide) trivial) fun _ hgrows =>
      Callable.Within.mono hgrows.has h)
    fun _ _ _ href => .pure fun _ hlater => hlater.has _ href

theorem newPromise_gives {state : PromiseState} (hmade : state.Made)
    (h : state.Within (base.Has apart)) : GivesValue apart returns base (newPromise state) :=
  .bind (.alloc (fun _ => .make hmade) fun _ hgrows => PromiseState.Within.mono hgrows.has h)
    fun _ _ _ href => .pure fun _ hlater => hlater.has _ href

theorem newError_gives (failure : Failure) : GivesValue apart returns base (newError failure) :=
  .bind (.alloc (fun _ => .alloc _ (by decide) (.inl rfl)) fun _ _ => Dict.all_empty)
    fun _ _ _ href => .pure fun _ hlater => hlater.has _ href

theorem fail_gives {α : Type} {result : Heap → α → Prop} (failure : Failure) :
    Gives apart returns base result (fail failure) :=
  .bind (newError_gives failure) fun _ _ _ h => .raise h

/-! ### Properties -/

theorem pure_runs {α : Type} (a : α) : Runs apart returns base (pure a) :=
  .pure fun _ _ => trivial

theorem map_runs {α β : Type} (f : α → β) {eval : Eval α} (h : Runs apart returns base eval) :
    Runs apart returns base (f <$> eval) :=
  .map h fun _ _ _ _ _ _ => trivial

theorem ofHeap_runs {α : Type} (f : Heap → α) : Runs apart returns base (ofHeap f) :=
  .ofHeap fun _ _ _ => trivial

theorem text_runs (value : Value) : Runs apart returns base (text value) :=
  .ofHeap? fun _ _ _ _ _ => trivial

theorem number_runs (value : Value) : Runs apart returns base (number value) :=
  .ofHeap? fun _ _ _ _ _ => trivial

theorem inspect_runs (value : Value) : Runs apart returns base (inspect value) :=
  .ofHeap fun _ _ _ => trivial

theorem method?_gives {α : Type} (all : List α) (name : α → String) {bind : α → Builtin}
    (key : String) (h : ∀ method, (bind method).Within (base.Has apart)) :
    GivesValue apart returns base (method? all name bind key) := by
  unfold Eval.method?
  split
  · exact newCallable_gives (h _)
  · exact .pure fun _ _ => trivial

theorem property_gives {target : Value} (h : target.Of apart base) (key : String) :
    GivesValue apart returns base (property target key) := by
  cases target with
  | undefined | null => exact .bind (text_runs _) fun _ _ _ _ => fail_gives _
  | bool b => exact .pure fun _ _ => trivial
  | number x => exact method?_gives _ _ _ fun _ => trivial
  | string s =>
    dsimp only [Eval.property]
    split
    · exact .pure fun _ _ => trivial
    split
    · exact .pure fun _ _ => of_getD fun value hmem => by
        obtain ⟨c, -, rfl⟩ := Option.map_eq_some_iff.mp hmem
        trivial
    · exact method?_gives _ _ _ fun _ => trivial
  | array ref =>
    dsimp only [Eval.property]
    split
    · exact .bind (.read h.2) fun _ _ _ _ => .pure fun _ _ => trivial
    split
    case h_1 index _ =>
      refine .bind (.read h.2) fun heap items _ hitems => .pure fun later hlater => ?_
      rw [Array.getD_eq_getD_getElem?]
      exact of_getD fun value hmem => (hitems value (Array.mem_of_getElem? hmem)).mono hlater.has
    · exact method?_gives _ _ _ fun _ => h
  | object ref =>
    exact .bind (.read h.2) fun heap properties _ hproperties => .pure fun later hlater =>
      of_getD fun value hmem => (Dict.All.get? hproperties hmem).mono hlater.has
  | error ref =>
    dsimp only [Eval.property]
    refine .bind (.read h.2) fun heap error _ herror => ?_
    split
    · exact .pure fun _ _ => trivial
    split
    · exact .pure fun _ _ => trivial
    · exact .pure fun later hlater =>
        of_getD fun value hmem => (Dict.All.get? herror hmem).mono hlater.has
  | promise ref => exact method?_gives _ _ _ fun _ => h
  | callable ref =>
    dsimp only [Eval.property]
    refine .bind (.read h.2) fun heap callable _ hcallable => ?_
    split
    · exact .pure fun _ _ => trivial
    cases callable with
    | closure made => exact .pure fun _ _ => by split <;> trivial
    | builtin function =>
      dsimp only
      split
      case h_1 member hmember =>
        exact newCallable_gives (Builtin.within_of_member? hmember)
      · exact .pure fun _ _ => trivial

theorem setLength_runs {ref : Ref .array} (href : ¬ apart ref.place) (length : Float) :
    Runs apart returns base (setLength ref length) := by
  unfold setLength
  split
  · refine .change (fun _ => .modify _ _ (by decide) trivial) href
      fun heap items _ hitems item hmem => ?_
    rcases mem_resized hmem with hmem | rfl
    · exact hitems item hmem
    · trivial
  · exact fail_gives _

theorem setItem_runs {ref : Ref .array} (href : ¬ apart ref.place) (index : Nat) {value : Value}
    (hvalue : value.Of apart base) : Runs apart returns base (setItem ref index value) := by
  unfold setItem
  refine .bind (.read href) fun heap items hgrows _ => ?_
  have hvalue := hvalue.later hgrows
  split
  · refine .change (fun _ => .modify _ _ (by decide) trivial) href
      fun heap items hgrows hitems item hmem => ?_
    rcases Array.mem_or_eq_of_mem_setIfInBounds hmem with hmem | rfl
    · exact hitems item hmem
    · exact hvalue.later hgrows
  split
  · refine .change (fun _ => .modify _ _ (by decide) trivial) href
      fun heap items hgrows hitems item hmem => ?_
    rcases Array.mem_push.mp hmem with hmem | rfl
    · rcases mem_resized hmem with hmem | rfl
      · exact hitems item hmem
      · trivial
    · exact hvalue.later hgrows
  · exact fail_gives _

theorem setProperty_runs {target value : Value} (htarget : target.Of apart base) (key : String)
    (hvalue : value.Of apart base) : Runs apart returns base (setProperty target key value) := by
  cases target with
  | undefined | null => exact .bind (text_runs _) fun _ _ _ _ => fail_gives _
  | bool | number | string | callable | promise => exact .pure fun _ _ => trivial
  | object ref =>
    have hchanged :
        Cell.Changed fun properties : Cell .object => Dict.insert properties key value :=
      fun _ _ => Dict.contains_insert value
    exact .change (fun _ => .modify _ _ (by decide) hchanged) htarget.2
      fun heap properties hgrows h => Dict.All.insert h key (hvalue.later hgrows)
  | array ref =>
    dsimp only [Eval.setProperty]
    split
    · exact .seq (number_runs _) fun _ => setLength_runs htarget.2 _
    split
    · exact setItem_runs htarget.2 _ hvalue
    · exact .pure fun _ _ => trivial
  | error ref =>
    dsimp only [Eval.setProperty]
    split
    · exact .seq (text_runs _) fun _ =>
        .change (fun _ => .modify _ _ (by decide) fun _ _ _ => rfl) htarget.2 fun _ _ _ h => h
    split
    · exact .seq (text_runs _) fun _ =>
        .change (fun _ => .modify _ _ (by decide) fun _ _ _ => rfl) htarget.2 fun _ _ _ h => h
    · next hname hmessage =>
      refine .change (fun _ => .modify _ _ (by decide) fun error field hfield => ?_) htarget.2
        fun heap error hgrows h => Dict.All.insert h key (hvalue.later hgrows)
      apply Dict.get?_insert_of_ne
      rintro rfl
      exact hfield.elim hname hmessage

end Eval

/-! ### Scopes -/

/-- A scope of which all frames are cells of a heap that are not apart. -/
def Scope.Of (apart : Place → Prop) (heap : Heap) (scope : Scope) : Prop :=
  scope.Within (heap.Has apart)

namespace Scope

variable {scope : Scope}

theorem Of.later {heap : Heap} (h : scope.Of apart base) (hgrows : base.Grows heap) :
    scope.Of apart heap :=
  Within.mono hgrows.has h

theorem Of.outermost (h : scope.Of apart base) : base.Has apart scope.outermost.place :=
  h _ (List.mem_append_right _ List.mem_cons_self)

theorem Of.innermost (h : scope.Of apart base) : base.Has apart scope.innermost.place := by
  unfold Scope.innermost
  cases hinner : scope.inner with
  | nil => exact h.outermost
  | cons frame rest =>
    refine h frame (List.mem_append_left _ ?_)
    rw [hinner]
    exact List.mem_cons_self

/-- A frame that binds a name is one of the frames, and what it binds the name to is a value of
the heap. -/
theorem binder?_of {heap : Heap} (hclosed : heap.Closed apart) {name : String}
    {frames : List (Ref .frame)} (h : ∀ frame ∈ frames, heap.Has apart frame.place)
    {frame : Ref .frame} {binding : Binding}
    (hfound : heap.binder? name frames = some (frame, binding)) :
    frame ∈ frames ∧ binding.value.Of apart heap := by
  induction frames with
  | nil => cases hfound
  | cons outer rest ih =>
    rw [Heap.binder?] at hfound
    split at hfound
    case h_1 found hget =>
      cases hfound
      exact ⟨List.mem_cons_self,
        Dict.All.get? (hclosed.within _ (h _ List.mem_cons_self).2) hget⟩
    case h_2 =>
      have hrest := ih (fun frame hmem => h frame (List.mem_cons_of_mem _ hmem)) hfound
      exact ⟨List.mem_cons_of_mem _ hrest.1, hrest.2⟩

theorem nested_gives (h : scope.Of apart base) :
    Eval.Gives apart returns base (fun heap inner => inner.Of apart heap) scope.nested := by
  refine .bind (.alloc (fun _ => .alloc _ (by decide) trivial) fun _ _ => Dict.all_empty)
    fun heap frame hgrows hframe => .pure fun later hlater inner hmem => ?_
  rcases List.mem_cons.mp hmem with rfl | hmem
  · exact hlater.has _ hframe
  · exact h.later (hgrows.trans hlater) inner hmem

theorem bind_runs {frame : Ref .frame} (hframe : ¬ apart frame.place) (name : String)
    {value : Value} (hvalue : value.Of apart base) (isMutable : Bool) :
    Eval.Runs apart returns base
      (Eval.change frame (Dict.insert · name ⟨value, isMutable⟩)) :=
  .change (fun _ => .modify _ _ (by decide) trivial) hframe fun _ _ hgrows hbindings =>
    Dict.All.insert hbindings name (hvalue.later hgrows)

theorem define_runs (h : scope.Of apart base) (name : String) {value : Value}
    (hvalue : value.Of apart base) (isMutable : Bool) :
    Eval.Runs apart returns base (scope.define name value isMutable) :=
  bind_runs h.innermost.2 name hvalue isMutable

/-- Looking up the frame that binds a name. -/
theorem ofHeap_binder?_gives (h : scope.Of apart base) (name : String) :
    Eval.Gives apart returns base (fun _ found => ∀ pair ∈ found, ¬ apart pair.1.place)
      (Eval.ofHeap (scope.binder? · name)) := by
  apply Eval.Keeps.ofHeap
  intro heap hgrows hclosed pair hfound
  have hscope := h.later hgrows
  have hframe := (binder?_of hclosed hscope hfound).1
  exact (hscope _ hframe).2

theorem assign_runs (h : scope.Of apart base) (name : String) {value : Value}
    (hvalue : value.Of apart base) : Eval.Runs apart returns base (scope.assign name value) := by
  refine (ofHeap_binder?_gives h name).bind fun heap found hgrows hfound => ?_
  split
  case h_1 frame binding =>
    split
    · exact bind_runs (hfound _ rfl) name (hvalue.later hgrows) true
    · exact Eval.fail_gives _
  case h_2 => exact bind_runs h.outermost.2 name (hvalue.later hgrows) true

theorem get?_of {heap : Heap} (hclosed : heap.Closed apart) (h : scope.Of apart heap)
    {name : String} {value : Value} (hfound : scope.get? heap name = some value) :
    value.Of apart heap := by
  obtain ⟨⟨frame, binding⟩, hbinder, rfl⟩ := Option.map_eq_some_iff.mp hfound
  exact (binder?_of hclosed h hbinder).2

/-- Looking up the value of a name. -/
theorem ofHeap_get?_gives (h : scope.Of apart base) (name : String) :
    Eval.Gives apart returns base (fun heap found => ∀ value ∈ found, value.Of apart heap)
      (Eval.ofHeap (scope.get? · name)) := by
  apply Eval.Keeps.ofHeap
  intro heap hgrows hclosed value hfound
  exact get?_of hclosed (h.later hgrows) hfound

theorem value_gives (h : scope.Of apart base) (name : String) :
    Eval.GivesValue apart returns base (scope.value name) := by
  refine (ofHeap_get?_gives h name).bind fun heap found _ hfound => ?_
  split
  · exact .pure fun later hlater => (hfound _ rfl).later hlater
  · exact Eval.fail_gives _

end Scope

end Doctest.Script
