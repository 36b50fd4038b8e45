import Doctest.Proofs.Script.Keeping.Values
import Doctest.Script.Library.Call
import Doctest.Script.Library.Globals

/-!
# What the library keeps

Every function of the library gives a value of the heap when it is called with values of the heap,
if the functions that it calls back do.
-/

namespace Doctest.Script

variable {apart : Place → Prop} {returns : Prop} {base : Heap}

/-- A way to call values that gives values of the heap and never returns. -/
def Invoke.Keeps (apart : Place → Prop) (invoke : Invoke) : Prop :=
  ∀ {base : Heap} {callee : Value} {args : List Value}, callee.Of apart base →
    AllOf apart base args → Eval.GivesValue apart False base (invoke callee args)

/-! ### JSON texts -/

mutual

theorem ofJson_gives (base : Heap) (json : Json) :
    Eval.GivesValue apart returns base (ofJson json) := by
  cases json with
  | null | bool | number | string => exact .pure fun _ _ => trivial
  | array items =>
    exact .bind (ofJsonItems_gives _ items) fun heap values _ hvalues =>
      Eval.newArray_gives fun value hmem => hvalues value (List.mem_toArray.mp hmem)
  | object members =>
    exact .bind (ofJsonMembers_gives _ members) fun heap pairs _ hpairs =>
      Eval.newObject_gives (Dict.all_ofList hpairs)

theorem ofJsonItems_gives (base : Heap) (items : List Json) :
    Eval.Gives apart returns base (fun heap values => AllOf apart heap values)
      (ofJsonItems items) := by
  cases items with
  | nil => exact .pure fun _ _ value hmem => by cases hmem
  | cons item rest =>
    refine .bind (ofJson_gives _ item) fun heap value _ hvalue => ?_
    refine .bind (ofJsonItems_gives _ rest) fun middle values hmiddle hvalues => ?_
    exact .pure fun later hlater =>
      .cons (hvalue.later (hmiddle.trans hlater)) (hvalues.later hlater)

theorem ofJsonMembers_gives (base : Heap) (members : List (String × Json)) :
    Eval.Gives apart returns base (fun heap pairs => ∀ pair ∈ pairs, pair.2.Of apart heap)
      (ofJsonMembers members) := by
  cases members with
  | nil => exact .pure fun _ _ pair hmem => by cases hmem
  | cons member rest =>
    refine .bind (ofJson_gives _ member.2) fun heap value _ hvalue => ?_
    refine .bind (ofJsonMembers_gives _ rest) fun middle pairs hmiddle hpairs => ?_
    refine .pure fun later hlater pair hmem => ?_
    rcases List.mem_cons.mp hmem with rfl | hmem
    · exact hvalue.later (hmiddle.trans hlater)
    · exact (hpairs pair hmem).later hlater

end

namespace Library

open Eval

theorem stringify_gives (value indent : Value) :
    GivesValue apart returns base (stringify value indent) := by
  refine .seq (ofHeap_runs _) fun json? => ?_
  split
  · exact .pure fun _ _ => trivial
  · exact .pure fun _ _ => trivial
  · exact fail_gives _
  · exact .exhausted

theorem parseJson_gives (value : Value) : GivesValue apart returns base (parseJson value) := by
  refine .seq (text_runs value) fun s => ?_
  split
  · exact ofJson_gives _ _
  · exact fail_gives _

/-! ### Numbers -/

theorem numberOr_runs (value? : Option Value) (default : Float) : Runs apart returns base
    (match value? with | some value => Eval.number value | none => Pure.pure default) := by
  cases value? with
  | some value => exact number_runs value
  | none => exact pure_runs _

theorem fixedText_gives (x receiver : Float) : GivesValue apart returns base
    (match decimalPlaces? x with
    | some places =>
      return .string ((Number.fixedText? places receiver).getD (Number.text receiver))
    | none => fail .decimalPlaces) := by
  split
  · exact .pure fun _ _ => trivial
  · exact fail_gives _

theorem callNumberMethod_gives (receiver : Float) (method : NumberMethod) (args : List Value) :
    GivesValue apart returns base (callNumberMethod receiver method args) := by
  cases method with
  | toString => exact .pure fun _ _ => trivial
  | toFixed =>
    dsimp only [callNumberMethod]
    split
    · exact .seq (number_runs _) fun x => fixedText_gives x receiver
    · exact .seq (pure_runs _) fun x => fixedText_gives x receiver

theorem extreme_runs (atLeastAsExtreme : Float → Float → Bool) (best : Float)
    (values : List Value) : Runs apart returns base (extreme atLeastAsExtreme best values) := by
  induction values generalizing best with
  | nil => exact .pure fun _ _ => trivial
  | cons value rest ih =>
    refine .seq (number_runs value) fun x => ?_
    split
    · exact .pure fun _ _ => trivial
    · exact ih _

theorem callMath_gives (function : MathFunction) (args : List Value) :
    GivesValue apart returns base (callMath function args) := by
  cases function with
  | max | min => exact .seq (extreme_runs _ _ args) fun _ => .pure fun _ _ => trivial
  | floor | ceil | round | trunc | abs | sqrt =>
    exact .seq (numberOr_runs _ _) fun _ => .pure fun _ _ => trivial
  | pow =>
    refine .seq (numberOr_runs _ _) fun exponent => ?_
    split
    · exact .pure fun _ _ => trivial
    · exact .seq (numberOr_runs _ _) fun _ => .pure fun _ _ => trivial

/-! ### Objects and errors -/

theorem all_indexed {items : List Value} (h : AllOf apart base items) :
    ∀ pair ∈ indexed items, pair.2.Of apart base := by
  intro pair hmem
  obtain ⟨⟨item, index⟩, hitem, rfl⟩ := List.mem_map.mp hmem
  exact h item (List.fst_mem_of_mem_zipIdx hitem)

theorem ownProperties_gives {target : Value} (h : target.Of apart base) :
    Gives apart returns base (fun heap pairs => ∀ pair ∈ pairs, pair.2.Of apart heap)
      (ownProperties target) := by
  cases target with
  | undefined | null => exact fail_gives _
  | bool | number | callable | promise => exact .pure fun _ _ pair hmem => by cases hmem
  | string s =>
    refine .pure fun heap _ => all_indexed fun value hmem => ?_
    obtain ⟨c, -, rfl⟩ := List.mem_map.mp hmem
    trivial
  | object ref =>
    exact .bind (.read h.2) fun heap properties _ hproperties => .pure fun later hlater pair hmem =>
      (hproperties pair hmem).mono hlater.has
  | array ref =>
    exact .bind (.read h.2) fun heap items _ hitems => .pure fun later hlater =>
      all_indexed fun value hmem => (hitems value (Array.mem_toList_iff.mp hmem)).mono hlater.has
  | error ref =>
    exact .bind (.read h.2) fun heap error _ herror => .pure fun later hlater pair hmem =>
      (herror pair hmem).mono hlater.has

theorem keys_gives {target : Value} (h : target.Of apart base) :
    GivesValue apart returns base (keys target) := by
  refine .bind (ownProperties_gives h) fun heap pairs _ _ => newArray_gives fun value hmem => ?_
  obtain ⟨pair, -, rfl⟩ := List.mem_map.mp (List.mem_toArray.mp hmem)
  trivial

theorem values_gives {target : Value} (h : target.Of apart base) :
    GivesValue apart returns base (values target) := by
  refine .bind (ownProperties_gives h) fun heap pairs _ hpairs =>
    newArray_gives fun value hmem => ?_
  obtain ⟨pair, hpair, rfl⟩ := List.mem_map.mp (List.mem_toArray.mp hmem)
  exact hpairs pair hpair

theorem entries_gives {target : Value} (h : target.Of apart base) :
    GivesValue apart returns base (entries target) := by
  refine .bind (ownProperties_gives h) fun heap pairs _ hpairs => ?_
  have hpair (pair : String × Value) (hmem : pair ∈ pairs) :
      GivesValue apart returns heap (newArray #[.string pair.1, pair.2]) := by
    apply newArray_gives
    intro value hvalue
    rcases List.mem_cons.mp (List.mem_toArray.mp hvalue) with rfl | hvalue
    · trivial
    · exact List.mem_singleton.mp hvalue ▸ hpairs pair hmem
  refine .bind (.mapM hpair of_later) fun _ arrays _ harrays => ?_
  exact newArray_gives fun value hmem => harrays value (List.mem_toArray.mp hmem)

theorem toObject_gives {value : Value} (h : value.Of apart base) :
    GivesValue apart returns base (toObject value) := by
  unfold toObject
  split
  · exact newObject_gives Dict.all_empty
  · exact .pure fun _ hgrows => h.later hgrows

theorem messageOf_runs (arg : Option Value) : Runs apart returns base (messageOf arg) := by
  unfold messageOf
  split
  · exact .pure fun _ _ => trivial
  · exact .pure fun _ _ => trivial
  · exact text_runs _

theorem optionsOf_gives {arg : Option Value} (h : ∀ value ∈ arg, value.Of apart base) :
    Gives apart returns base (fun heap properties => properties.All (·.Of apart heap))
      (optionsOf arg) := by
  unfold optionsOf
  split
  · exact .read (h _ rfl).2
  · exact .pure fun _ _ => Dict.all_empty

/-- The options are none, or the properties of an object. -/
theorem optionsOf_run {arg : Option Value} {start middle : Machine} {properties : Dict Value}
    (h : optionsOf arg start = (.ok properties, middle)) :
    middle = start ∧ (properties = Dict.empty ∨
      ∃ options : Ref .object, properties = start.heap.get options) := by
  unfold optionsOf at h
  split at h
  case h_1 options =>
    cases h
    exact ⟨rfl, .inr ⟨options, rfl⟩⟩
  case h_2 =>
    cases h
    exact ⟨rfl, .inl rfl⟩

theorem newErrorOf_gives (kind : ErrorKind) {args : List Value} (h : AllOf apart base args) :
    GivesValue apart returns base (newErrorOf kind args) := by
  refine .seq (messageOf_runs _) fun message => ?_
  -- The options have to be looked at in the heap in which they are read.
  intro start hbase hclosed
  apply Kept.bind (optionsOf_gives (h.getElem? 1) start hbase hclosed)
  intro properties middle hrun hkept
  let cell : Cell .error := ErrorObject.mk kind.name message properties
  have hcell : Cell.Within (middle.heap.Has apart) cell := hkept.found
  obtain ⟨rfl, hmade⟩ := optionsOf_run hrun
  apply Kept.bind (Kept.alloc hclosed (.alloc cell (by decide) hmade) hcell)
  intro ref last _ hlast
  exact .silent hlast.closed hlast.found

/-! ### Promises -/

/-- A value with which a promise is fulfilled or rejected. -/
def Outcome.Of (apart : Place → Prop) (heap : Heap) : Outcome → Prop
  | .ok value => value.Of apart heap
  | .error reason => reason.Of apart heap

theorem promiseOf_gives {value : Value} (h : value.Of apart base) :
    GivesValue apart returns base (promiseOf value) := by
  unfold promiseOf
  split
  · exact .pure fun _ hgrows => h.later hgrows
  · rename_i hne
    exact newPromise_gives (.fulfilled hne) h

theorem promiseOfAll_gives {items : Value} (h : items.Of apart base) :
    GivesValue apart returns base (promiseOfAll items) := by
  unfold promiseOfAll
  split
  · exact .bind (.read h.2) fun heap items _ hitems =>
      newPromise_gives (.all _) fun item hmem => hitems item (Array.mem_toList_iff.mp hmem)
  · exact .seq (inspect_runs _) fun shown => .bind (newError_gives _) fun _ _ _ herror =>
      newPromise_gives (.rejected _) herror

theorem resolvedState_gives (ref : Ref .promise) {outcome : Outcome}
    (h : Outcome.Of apart base outcome) :
    Gives apart returns base
      (fun heap state => state.Resolved ∧ state.Within (heap.Has apart))
      (resolvedState ref outcome) := by
  unfold resolvedState
  split
  case h_1 source =>
    split
    · exact .bind (newError_gives _) fun _ _ _ herror => .pure fun _ hlater =>
        ⟨.rejected _, herror.later hlater⟩
    · exact .pure fun _ hgrows => ⟨.adopt source, hgrows.has _ h⟩
  case h_2 hne =>
    cases outcome with
    | ok value =>
      exact .pure fun _ hgrows =>
        ⟨.fulfilled fun ref heq => hne ref (congrArg _ heq), Value.Of.later h hgrows⟩
    | error reason =>
      exact .pure fun _ hgrows => ⟨.rejected reason, Value.Of.later h hgrows⟩

/-- Finding out what a promise becomes changes no promise. -/
theorem get_resolvedState (ref found : Ref .promise) (outcome : Outcome) (start : Machine) :
    (resolvedState ref outcome start).2.heap.get found = start.heap.get found := by
  unfold resolvedState
  split
  · split
    · change (start.heap.alloc .error _).2.get found = _
      exact Heap.get_alloc_of_ne _ _ _ (by decide)
    · rfl
  · rfl

theorem resolve_runs {ref : Ref .promise} (href : base.Has apart ref.place) {outcome : Outcome}
    (h : Outcome.Of apart base outcome) : Runs apart returns base (resolve ref outcome) := by
  intro start hbase hclosed
  apply Kept.bind (Keeps.read href.2 start hbase hclosed)
  rintro state middle ⟨⟩ -
  dsimp only
  cases hstate : start.heap.get ref with
  | fulfilled | rejected => exact pure_runs _ start hbase hclosed
  | pending reaction =>
    cases reaction with
    | adopt | andThen | all | running => exact pure_runs _ start hbase hclosed
    | unresolved =>
      apply (resolvedState_gives ref h start hbase hclosed).bind
      intro state middle hrun hkept
      have hwaits := get_resolvedState ref ref outcome start
      rw [hrun, hstate] at hwaits
      exact .change hkept.closed (.resolve hwaits hkept.found.1) href.2 fun _ _ => hkept.found.2

theorem newPromiseBy_gives {invoke : Invoke} (hinvoke : invoke.Keeps apart) {args : List Value}
    (h : AllOf apart base args) : GivesValue apart False base (newPromiseBy invoke args) := by
  unfold newPromiseBy
  dsimp only
  split
  · refine .bind (.alloc (fun _ => .make .unresolved) fun _ _ => trivial)
      fun heap ref hgrows href => ?_
    refine .bind (newCallable_gives href) fun heap' resolver hheap' hresolver => ?_
    refine .bind (newCallable_gives (hheap'.has _ href)) fun last rejecter hlast hrejecter => ?_
    have hexecutor := (h.getD 0).later ((hgrows.trans hheap').trans hlast)
    have hargs : AllOf apart last [resolver, rejecter] :=
      .cons (hresolver.later hlast) (.cons hrejecter fun _ hmem => by cases hmem)
    refine .bind (hinvoke hexecutor hargs).outcome fun final outcome hfinal houtcome => ?_
    have href := (hheap'.trans (hlast.trans hfinal)).has _ href
    cases outcome with
    | ok value => exact .pure fun _ hlater => hlater.has _ href
    | error reason =>
      exact .bind (resolve_runs href houtcome) fun _ _ hlater _ => .pure fun _ hlater' =>
        (hlater.trans hlater').has _ href
  · exact .seq (inspect_runs _) fun _ => fail_gives _

theorem handler?_of {arg : Option Value} (h : ∀ value ∈ arg, value.Of apart base) :
    ∀ value ∈ handler? arg, value.Of apart base :=
  fun value hmem => h value ((Option.mem_filter_iff.mp hmem).1)

theorem callPromiseMethod_gives {ref : Ref .promise} (href : base.Has apart ref.place)
    (method : PromiseMethod) {args : List Value} (h : AllOf apart base args) :
    GivesValue apart returns base (callPromiseMethod ref method args) := by
  cases method with
  | andThen =>
    exact newPromise_gives (.andThen _ _ _)
      ⟨href, handler?_of (h.getElem? 0), handler?_of (h.getElem? 1)⟩
  | onRejected =>
    exact newPromise_gives (.andThen _ _ _)
      ⟨href, fun _ hmem => (by cases hmem), handler?_of (h.getElem? 0)⟩

/-! ### Arrays and strings -/

theorem position_runs (arg : Option Value) (length default : Nat) :
    Runs apart returns base (position arg length default) := by
  unfold position
  split
  · exact pure_runs _
  · exact pure_runs _
  · exact .seq (number_runs _) fun _ => pure_runs _

theorem itemText_runs (item : Value) : Runs apart returns base (itemText item) := by
  unfold itemText
  split
  · exact pure_runs _
  · exact text_runs _

theorem newArrayOf_gives {args : List Value} (h : AllOf apart base args) :
    GivesValue apart returns base (newArrayOf args) := by
  unfold newArrayOf
  split
  · split
    · exact newArray_gives fun value hmem => Array.eq_of_mem_replicate hmem ▸ trivial
    · exact fail_gives _
  · exact newArray_gives fun value hmem => h value (List.mem_toArray.mp hmem)

theorem spread_gives {arg : Value} (h : arg.Of apart base) :
    Gives apart returns base (fun heap items => ∀ item ∈ items, item.Of apart heap)
      (spread arg) := by
  unfold spread
  split
  · exact .read h.2
  · refine .pure fun heap hgrows item hmem => ?_
    rw [List.mem_singleton.mp (List.mem_toArray.mp hmem)]
    exact h.later hgrows

theorem callArrayMethod_gives {invoke : Invoke} (hinvoke : invoke.Keeps apart)
    {ref : Ref .array} (href : base.Has apart ref.place) (method : ArrayMethod)
    {args : List Value} (h : AllOf apart base args) :
    GivesValue apart False base (callArrayMethod invoke ref method args) := by
  have hsnapshot : Gives apart False base
      (fun heap entries => ∀ entry ∈ entries, entry.1.Of apart heap)
      (do return (← Eval.read ref).toList.zipIdx) :=
    .bind (.read href.2) fun _ _ _ hitems => .pure fun _ hlater entry hmem =>
      (hitems _ (Array.mem_toList_iff.mp (List.fst_mem_of_mem_zipIdx hmem))).mono hlater.has
  have hcall {heap : Heap} (hgrows : base.Grows heap) {item : Value} (hitem : item.Of apart heap)
      (index : Nat) :
      GivesValue apart False heap
        (invoke (args.getD 0 .undefined) [item, numberOfNat index, .array ref]) :=
    hinvoke ((h.getD 0).later hgrows)
      (.cons hitem (.cons trivial (.cons (hgrows.has _ href) fun _ hmem => by cases hmem)))
  have hholds {heap : Heap} (hgrows : base.Grows heap) {entries : List (Value × Nat)}
      (hentries : ∀ entry ∈ entries, entry.1.Of apart heap) (entry : Value × Nat)
      (hmem : entry ∈ entries) :
      Runs apart False heap (do
        return (← invoke (args.getD 0 .undefined)
          [entry.1, numberOfNat entry.2, .array ref]).isTruthy) :=
    .seq (hcall hgrows (hentries entry hmem) entry.2) fun _ => pure_runs _
  cases method with
  | push =>
    refine .seq (.change (fun _ => .modify _ _ (by decide) trivial) href.2
      fun heap items hgrows hitems item hmem => ?_) fun _ => ?_
    · rw [← Array.mem_toList_iff, Array.toList_appendList, List.mem_append] at hmem
      rcases hmem with hmem | hmem
      · exact hitems item (Array.mem_toList_iff.mp hmem)
      · exact (h item hmem).later hgrows
    · exact .seq (.read href.2) fun _ => .pure fun _ _ => trivial
  | pop =>
    refine .bind (.read href.2) fun heap items _ hitems => ?_
    refine .bind (.change (fun _ => .modify _ _ (by decide) trivial) href.2
      fun _ items _ hitems item hmem => ?_) fun later _ hlater _ => ?_
    · rw [← Array.mem_toList_iff, Array.toList_pop] at hmem
      exact hitems item (Array.mem_toList_iff.mp ((List.dropLast_sublist _).subset hmem))
    refine .pure fun last hlast => of_getD fun value hmem => ?_
    exact (hitems value (Array.mem_of_back? hmem)).mono (hlater.trans hlast).has
  | map =>
    refine .bind hsnapshot fun heap entries hgrows hentries => ?_
    have hmapped (entry : Value × Nat) (hmem : entry ∈ entries) :=
      hcall hgrows (hentries entry hmem) entry.2
    refine .bind (.mapM hmapped of_later) fun _ values _ hvalues => ?_
    exact newArray_gives fun value hmem => hvalues value (List.mem_toArray.mp hmem)
  | filter =>
    refine .bind hsnapshot fun heap entries hgrows hentries => ?_
    refine .bind (.filterM (hholds hgrows hentries)) fun later left hlater hleft => ?_
    refine newArray_gives fun value hmem => ?_
    obtain ⟨entry, hentry, rfl⟩ := List.mem_map.mp (List.mem_toArray.mp hmem)
    exact (hentries entry (hleft entry hentry)).later hlater
  | forEach =>
    refine .bind hsnapshot fun heap entries hgrows hentries => ?_
    have hvisited (entry : Value × Nat) (hmem : entry ∈ entries) :=
      map_runs (fun _ => ()) (hcall hgrows (hentries entry hmem) entry.2).toRuns
    exact .seq (.forM hvisited) fun _ => .pure fun _ _ => trivial
  | find =>
    refine .bind hsnapshot fun heap entries hgrows hentries => ?_
    refine .bind (.findM? (hholds hgrows hentries)) fun later found hlater hfound => ?_
    refine .pure fun last hlast => of_getD fun value hmem => ?_
    obtain ⟨entry, hentry, rfl⟩ := Option.map_eq_some_iff.mp hmem
    exact (hentries entry (hfound entry hentry)).later (hlater.trans hlast)
  | some =>
    refine .bind hsnapshot fun heap entries hgrows hentries => ?_
    exact .seq (.anyM (hholds hgrows hentries)) fun _ => .pure fun _ _ => trivial
  | every =>
    refine .bind hsnapshot fun heap entries hgrows hentries => ?_
    exact .seq (.allM (hholds hgrows hentries)) fun _ => .pure fun _ _ => trivial
  | reduce =>
    have hfold {heap : Heap} (hgrows : base.Grows heap) {entries : List (Value × Nat)}
        (hentries : ∀ entry ∈ entries, entry.1.Of apart heap) {start : Value}
        (hstart : start.Of apart heap) :
        GivesValue apart False heap (entries.foldlM (fun total entry =>
          invoke (args.getD 0 .undefined)
            [total, entry.1, numberOfNat entry.2, .array ref]) start) := by
      refine .foldlM (fun _ hlater => hstart.later hlater)
        (fun later total entry hmem hlater htotal => ?_) of_later
      have hall := hgrows.trans hlater
      exact hinvoke ((h.getD 0).later hall) (.cons (htotal later (.refl _))
        (.cons ((hentries entry hmem).later hlater) (.cons trivial
          (.cons (hall.has _ href) fun _ hmem => by cases hmem))))
    refine .bind hsnapshot fun heap entries hgrows hentries => ?_
    split
    case h_1 _ start hstart =>
      exact hfold hgrows hentries (((h.getElem? 1) start hstart).later hgrows)
    case h_2 entry entries _ =>
      exact hfold hgrows (fun entry hmem => hentries entry (List.mem_cons_of_mem _ hmem))
        (hentries entry List.mem_cons_self)
    case h_3 => exact fail_gives _
  | join =>
    have hjoined (separator : String) : GivesValue apart False base (do
        return .string (separator.intercalate (← (← Eval.read ref).toList.mapM itemText))) :=
      .bind (.read href.2) fun _ _ _ _ =>
        .seq (.mapM (fun item _ => itemText_runs item) fun _ _ _ _ h => h) fun _ =>
          .pure fun _ _ => trivial
    dsimp only [callArrayMethod]
    split
    · exact .seq (pure_runs _) hjoined
    · exact .seq (text_runs _) hjoined
  | includes =>
    refine .bind (.read href.2) fun _ _ _ _ => .seq (position_runs _ _ _) fun _ => ?_
    exact .pure fun _ _ => trivial
  | indexOf =>
    refine .bind (.read href.2) fun _ _ _ _ => .seq (position_runs _ _ _) fun _ => ?_
    split
    · exact .pure fun _ _ => trivial
    · exact .pure fun _ _ => trivial
  | slice =>
    refine .bind (.read href.2) fun _ items _ hitems => ?_
    refine .bind (position_runs _ _ _) fun middle start hmiddle _ => ?_
    refine .bind (position_runs _ _ _) fun later stop hlater _ => ?_
    refine newArray_gives fun value hmem => ?_
    have hitem := List.mem_of_mem_drop (List.mem_of_mem_take (List.mem_toArray.mp hmem))
    exact (hitems value (Array.mem_toList_iff.mp hitem)).mono (hmiddle.trans hlater).has
  | concat =>
    refine .bind (.read href.2) fun heap items hgrows hitems => ?_
    refine .bind (.foldlM (fun _ hlater item hmem => (hitems item hmem).mono hlater.has)
      (fun later items arg hmem hlater hitems => ?_) fun _ _ _ hlater h item hmem =>
        (h item hmem).later hlater) fun _ _ _ hall => newArray_gives hall
    refine .bind (spread_gives ((h arg hmem).later (hgrows.trans hlater)))
      fun middle added hmiddle hadded => .pure fun last hlast item hitem => ?_
    rcases Array.mem_append.mp hitem with hitem | hitem
    · exact hitems last (hmiddle.trans hlast) item hitem
    · exact (hadded item hitem).later hlast
  | reverse =>
    refine .bind (.change (fun _ => .modify _ _ (by decide) trivial) href.2
      fun _ items _ hitems item hmem => hitems item (Array.mem_reverse.mp hmem))
      fun _ _ hgrows _ => .pure fun _ hlater => (hgrows.trans hlater).has _ href

theorem newTexts_gives (texts : List (List Char)) :
    GivesValue apart returns base (newTexts texts) := by
  refine newArray_gives fun value hmem => ?_
  obtain ⟨s, -, rfl⟩ := List.mem_map.mp (List.mem_toArray.mp hmem)
  trivial

theorem repeatText_runs (x : Float) (s : List Char) :
    Runs apart returns base (repeatText x s) := by
  unfold repeatText
  generalize (if x.isNaN then 0.0 else x) = count
  dsimp only
  split
  · exact fail_gives _
  split
  · exact fail_gives _
  split
  · exact fail_gives _
  · exact pure_runs _

theorem callStringMethod_gives (receiver : String) (method : StringMethod) (args : List Value) :
    GivesValue apart returns base (callStringMethod receiver method args) := by
  have hneedle : Runs apart returns base
      (do return (← Eval.text (args.getD 0 .undefined)).toList) :=
    .seq (text_runs _) fun _ => pure_runs _
  cases method with
  | toUpperCase | toLowerCase | trim | trimStart | trimEnd => exact .pure fun _ _ => trivial
  | split =>
    dsimp only [callStringMethod]
    split
    · exact .seq (pure_runs _) fun _ => newTexts_gives _
    · exact .seq (map_runs _ hneedle) fun _ => newTexts_gives _
  | includes | startsWith | endsWith => exact .seq hneedle fun _ => .pure fun _ _ => trivial
  | slice =>
    exact .seq (position_runs _ _ _) fun _ => .seq (position_runs _ _ _) fun _ =>
      .pure fun _ _ => trivial
  | indexOf =>
    refine .seq hneedle fun needle => ?_
    split
    · exact .pure fun _ _ => trivial
    · exact .pure fun _ _ => trivial
  | charAt => exact .seq (numberOr_runs _ _) fun _ => .pure fun _ _ => trivial
  | «repeat» =>
    refine .seq (numberOr_runs _ _) fun _ => .seq (repeatText_runs _ _) fun _ => ?_
    exact .pure fun _ _ => trivial

/-! ### Calls -/

theorem call_gives {invoke : Invoke} (hinvoke : invoke.Keeps apart) {function : Builtin}
    (hfunction : function.Within (base.Has apart)) {args : List Value}
    (h : AllOf apart base args) : GivesValue apart False base (call invoke function args) := by
  have hfirst := h.getD 0
  cases function with
  | error kind => exact newErrorOf_gives kind h
  | promise => exact fail_gives _
  | promiseResolve => exact promiseOf_gives hfirst
  | promiseReject => exact newPromise_gives (.rejected _) hfirst
  | promiseAll => exact promiseOfAll_gives hfirst
  | resolver target rejects =>
    refine .seq (resolve_runs hfunction ?_) fun _ => .pure fun _ _ => trivial
    cases rejects <;> exact hfirst
  | object => exact toObject_gives hfirst
  | objectKeys => exact keys_gives hfirst
  | objectValues => exact values_gives hfirst
  | objectEntries => exact entries_gives hfirst
  | array => exact newArrayOf_gives h
  | arrayIsArray | boolean => exact .pure fun _ _ => trivial
  | string =>
    dsimp only [call]
    split
    · exact .pure fun _ _ => trivial
    · exact .seq (text_runs _) fun _ => .pure fun _ _ => trivial
  | number =>
    dsimp only [call]
    split
    · exact .pure fun _ _ => trivial
    · exact .seq (number_runs _) fun _ => .pure fun _ _ => trivial
  | math function => exact callMath_gives function args
  | jsonStringify => exact stringify_gives _ _
  | jsonParse => exact parseJson_gives _
  | arrayMethod receiver method => exact callArrayMethod_gives hinvoke hfunction method h
  | stringMethod receiver method => exact callStringMethod_gives receiver method args
  | numberMethod receiver method => exact callNumberMethod_gives receiver method args
  | promiseMethod receiver method => exact callPromiseMethod_gives hfunction method h

theorem construct_gives {invoke : Invoke} (hinvoke : invoke.Keeps apart) {callee : Value}
    (hcallee : callee.Of apart base) {args : List Value} (h : AllOf apart base args)
    (shown : String) :
    GivesValue apart False base (construct invoke callee args shown) := by
  unfold construct
  split
  case h_1 ref =>
    refine .bind (.read hcallee.2) fun heap callable hgrows hcallable => ?_
    have hargs := h.later hgrows
    split
    · exact newPromiseBy_gives hinvoke hargs
    · split
      · exact call_gives hinvoke hcallable hargs
      · exact fail_gives _
    · exact fail_gives _
  case h_2 => exact fail_gives _

/-! ### Global names -/

theorem newNamespace_gives {constants : List (String × Value)}
    (hconstants : ∀ pair ∈ constants, pair.2.Of apart base) {functions : List Builtin}
    (hfunctions : ∀ function ∈ functions, function.Within (base.Has apart)) :
    GivesValue apart returns base (newNamespace constants functions) := by
  have hmember (function : Builtin) (hmem : function ∈ functions) :
      Gives apart returns base (fun heap (pair : String × Value) => pair.2.Of apart heap)
        (do return (function.name, ← Eval.newCallable (.builtin function))) :=
    .bind (newCallable_gives (hfunctions function hmem)) fun _ _ _ hvalue =>
      .pure fun _ hlater => hvalue.later hlater
  refine .bind (.mapM hmember fun _ _ _ hgrows h => h.later hgrows)
    fun heap members hgrows hmembers => newObject_gives (Dict.all_ofList fun pair hmem => ?_)
  rcases List.mem_append.mp hmem with hmem | hmem
  · exact (hconstants pair hmem).later hgrows
  · exact hmembers pair hmem

/-- The functions with a global name are bound to nothing. -/
theorem within_of_mem_globalFunctions {area : Place → Prop} {function : Builtin}
    (h : function ∈ globalFunctions) : function.Within area := by
  simp only [globalFunctions, ErrorKind.all, List.map_cons, List.map_nil, List.cons_append,
    List.nil_append, List.mem_cons, List.not_mem_nil, or_false] at h
  rcases h with rfl | rfl | rfl | rfl | rfl | rfl | rfl | rfl | rfl | rfl | rfl <;> trivial

theorem newScope_gives :
    Gives apart returns base (fun heap scope => scope.Of apart heap) newScope := by
  refine .bind (.alloc (fun _ => .alloc _ (by decide) trivial) fun _ _ => Dict.all_empty)
    fun heap frame _ hframe => ?_
  have hscope : Scope.Of apart heap ⟨[], frame⟩ :=
    fun other hmem => List.mem_singleton.mp hmem ▸ hframe
  have hfunction (function : Builtin) (hmem : function ∈ globalFunctions) :
      Runs apart returns heap (do
        Scope.define ⟨[], frame⟩ function.name (← Eval.newCallable (.builtin function)) true
        return ForInStep.yield PUnit.unit) := by
    refine .bind (newCallable_gives (within_of_mem_globalFunctions hmem))
      fun later value hlater hvalue => ?_
    exact .seq (Scope.define_runs (hscope.later hlater) _ hvalue _) fun _ => pure_runs _
  refine .seq (.forIn hfunction) fun _ => ?_
  have hconstants (heap : Heap) : ∀ pair ∈ ([("PI", .number 3.141592653589793),
      ("E", .number 2.718281828459045)] : List (String × Value)), pair.2.Of apart heap := by
    simp only [List.mem_cons, List.not_mem_nil, or_false]
    rintro pair (rfl | rfl) <;> trivial
  refine .bind (newNamespace_gives (hconstants heap) fun function hmem => ?_)
    fun heap math hheap hmath => ?_
  · obtain ⟨function, -, rfl⟩ := List.mem_map.mp hmem
    trivial
  have hscope := hscope.later hheap
  refine .seq (Scope.define_runs hscope _ hmath _) fun _ => ?_
  refine .bind (newNamespace_gives (fun _ hmem => by cases hmem) fun function hmem => ?_)
    fun heap json hheap hjson => ?_
  · simp only [List.mem_cons, List.not_mem_nil, or_false] at hmem
    rcases hmem with rfl | rfl <;> trivial
  have hscope := hscope.later hheap
  refine .seq (Scope.define_runs hscope _ hjson _) fun _ => ?_
  have hnumber (x : Float) : Value.Of apart heap (.number x) := trivial
  refine .seq (Scope.define_runs hscope _ (hnumber _) _) fun _ => ?_
  refine .seq (Scope.define_runs hscope _ (hnumber _) _) fun _ => ?_
  exact .pure fun _ hlater => hscope.later hlater

end Library

end Doctest.Script
