import Doctest.Proofs.Script.Containment

/-!
# The shapes of values

Values of two heaps that go back to the same heap have the same shape if the same is seen of them
from outside: cells of the old heap are seen by their identity, and new ones by what they hold. A
shape tells what stands at the end of each path through new cells.
-/

namespace Doctest

namespace Script

/-- What stands in one place of a cell: a value, or a frame of a scope. -/
inductive Part where
  | value (value : Value)
  | frame (ref : Ref .frame)

/-- The cell that a value refers to. -/
def Value.place? : Value → Option Place
  | .array ref => some ref.place
  | .object ref => some ref.place
  | .error ref => some ref.place
  | .callable ref => some ref.place
  | .promise ref => some ref.place
  | .undefined | .null | .bool _ | .number _ | .string _ => none

/-- The cell that a part refers to. -/
def Part.place? : Part → Option Place
  | .value found => found.place?
  | .frame ref => some ref.place

/-- The reference to a cell. -/
def Place.ref (place : Place) : Ref place.kind :=
  ⟨place.index⟩

/-! ### Cells and their parts -/

/-- What a built-in function is bound to. -/
def Builtin.parts : Builtin → List Part
  | .resolver target _ => [.value (.promise target)]
  | .arrayMethod receiver _ => [.value (.array receiver)]
  | .promiseMethod receiver _ => [.value (.promise receiver)]
  | _ => []

/-- A built-in function without what it is bound to. -/
def Builtin.blank : Builtin → Builtin
  | .resolver _ rejects => .resolver ⟨0⟩ rejects
  | .arrayMethod _ method => .arrayMethod ⟨0⟩ method
  | .promiseMethod _ method => .promiseMethod ⟨0⟩ method
  | function => function

/-- The promise that some work waits for, the functions it calls and its items. -/
def Reaction.parts : Reaction → List Part
  | .unresolved | .running => []
  | .adopt source => [.value (.promise source)]
  | .andThen source onFulfilled onRejected =>
    .value (.promise source) :: (onFulfilled.toList ++ onRejected.toList).map .value
  | .all items => items.map .value

/-- Some work without what it waits for. -/
def Reaction.blank : Reaction → Reaction
  | .unresolved => .unresolved
  | .running => .running
  | .adopt _ => .adopt ⟨0⟩
  | .andThen _ onFulfilled onRejected =>
    .andThen ⟨0⟩ (onFulfilled.map fun _ => .undefined) (onRejected.map fun _ => .undefined)
  | .all items => .all (items.map fun _ => .undefined)

/-- All that a cell refers to, in a fixed order. -/
def Cell.parts : {kind : CellKind} → Cell kind → List Part
  | .array, items => (items : Array Value).toList.map .value
  | .object, properties => (Dict.entries properties).map fun entry => .value entry.2
  | .error, error => (ErrorObject.properties error).entries.map fun entry => .value entry.2
  | .callable, .closure made => made.scope.chain.map .frame
  | .callable, .builtin function => function.parts
  | .promise, .pending reaction => reaction.parts
  | .promise, .fulfilled value => [.value value]
  | .promise, .rejected reason => [.value reason]
  | .frame, bindings => (Dict.entries bindings).map fun entry => .value (Binding.value entry.2)

/-- What a cell holds besides its parts. -/
def Cell.blank : {kind : CellKind} → Cell kind → Cell kind
  | .array, items => (items : Array Value).map fun _ => Value.undefined
  | .object, properties => Dict.mapValues (fun _ => Value.undefined) properties
  | .error, error =>
    { error with properties := (ErrorObject.properties error).mapValues fun _ => .undefined }
  | .callable, .closure made =>
    .closure { made with scope := ⟨made.scope.inner.map fun _ => ⟨0⟩, ⟨0⟩⟩ }
  | .callable, .builtin function => .builtin function.blank
  | .promise, .pending reaction => .pending reaction.blank
  | .promise, .fulfilled _ => .fulfilled .undefined
  | .promise, .rejected _ => .rejected .undefined
  | .frame, bindings => Dict.mapValues (fun binding => ⟨.undefined, binding.isMutable⟩) bindings

/-- A part is no reference, or one to a cell of an area. -/
def Part.Within (area : Place → Prop) : Part → Prop
  | .value found => found.Within area
  | .frame ref => area ref.place

theorem Part.Within.place {area : Place → Prop} {part : Part} {place : Place}
    (h : part.Within area) (hplace : part.place? = some place) : area place := by
  cases part with
  | value value => cases value <;> cases hplace <;> exact h
  | frame ref => cases hplace; exact h

/-- The parts of a cell are all that it refers to. -/
theorem Cell.Within.parts {area : Place → Prop} {kind : CellKind} {cell : Cell kind}
    (h : Cell.Within area cell) : ∀ part ∈ Cell.parts cell, part.Within area := by
  intro part hmem
  cases kind with
  | array =>
    obtain ⟨item, hitem, rfl⟩ := List.mem_map.mp hmem
    exact h item (Array.mem_toList_iff.mp hitem)
  | object =>
    obtain ⟨entry, hentry, rfl⟩ := List.mem_map.mp hmem
    exact h entry hentry
  | error =>
    obtain ⟨entry, hentry, rfl⟩ := List.mem_map.mp hmem
    exact h entry hentry
  | frame =>
    obtain ⟨entry, hentry, rfl⟩ := List.mem_map.mp hmem
    exact h entry hentry
  | callable =>
    cases cell with
    | closure made =>
      obtain ⟨frame, hframe, rfl⟩ := List.mem_map.mp hmem
      exact h frame hframe
    | builtin function =>
      cases function with
      | resolver target rejects =>
        obtain rfl := List.mem_singleton.mp hmem
        exact h
      | arrayMethod receiver method =>
        obtain rfl := List.mem_singleton.mp hmem
        exact h
      | promiseMethod receiver method =>
        obtain rfl := List.mem_singleton.mp hmem
        exact h
      | _ => cases hmem
  | promise =>
    cases cell with
    | fulfilled value =>
      obtain rfl := List.mem_singleton.mp hmem
      exact h
    | rejected reason =>
      obtain rfl := List.mem_singleton.mp hmem
      exact h
    | pending reaction =>
      cases reaction with
      | unresolved | running => cases hmem
      | adopt source =>
        obtain rfl := List.mem_singleton.mp hmem
        exact h
      | all items =>
        obtain ⟨item, hitem, rfl⟩ := List.mem_map.mp hmem
        exact h item hitem
      | andThen source onFulfilled onRejected =>
        obtain ⟨hsource, hfulfilled, hrejected⟩ := h
        rcases List.mem_cons.mp hmem with rfl | hmem
        · exact hsource
        · obtain ⟨handler, hhandler, rfl⟩ := List.mem_map.mp hmem
          rcases List.mem_append.mp hhandler with hhandler | hhandler
          · exact hfulfilled handler (Option.mem_toList.mp hhandler)
          · exact hrejected handler (Option.mem_toList.mp hhandler)

/-! ### Shapes -/

/-- What is seen at the end of a path: something of the old heap or without a cell, or a new cell
without its parts. -/
inductive Sight where
  | known (part : Part)
  | made (kind : CellKind) (blank : Cell kind)

/-- What is seen at the end of each path. A path goes from a new cell to one of its parts. -/
abbrev Shape :=
  List Nat → Option Sight

namespace Shape

/-- The shape of what is no new cell. -/
def known (part : Part) : Shape
  | [] => some (.known part)
  | _ :: _ => none

/-- The shape of a new array with items of some shapes. -/
def array (items : List Shape) : Shape
  | [] => some (.made .array (Array.replicate items.length .undefined))
  | index :: rest => items[index]?.bind fun item => item rest

/-- The shape of a new error. -/
def failure (failure : Failure) : Shape
  | [] => some (.made .error ⟨failure.kind.name, failure.message, Dict.empty⟩)
  | _ :: _ => none

end Shape

/-- The new cell that a part refers to. -/
def Part.new? (base : Heap) (part : Part) : Option Place :=
  part.place?.filter fun place => base.count place.kind ≤ place.index

/-- The shape of a part of a heap that goes back to the heap `base`. -/
def shape (base heap : Heap) (part : Part) : Shape
  | [] =>
    match part.new? base with
    | none => some (.known part)
    | some place => some (.made place.kind (heap.get place.ref).blank)
  | index :: rest =>
    match part.new? base with
    | none => none
    | some place =>
      match (heap.get place.ref).parts[index]? with
      | none => none
      | some inner => shape base heap inner rest

/-- The shape of a value. -/
abbrev Value.shape (base heap : Heap) (value : Value) : Shape :=
  Script.shape base heap (.value value)

section

variable {base heap later : Heap} {part : Part} {place : Place}

theorem shape_of_known (h : part.new? base = none) (heap : Heap) :
    shape base heap part = .known part := by
  funext path
  cases path with
  | nil => simp only [shape, h, Shape.known]
  | cons index rest => simp only [shape, h, Shape.known]

/-- What has the shape of something that is known is just that. -/
theorem eq_of_shape_known {found : Part} (h : shape base heap part = .known found) :
    part = found := by
  have hsight := congrFun h []
  cases hnew : part.new? base with
  | none =>
    simp only [shape, hnew, Shape.known] at hsight
    injection hsight with hsight
    injection hsight
  | some place =>
    simp only [shape, hnew, Shape.known] at hsight
    injection hsight with hsight
    cases hsight

/-- What is of the old heap is no new cell. -/
theorem Part.Within.new? (h : part.Within (base.Has fun _ => False)) : part.new? base = none := by
  unfold Part.new?
  cases hplace : part.place? with
  | none => rfl
  | some place =>
    have hthere := (h.place hplace).1
    exact Option.filter_eq_none_iff.mpr fun other hother => by
      cases hother
      simp only [decide_eq_true_eq]
      omega

/-- A shape lasts as long as new cells do not change. -/
theorem shape_later (hclosed : heap.Closed fun _ => False)
    (hsame : ∀ place : Place, base.count place.kind ≤ place.index →
      place.index < heap.count place.kind → later.get place.ref = heap.get place.ref)
    (hpart : part.Within (heap.Has fun _ => False)) :
    shape base later part = shape base heap part := by
  funext path
  induction path generalizing part with
  | nil =>
    cases hnew : part.new? base with
    | none => simp only [shape, hnew]
    | some place =>
      obtain ⟨hplace, hbase⟩ := Option.filter_eq_some_iff.mp hnew
      have hcell := hsame place (of_decide_eq_true hbase) (hpart.place hplace).1
      simp only [shape, hnew, hcell]
  | cons index rest ih =>
    cases hnew : part.new? base with
    | none => simp only [shape, hnew]
    | some place =>
      obtain ⟨hplace, hbase⟩ := Option.filter_eq_some_iff.mp hnew
      have hcell := hsame place (of_decide_eq_true hbase) (hpart.place hplace).1
      simp only [shape, hnew, hcell]
      cases hinner : (heap.get place.ref).parts[index]? with
      | none => rfl
      | some inner =>
        have hwithin := (hclosed.within place.ref id).parts inner (List.mem_of_getElem? hinner)
        exact ih hwithin

/-- A new cell is seen with what it holds. -/
theorem shape_of_new (h : part.new? base = some place) (heap : Heap) (path : List Nat) :
    shape base heap part path =
      match path with
      | [] => some (.made place.kind (heap.get place.ref).blank)
      | index :: rest => (heap.get place.ref).parts[index]?.bind fun inner =>
        shape base heap inner rest := by
  cases path with
  | nil => simp only [shape, h]
  | cons index rest =>
    simp only [shape, h]
    cases (heap.get place.ref).parts[index]? <;> rfl

theorem shape_failure {ref : Ref .error} {failure : Failure}
    (hbase : base.count .error ≤ ref.index)
    (hcell : heap.get ref = ⟨failure.kind.name, failure.message, Dict.empty⟩) :
    (Value.error ref).shape base heap = .failure failure := by
  have hnew : (Part.value (.error ref)).new? base = some ref.place :=
    Option.filter_eq_some_iff.mpr ⟨rfl, decide_eq_true hbase⟩
  funext path
  rw [Value.shape, shape_of_new hnew]
  change (match path with
    | [] => some (Sight.made .error (heap.get ref).blank)
    | index :: rest => (heap.get ref).parts[index]?.bind fun inner =>
      shape base heap inner rest) = _
  rw [hcell]
  cases path <;> rfl

theorem shape_array {ref : Ref .array} (hbase : base.count .array ≤ ref.index) :
    (Value.array ref).shape base heap =
      .array ((heap.get ref).toList.map (Value.shape base heap)) := by
  have hnew : (Part.value (.array ref)).new? base = some ref.place :=
    Option.filter_eq_some_iff.mpr ⟨rfl, decide_eq_true hbase⟩
  funext path
  rw [Value.shape, shape_of_new hnew]
  change (match path with
    | [] => some (Sight.made .array (heap.get ref).blank)
    | index :: rest => (heap.get ref).parts[index]?.bind fun inner =>
      shape base heap inner rest) = _
  generalize heap.get ref = items
  cases path with
  | nil =>
    have hblank : (items : Array Value).map (fun _ => Value.undefined) =
        Array.replicate items.size .undefined :=
      Array.map_const'
    rw [Cell.blank, hblank, Shape.array, List.length_map, Array.length_toList]
  | cons index rest =>
    rw [Shape.array, Cell.parts, List.getElem?_map]
    dsimp only
    rw [List.getElem?_map]
    cases (items : Array Value).toList[index]? <;> rfl

end

end Script

end Doctest
