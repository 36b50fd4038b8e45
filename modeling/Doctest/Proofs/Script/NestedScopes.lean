import Doctest.Proofs.Script.Data
import Doctest.Proofs.Script.Keeping.Rules
import Doctest.Script.Scope

/-!
# Nested scopes

A name is bound by the nearest frame of a scope that binds it. An assignment changes what that frame
binds the name to, and nothing else; if no frame binds the name, the outermost one binds it then.
All scopes see the new value whose nearest frame is the changed one, and from no other scope and
under no other name anything changes, whichever frames the scopes have in common.
-/

namespace Doctest.Script

/-! ### The nearest frame -/

/-- A frame is the first of some frames that bind a name: those before it do not. -/
def Heap.Nearest (heap : Heap) (name : String) (frames : List (Ref .frame)) (frame : Ref .frame)
    (binding : Binding) : Prop :=
  ∃ before after, frames = before ++ frame :: after ∧
    (∀ other ∈ before, (heap.get other).get? name = none) ∧
    (heap.get frame).get? name = some binding

variable {heap later : Heap} {name key : String} {frames : List (Ref .frame)} {frame : Ref .frame}
  {binding : Binding} {value : Value}

theorem Heap.binder?_eq_some_iff :
    heap.binder? name frames = some (frame, binding) ↔ heap.Nearest name frames frame binding := by
  induction frames with
  | nil =>
    refine iff_of_false nofun ?_
    rintro ⟨before, after, hsplit, -⟩
    exact List.append_ne_nil_of_right_ne_nil before (List.cons_ne_nil frame after) hsplit.symm
  | cons first rest ih =>
    rw [binder?]
    cases hfirst : (heap.get first).get? name with
    | some found =>
      constructor
      · rintro ⟨⟩
        exact ⟨[], rest, rfl, List.forall_mem_nil _, hfirst⟩
      · rintro ⟨_ | ⟨other, before⟩, after, hsplit, hbefore, hbinds⟩
        · cases hsplit
          rw [hfirst] at hbinds
          cases hbinds
          rfl
        · cases hsplit
          have hnone := hbefore first List.mem_cons_self
          rw [hfirst] at hnone
          cases hnone
    | none =>
      refine ih.trans ⟨?_, ?_⟩
      · rintro ⟨before, after, rfl, hbefore, hbinds⟩
        exact ⟨first :: before, after, rfl, List.forall_mem_cons.mpr ⟨hfirst, hbefore⟩, hbinds⟩
      · rintro ⟨_ | ⟨other, before⟩, after, hsplit, hbefore, hbinds⟩
        · cases hsplit
          rw [hfirst] at hbinds
          cases hbinds
        · cases hsplit
          exact ⟨before, after, rfl, (List.forall_mem_cons.mp hbefore).2, hbinds⟩

theorem Heap.binder?_eq_none_iff :
    heap.binder? name frames = none ↔ ∀ frame ∈ frames, (heap.get frame).get? name = none := by
  induction frames with
  | nil => exact iff_of_true rfl nofun
  | cons first rest ih =>
    rw [binder?, List.forall_mem_cons]
    cases hfirst : (heap.get first).get? name with
    | some found => exact iff_of_false nofun fun h => nomatch h.1
    | none => exact ih.trans (iff_and_self.mpr fun _ => rfl)

/-- A name is found in the same frame if the frames bind it to the same as before. -/
theorem Heap.binder?_congr
    (h : ∀ frame ∈ frames, (later.get frame).get? name = (heap.get frame).get? name) :
    later.binder? name frames = heap.binder? name frames := by
  induction frames with
  | nil => rfl
  | cons frame rest ih =>
    rw [binder?, binder?, h frame List.mem_cons_self,
      ih fun other hmem => h other (List.mem_cons_of_mem _ hmem)]

/-- A name resolves, in a scope, to the binding in some frame. -/
def Scope.Resolves (scope : Scope) (heap : Heap) (name : String) (frame : Ref .frame) : Prop :=
  ∃ binding, heap.Nearest name scope.chain frame binding

/-! ### Changing one binding -/

/-- All that changes is what one frame binds one name to. -/
structure Heap.Rebinds (heap : Heap) (frame : Ref .frame) (name : String) (binding : Binding)
    (later : Heap) : Prop where
  bound : (later.get frame).get? name = some binding
  names : ∀ other, other ≠ name → (later.get frame).get? other = (heap.get frame).get? other
  cells : ∀ {kind : CellKind} (ref : Ref kind), ref.place ≠ frame.place →
    later.get ref = heap.get ref
  count : ∀ kind, later.count kind = heap.count kind

/-- Setting a name in a frame changes one binding, if the frame is there. -/
theorem Heap.rebinds_insert (h : frame.index < heap.count .frame) (name : String)
    (binding : Binding) :
    heap.Rebinds frame name binding (heap.modify frame (·.insert name binding)) := by
  have hget : (heap.modify frame (Dict.insert · name binding)).get frame =
      Dict.insert (heap.get frame) name binding := by
    rw [Heap.get_modify, if_pos ⟨rfl, h⟩]
  constructor
  · rw [hget, Dict.get?_insert]
  · intro other hne
    rw [hget, Dict.get?_insert_of_ne _ _ hne.symm]
  · exact fun ref hne => heap.get_modify_of_place_ne _ _ ref hne
  · exact fun kind => heap.count_modify _ _

namespace Heap.Rebinds

variable (h : heap.Rebinds frame name binding later)
include h

/-- Any other binding is what it was. -/
theorem get?_eq (other : Ref .frame) (hne : ¬ (other = frame ∧ key = name)) :
    (later.get other).get? key = (heap.get other).get? key := by
  by_cases hframe : other = frame
  · subst hframe
    exact h.names key fun hkey => hne ⟨rfl, hkey⟩
  · refine congrArg (Dict.get? · key) (h.cells other fun hplace => hframe ?_)
    exact congrArg Ref.mk (congrArg Place.index hplace)

/-- A name that does not resolve to the changed binding is found where it was. -/
theorem binder?_eq (hother : ¬ (key = name ∧ ∃ found, later.Nearest key frames frame found)) :
    later.binder? key frames = heap.binder? key frames := by
  induction frames with
  | nil => rfl
  | cons first rest ih =>
    have hfirst : (later.get first).get? key = (heap.get first).get? key := by
      refine h.get?_eq first ?_
      rintro ⟨rfl, rfl⟩
      exact hother ⟨rfl, binding, [], rest, rfl, List.forall_mem_nil _, h.bound⟩
    rw [binder?, binder?, hfirst]
    cases hget : (heap.get first).get? key with
    | some found => rfl
    | none =>
      refine ih ?_
      rintro ⟨hkey, found, before, after, hsplit, hbefore, hbinds⟩
      refine hother ⟨hkey, found, ?_⟩
      refine ⟨first :: before, after, congrArg (first :: ·) hsplit, ?_, hbinds⟩
      exact List.forall_mem_cons.mpr ⟨hfirst.trans hget, hbefore⟩

end Heap.Rebinds

/-! ### Assigning -/

/-- Only one frame is the nearest one that binds a name. -/
theorem Heap.Nearest.unique {other : Ref .frame} {found : Binding}
    (h : heap.Nearest name frames frame binding) (hother : heap.Nearest name frames other found) :
    other = frame ∧ found = binding := by
  have heq := (binder?_eq_some_iff.mpr hother).symm.trans (binder?_eq_some_iff.mpr h)
  exact Prod.mk.inj (Option.some.inj heq)

/-- The frame that an assignment to a name goes to, if it is not refused. -/
def Scope.Takes (scope : Scope) (heap : Heap) (name : String) (frame : Ref .frame) : Prop :=
  (∃ binding, heap.Nearest name scope.chain frame binding ∧ binding.isMutable = true) ∨
    (∀ other ∈ scope.chain, (heap.get other).get? name = none) ∧ frame = scope.outermost

/-- An assignment is refused for a constant, and otherwise it sets the name in one frame. -/
theorem Scope.assign_cases (scope : Scope) (name : String) (value : Value) (start : Machine) :
    (∃ frame binding, start.heap.Nearest name scope.chain frame binding ∧
        binding.isMutable = false ∧
        scope.assign name value start = Eval.fail .constantAssignment start) ∨
      ∃ frame, scope.Takes start.heap name frame ∧
        scope.assign name value start =
          (.ok (), ⟨start.heap.modify frame (Dict.insert · name ⟨value, true⟩), start.depth⟩) := by
  rw [Scope.assign, Eval.bind_apply, Eval.ofHeap, Scope.binder?]
  cases hfound : start.heap.binder? name scope.chain with
  | none => exact .inr ⟨scope.outermost, .inr ⟨Heap.binder?_eq_none_iff.mp hfound, rfl⟩, rfl⟩
  | some found =>
    obtain ⟨frame, current, isMutable⟩ := found
    have hnearest := Heap.binder?_eq_some_iff.mp hfound
    cases isMutable with
    | false => exact .inl ⟨frame, _, hnearest, rfl, rfl⟩
    | true => exact .inr ⟨frame, .inl ⟨_, hnearest, rfl⟩, rfl⟩

/-- The frames of a scope begin with its own one. -/
theorem Scope.chain_eq_cons (scope : Scope) : ∃ rest, scope.chain = scope.innermost :: rest := by
  unfold Scope.chain Scope.innermost
  cases scope.inner with
  | nil => exact ⟨_, rfl⟩
  | cons frame rest => exact ⟨_, rfl⟩

/-- What is bound in a frame is bound nowhere but in a frame that is there. -/
theorem Heap.Nearest.index_lt (h : heap.Nearest name frames frame binding) :
    frame.index < heap.count .frame := by
  obtain ⟨before, after, -, -, hbinds⟩ := h
  refine Heap.index_lt_of_get_ne fun hmissing => ?_
  rw [hmissing] at hbinds
  cases hbinds

/-- The frame that an assignment goes to is there. -/
theorem Scope.Takes.index_lt {scope : Scope} (h : scope.Takes heap name frame)
    (hscope : ∀ own ∈ scope.chain, own.index < heap.count .frame) :
    frame.index < heap.count .frame := by
  rcases h with ⟨binding, hnearest, -⟩ | ⟨-, rfl⟩
  · exact hnearest.index_lt
  · exact hscope _ (List.mem_append_right _ List.mem_cons_self)

/-- A scope that does not bind the name has its outermost frame once before all others. -/
theorem Scope.Takes.split {scope : Scope} (h : scope.Takes heap name frame) :
    ∃ before after, scope.chain = before ++ frame :: after ∧ frame ∉ before ∧
      ∀ other ∈ before, (heap.get other).get? name = none := by
  rcases h with ⟨found, ⟨before, after, hchain, hbefore, hbinds⟩, -⟩ | ⟨hnone, rfl⟩
  · refine ⟨before, after, hchain, fun hmem => ?_, hbefore⟩
    rw [hbefore frame hmem] at hbinds
    cases hbinds
  · have hmem : scope.outermost ∈ scope.chain := List.mem_append_right _ List.mem_cons_self
    obtain ⟨before, after, hchain, hnotin⟩ := List.eq_append_cons_of_mem hmem
    exact ⟨before, after, hchain, hnotin,
      fun other hother => hnone other (hchain ▸ List.mem_append_left _ hother)⟩

/-- After the assignment the name resolves to the binding that was set. -/
theorem Scope.Takes.nearest {scope : Scope} (h : scope.Takes heap name frame)
    (hlater : heap.Rebinds frame name binding later) :
    later.Nearest name scope.chain frame binding := by
  obtain ⟨before, after, hchain, hnotin, hbefore⟩ := h.split
  refine ⟨before, after, hchain, fun other hmem => ?_, hlater.bound⟩
  rw [hlater.get?_eq other fun hsame => hnotin (hsame.1 ▸ hmem)]
  exact hbefore other hmem

/-- No assignment goes to a frame when the nearest one has a constant. -/
theorem Scope.Takes.isMutable {scope : Scope} {other : Ref .frame}
    (h : scope.Takes heap name frame) (hnearest : heap.Nearest name scope.chain other binding) :
    binding.isMutable = true := by
  rcases h with ⟨found, hfound, hmutable⟩ | ⟨hnone, -⟩
  · rw [(hfound.unique hnearest).2]
    exact hmutable
  · rw [← Heap.binder?_eq_none_iff, Heap.binder?_eq_some_iff.mpr hnearest] at hnone
    cases hnone

/-- The value of a name is the one in the nearest frame that binds it. -/
theorem Heap.Nearest.get?_eq {scope : Scope} (h : heap.Nearest name scope.chain frame binding) :
    scope.get? heap name = some binding.value := by
  rw [Scope.get?, Scope.binder?, binder?_eq_some_iff.mpr h]
  rfl

/-- A refused assignment makes an error and changes no cell. -/
theorem Eval.fail_constantAssignment (start : Machine) :
    ∃ (error : Ref .error) (last : Machine),
      (Eval.fail .constantAssignment : Eval Unit) start = (.error (.raised (.error error)), last) ∧
      last.heap.get error = ⟨"TypeError", "Assignment to constant variable.", Dict.empty⟩ ∧
      start.heap.Extends last.heap ∧
      ∀ frame : Ref .frame, last.heap.get frame = start.heap.get frame := by
  let cell : Cell .error :=
    ErrorObject.mk "TypeError" "Assignment to constant variable." Dict.empty
  refine ⟨⟨start.heap.count .error⟩, ⟨(start.heap.alloc .error cell).2, start.depth⟩, rfl, ?_,
    start.heap.extends_alloc cell, fun frame => start.heap.get_alloc_of_ne cell frame nofun⟩
  rw [Heap.get_alloc, if_pos rfl]

/-! ### Main result -/

/-- What the operations on a scope do, which are those on stores one within the other. The other
scopes are any at all, so the frames may form a tree and be shared by closures. -/
structure Scope.NestedStores (scope : Scope) (start : Machine) : Prop where
  /-- Only a nearest frame that binds the name as a constant keeps it from being assigned to. -/
  fails_iff : ∀ name value,
    (∃ signal last, scope.assign name value start = (.error signal, last)) ↔
      ∃ frame binding, start.heap.Nearest name scope.chain frame binding ∧
        binding.isMutable = false
  /-- Then an error is raised, and no frame changes. -/
  failed : ∀ name value signal last, scope.assign name value start = (.error signal, last) →
    (∃ error : Ref .error, signal = .raised (.error error) ∧
      last.heap.get error = ⟨"TypeError", "Assignment to constant variable.", Dict.empty⟩) ∧
    start.heap.Extends last.heap ∧
    ∀ frame : Ref .frame, last.heap.get frame = start.heap.get frame
  /-- Otherwise one binding changes, which those see that resolve the name to it. -/
  assigned : ∀ name value last, scope.assign name value start = (.ok (), last) →
    ∃ frame, scope.Takes start.heap name frame ∧
      start.heap.Rebinds frame name ⟨value, true⟩ last.heap ∧
      scope.get? last.heap name = some value ∧
      ∀ (other : Scope) (key : String),
        (key = name ∧ other.Resolves last.heap key frame →
          other.get? last.heap key = some value) ∧
        (¬ (key = name ∧ other.Resolves last.heap key frame) →
          other.binder? last.heap key = other.binder? start.heap key ∧
          other.get? last.heap key = other.get? start.heap key)
  has_iff : ∀ name,
    scope.has start.heap name = true ↔ ∃ value, scope.get? start.heap name = some value
  /-- A definition changes what the scope's own frame binds the name to. -/
  defines : ∀ name value isMutable, ∃ own rest last,
    scope.chain = own :: rest ∧
    scope.define name value isMutable start = (.ok (), last) ∧
    start.heap.Rebinds own name ⟨value, isMutable⟩ last.heap

/-- What one changed binding does to what all scopes see. -/
theorem Heap.Rebinds.get?_scope {name : String} {value : Value} {isMutable : Bool}
    (h : heap.Rebinds frame name ⟨value, isMutable⟩ later) (other : Scope) (key : String) :
    (key = name ∧ other.Resolves later key frame → other.get? later key = some value) ∧
    (¬ (key = name ∧ other.Resolves later key frame) →
      other.binder? later key = other.binder? heap key ∧
      other.get? later key = other.get? heap key) := by
  constructor
  · rintro ⟨rfl, found, hnearest⟩
    obtain ⟨before, after, hchain, hbefore, hbinds⟩ := id hnearest
    rw [h.bound] at hbinds
    cases hbinds
    exact hnearest.get?_eq
  · intro hother
    have hbinder : other.binder? later key = other.binder? heap key := h.binder?_eq hother
    exact ⟨hbinder, by rw [Scope.get?, Scope.get?, hbinder]⟩

/-- Frames one within the other are stores one within the other, whoever shares them. -/
theorem Scope.nested_stores (scope : Scope) (start : Machine)
    (hscope : ∀ frame ∈ scope.chain, frame.index < start.heap.count .frame) :
    scope.NestedStores start := by
  constructor
  case fails_iff =>
    intro name value
    rcases scope.assign_cases name value start with
      ⟨frame, binding, hnearest, hconstant, hassign⟩ | ⟨frame, htakes, hassign⟩
    · obtain ⟨error, last, hfail, -⟩ := Eval.fail_constantAssignment start
      exact iff_of_true ⟨_, last, hassign.trans hfail⟩ ⟨frame, binding, hnearest, hconstant⟩
    · refine iff_of_false ?_ ?_
      · rintro ⟨signal, last, hfailed⟩
        rw [hassign] at hfailed
        cases hfailed
      · rintro ⟨other, binding, hnearest, hconstant⟩
        rw [htakes.isMutable hnearest] at hconstant
        cases hconstant
  case failed =>
    intro name value signal last hfailed
    rcases scope.assign_cases name value start with
      ⟨frame, binding, -, -, hassign⟩ | ⟨frame, -, hassign⟩ <;> rw [hassign] at hfailed
    · obtain ⟨error, last, hfail, hget, hextends, hframes⟩ := Eval.fail_constantAssignment start
      rw [hfail] at hfailed
      cases hfailed
      exact ⟨⟨error, rfl, hget⟩, hextends, hframes⟩
    · cases hfailed
  case assigned =>
    intro name value last hdone
    rcases scope.assign_cases name value start with
      ⟨frame, binding, -, -, hassign⟩ | ⟨frame, htakes, hassign⟩ <;> rw [hassign] at hdone
    · cases hdone
    · cases hdone
      have hrebinds := Heap.rebinds_insert (htakes.index_lt hscope) name ⟨value, true⟩
      exact ⟨frame, htakes, hrebinds, (htakes.nearest hrebinds).get?_eq, hrebinds.get?_scope⟩
  case has_iff =>
    intro name
    rw [Scope.has, Option.isSome_iff_exists, Scope.get?]
    simp only [Option.map_eq_some_iff]
    exact ⟨fun ⟨found, h⟩ => ⟨_, found, h, rfl⟩, fun ⟨_, found, h, _⟩ => ⟨found, h⟩⟩
  case defines =>
    intro name value isMutable
    obtain ⟨rest, hchain⟩ := scope.chain_eq_cons
    have hown := hscope scope.innermost (hchain ▸ List.mem_cons_self)
    exact ⟨scope.innermost, rest, _, hchain, rfl, Heap.rebinds_insert hown name _⟩

/-- Two frames, the inner of which binds a name that the outer binds as a constant. -/
def Machine.shadowingConstant : Machine :=
  ⟨⟨#[], #[], #[], #[], #[],
    #[Dict.empty.insert "limit" ⟨.bool false, false⟩, Dict.empty.insert "limit" ⟨.null, true⟩]⟩, 0⟩

/-- The name can be assigned to in the inner frame, and not in the outer one. -/
theorem Scope.nested_stores_shadowing :
    (∀ frame ∈ Scope.chain ⟨[⟨1⟩], ⟨0⟩⟩,
      frame.index < Machine.shadowingConstant.heap.count .frame) ∧
    Scope.NestedStores ⟨[⟨1⟩], ⟨0⟩⟩ .shadowingConstant ∧
    (∀ frame ∈ Scope.chain ⟨[], ⟨0⟩⟩,
      frame.index < Machine.shadowingConstant.heap.count .frame) ∧
    Scope.NestedStores ⟨[], ⟨0⟩⟩ .shadowingConstant ∧
    (Scope.assign ⟨[⟨1⟩], ⟨0⟩⟩ "limit" (.bool true) .shadowingConstant).1.isOk = true ∧
    (Scope.assign ⟨[], ⟨0⟩⟩ "limit" (.bool true) .shadowingConstant).1.isOk = false := by
  have hinner : ∀ frame ∈ Scope.chain ⟨[⟨1⟩], ⟨0⟩⟩,
      frame.index < Machine.shadowingConstant.heap.count .frame := by decide
  have houter : ∀ frame ∈ Scope.chain ⟨[], ⟨0⟩⟩,
      frame.index < Machine.shadowingConstant.heap.count .frame := by decide
  exact ⟨hinner, Scope.nested_stores _ _ hinner, houter, Scope.nested_stores _ _ houter,
    by decide, by decide⟩

end Doctest.Script
