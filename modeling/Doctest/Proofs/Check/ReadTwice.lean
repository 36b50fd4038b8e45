import Doctest.Proofs.Check.SelfEquality
import Doctest.Proofs.Script.RepeatedReads

/-!
# Blocks that read twice

A block in which a property is read and is expected to be what it is passes unless the reading makes
a function: then another one is made for the expected result, and functions are compared by
identity.
-/

namespace Doctest

open Script

namespace Evaluator

open EndsWell

variable {levels : Nat} {session next last : Session} {block code : String} {value : Value}

/-- A block that expects an input to be what it is passes if what is made of it the second time is
equal to what was made of it the first time. -/
theorem runBlock_twice_iff
    (hblock : Block.statements block = .ok [⟨.input, code⟩, ⟨.output, code⟩])
    (hfirst : (Step.evaluate levels code).run session = some (.ok value, next)) :
    ((evaluator levels).runBlock block).run session = some (.pass, last) ↔
      ∃ again, (Step.evaluate levels code).run next = some (.ok again, last) ∧
        last.heap.deepEquals value again = true := by
  rw [runBlock_pass_iff hblock]
  constructor
  · intro hpass
    obtain ⟨progress, middle, hstart, hpass⟩ := bind_iff.mp hpass
    obtain ⟨answer, hanswer, rfl⟩ := endsWell_start.mp hstart
    cases hfirst.symm.trans hanswer
    rw [discard_eq, map_iff, List.foldlM_cons] at hpass
    simp only [List.foldlM_nil, bind_pure] at hpass
    obtain ⟨result, hstep, -⟩ := hpass
    obtain ⟨a, before, again, ha, hagain, hequal, -⟩ := endsWell_compare.mp hstep
    obtain ⟨rfl, rfl⟩ := pure_iff.mp ha
    exact ⟨again, endsWell_expected.mp hagain, hequal⟩
  · rintro ⟨again, hagain, hequal⟩
    refine bind_iff.mpr ⟨⟨code, value⟩, next, endsWell_start.mpr ⟨.ok value, hfirst, rfl⟩, ?_⟩
    have hstep : EndsWell ((evaluator levels).step ⟨code, value⟩ ⟨.output, code⟩) next
        ⟨code, value⟩ last :=
      endsWell_compare.mpr ⟨value, next, again, pure_iff.mpr ⟨rfl, rfl⟩,
        endsWell_expected.mpr hagain, hequal, rfl⟩
    rw [discard_eq, map_iff, List.foldlM_cons]
    simp only [List.foldlM_nil, bind_pure]
    exact ⟨⟨code, value⟩, hstep, trivial⟩

end Evaluator

namespace Script

section

variable {invoke : Invoke} {scope : Scope} {start before : Machine} {e : Expr} {target : Value}
  {key : String}

/-- Up to the reading of a property, no reference comes to lead nowhere. -/
theorem Expr.ReadsAt.closed {apart : Place → Prop} (hinvoke : invoke.Keeps apart)
    (hscope : scope.Of apart start.heap) (hstart : start.heap.Closed apart)
    (h : e.ReadsAt invoke scope start target key before) :
    before.heap.Closed apart ∧ start.heap.Grows before.heap := by
  cases h with
  | @member t _ _ _ _ htarget =>
    have hkept := evalExpr_gives hinvoke hscope t start (.refl _) hstart
    rw [htarget] at hkept
    exact ⟨hkept.closed, hkept.grows⟩
  | @index t k _ _ _ _ middle _ htarget hkey htext =>
    have hkept := evalExpr_gives hinvoke hscope t start (.refl _) hstart
    rw [htarget] at hkept
    have hmore := evalExpr_gives hinvoke (hscope.later hkept.grows) k middle (.refl _) hkept.closed
    rw [hkey] at hmore
    exact ⟨hmore.closed, hkept.grows.trans hmore.grows⟩

theorem Expr.isRead_of_mem_accessed {part : Expr} (he : e.isRead = true)
    (hmem : part ∈ e.accessed) : part.isRead = true := by
  cases e with
  | member t k span =>
    cases List.mem_singleton.mp hmem
    exact he
  | index t k span =>
    obtain ⟨htarget, hkey⟩ := Bool.and_eq_true_iff.mp he
    rcases List.mem_cons.mp hmem with rfl | hmem
    · exact htarget
    · cases List.mem_singleton.mp hmem
      exact hkey
  | _ => cases hmem

end

section

variable {levels : Nat} {session : Session} {code : String} {e : Expr} {span : Span}
  {target value : Value} {key : String} {before after : Machine}

/-- What a function was made for is not read again: the second time another one is made. -/
theorem not_again_of_made (hwhole : session.Whole) {function : Builtin}
    (hreads : e.ReadsAt (invoke levels) session.scope session.machine target key before)
    (hread : Eval.property target key before = (.ok value, after))
    (hmade : before.heap.made? target key = some function) {again : Value} {last : Session}
    (hagain : (Step.evaluate levels code).run ⟨after, session.scope⟩ = some (.ok again, last)) :
    last.heap.deepEquals value again = false := by
  obtain ⟨hclosed, hgrows⟩ := hreads.closed (invoke_keeps levels) hwhole.scope hwhole.heap
  cases made_of_read hread hmade
  -- Nothing of the session refers to the function that was made, so no evaluation comes to it.
  let made : Ref .callable := ⟨before.heap.count .callable⟩
  let cell : Cell .callable := Callable.builtin function
  have hnext : Session.Closed (· = made.place)
      ⟨⟨(before.heap.alloc .callable cell).2, before.depth⟩, session.scope⟩ :=
    ⟨hclosed.alloc_apart cell,
      fun frame hmem => ((hwhole.scope.later hgrows) frame hmem).beside cell⟩
  have hkept := Step.evaluate_kept hnext hagain
  rw [← Bool.not_eq_true, deepEquals_callable_iff]
  intro heq
  have hfound : again.Of (· = made.place) last.heap := hkept.found
  rw [heq] at hfound
  exact hfound.2 rfl

/-- What was stored is read again. -/
theorem again_of_stored (hwhole : session.Whole) (hparse : parse code = .ok [.expr e span])
    (hreads : e.ReadsAt (invoke levels) session.scope session.machine target key before)
    (hread : Eval.property target key before = (.ok value, after))
    (hmade : before.heap.made? target key = none)
    (he : e.isRead = true ∨
      e.isPure = true ∧ before.heap.count .callable = session.heap.count .callable) :
    ∃ again last, (Step.evaluate levels code).run ⟨after, session.scope⟩ = some (.ok again, last) ∧
      last.heap.deepEquals value again = true ∧ session.heap.Extends last.heap ∧
      last.scope = session.scope := by
  have hafter : after = before := (stored_of_read hread hmade).2
  rcases he with he | ⟨he, hfunctions⟩
  · have hparts : ∀ part ∈ e.accessed,
        session.heap.RereadsExpr (invoke levels) session.scope part := fun part hmem =>
      rereadsExpr_of_isRead hwhole.heap hwhole.scope part (Expr.isRead_of_mem_accessed he hmem)
    obtain ⟨-, -, -, hadds, -, -⟩ := hreads.again hwhole.heap hparts (.refl _) (.refl _)
    obtain ⟨target', before', hreads', -, hadds', htargets⟩ :=
      hreads.again hwhole.heap hparts (.refl _) hadds
    obtain ⟨again, last, hagain, -, hmore, -, hsame⟩ :=
      property_rereads hwhole.heap hadds (hadds.trans hadds') htargets hread
    obtain ⟨rfl, -, rfl⟩ := hsame hmade
    refine ⟨again, ⟨last, session.scope⟩, ?_, ?_, (hadds.trans hadds').extended, rfl⟩
    · rw [evaluate_expr_iff hparse, hafter]
      exact ⟨hreads'.evalExpr_eq.trans hagain, rfl⟩
    · exact deepEquals_self last.heap again
  · have hrun : (Step.evaluate levels code).run session =
        some (.ok value, ⟨after, session.scope⟩) :=
      (evaluate_expr_iff hparse).mpr ⟨hreads.evalExpr_eq.trans hread, rfl⟩
    exact evaluate_again hwhole hparse he hrun (hafter ▸ hfunctions)

end

/-- Whether a source is one property access made of names, literals and further ones. -/
def isReadAccess (source : String) : Bool :=
  match parse source with
  | .ok [.expr e _] => e.isRead && !e.accessed.isEmpty
  | _ => false

theorem isReadAccess_iff {source : String} :
    isReadAccess source = true ↔
      ∃ e span, parse source = .ok [.expr e span] ∧ e.isRead = true ∧ e.accessed ≠ [] := by
  rw [isReadAccess]
  constructor
  · intro h
    split at h
    · next e span hparse =>
      obtain ⟨he, haccess⟩ := Bool.and_eq_true_iff.mp h
      exact ⟨e, span, hparse, he, by simpa using haccess⟩
    · cases h
  · rintro ⟨e, span, hparse, he, haccess⟩
    rw [hparse]
    simpa [he] using haccess

end Script

/-! ### Main result -/

namespace Evaluator

open Script

/-- **Reading again gives what is deeply equal, unless the reading makes a function.** What is
stored is read as it is; a method and a function that belongs to a built-in one are made anew. So a
block that expects a property access to be what it is fails if the access ends with such a reading,
and passes otherwise. There the access consists of names, literals and further accesses, or of
anything but calls and assignments that makes no function before the last reading. -/
theorem reads_equal_unless_made (levels : Nat) {session : Session} (hwhole : session.Whole) :
    (∀ target key first middle, session.Holds target →
      Eval.property target key session.machine = (.ok first, middle) →
        ∃ second last, Eval.property target key middle = (.ok second, last) ∧
          ReadTwice session.machine target key first second last) ∧
      ∀ block code e span target key before value after,
        Block.statements block = .ok [⟨.input, code⟩, ⟨.output, code⟩] →
        parse code = .ok [.expr e span] →
        e.ReadsAt (invoke levels) session.scope session.machine target key before →
        Eval.property target key before = (.ok value, after) →
          (∀ function, before.heap.made? target key = some function →
            ∀ last, ((evaluator levels).runBlock block).run session ≠ some (.pass, last)) ∧
          (before.heap.made? target key = none →
            (e.isRead = true ∨
              e.isPure = true ∧ before.heap.count .callable = session.heap.count .callable) →
            ∃ last, ((evaluator levels).runBlock block).run session = some (.pass, last) ∧
              last.scope = session.scope ∧ session.heap.Extends last.heap) := by
  refine ⟨fun target key first middle htarget hread => property_twice htarget hread, ?_⟩
  intro block code e span target key before value after hblock hparse hreads hread
  have hfirst : (Step.evaluate levels code).run session =
      some (.ok value, ⟨after, session.scope⟩) :=
    (evaluate_expr_iff hparse).mpr ⟨hreads.evalExpr_eq.trans hread, rfl⟩
  constructor
  · intro function hmade last hpass
    obtain ⟨again, hagain, hequal⟩ := (runBlock_twice_iff hblock hfirst).mp hpass
    rw [not_again_of_made hwhole hreads hread hmade hagain] at hequal
    cases hequal
  · intro hmade he
    obtain ⟨again, last, hagain, hequal, hextends, hscope⟩ :=
      again_of_stored hwhole hparse hreads hread hmade he
    exact ⟨last, (runBlock_twice_iff hblock hfirst).mpr ⟨again, hagain, hequal⟩, hscope, hextends⟩

/-- The name of a method is read twice from functions of which each is another one. -/
theorem name_of_method_read_twice :
    ∃ value session last,
      (Step.evaluate amplyManyLevels "let xs = [1]").run Session.new = some (.ok value, session) ∧
      ((evaluator amplyManyLevels).runBlock "> xs.push.name\nxs.push.name").run session =
        some (.pass, last) ∧
      last.scope = session.scope ∧ session.heap.Extends last.heap := by
  have hruns : ((Step.evaluate amplyManyLevels "let xs = [1]" >>= fun made => do
      let name ← Step.evaluate amplyManyLevels "xs.push.name"
      return (made.isOk, name)).run Session.new).map Prod.fst =
        some (true, .ok (.string "push")) := by
    decide +kernel
  obtain ⟨⟨answer, _⟩, hrun, hanswer⟩ := Option.map_eq_some_iff.mp hruns
  obtain ⟨made, session, hmade, hrun⟩ := Step.run_bind_eq_some_iff.mp hrun
  obtain ⟨name, after, hname, hrun⟩ := Step.run_bind_eq_some_iff.mp hrun
  cases hrun
  obtain ⟨hok, rfl⟩ := Prod.mk.inj hanswer
  cases made with
  | error reason => cases hok
  | ok value =>
    have hwhole : session.Whole := (Step.evaluate_kept Session.whole_new hmade).closed
    obtain ⟨e, span, hparse, he, haccess⟩ := isReadAccess_iff.mp
      (show isReadAccess "xs.push.name" = true by decide +kernel)
    obtain ⟨heval, -⟩ := (evaluate_expr_iff hparse).mp hname
    obtain ⟨target, key, before, hreads, hread⟩ := Expr.exists_readsAt haccess heval
    have hstored : before.heap.made? target key = none := by
      cases hfunction : before.heap.made? target key with
      | none => rfl
      | some function =>
        -- a function that was made would be no text
        cases made_of_read hread hfunction
    obtain ⟨-, hpass⟩ := (reads_equal_unless_made amplyManyLevels hwhole).2
      "> xs.push.name\nxs.push.name" "xs.push.name" e span target key before _ _
      (by decide +kernel) hparse hreads hread
    obtain ⟨last, hlast⟩ := hpass hstored (.inl he)
    exact ⟨value, session, last, hmade, hlast⟩

/-- A method is no function that is read again. -/
theorem methods_read_twice_differ :
    ((do
      let first ← Eval.property (.string "a") "trim"
      let second ← Eval.property (.string "a") "trim"
      Eval.ofHeap (·.deepEquals first second) : Eval Bool) Session.new.machine).1.toOption =
        some false ∧
      ((Step.define "xs" (.array [.number 1]) >>= fun _ =>
        (evaluator amplyManyLevels).runBlock "> xs.push\nxs.push").run Session.new).map Prod.fst =
          some (.fail (.mismatch "xs.push" "[Function: push]" "[Function: push]")) := by
  decide +kernel

end Evaluator

end Doctest
