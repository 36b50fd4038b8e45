import Doctest.Proofs.Number.Keys
import Doctest.Proofs.Script.Listing
import Doctest.Proofs.Script.Making
import Doctest.Proofs.Script.Parsing.Joining
import Doctest.Proofs.Script.Parsing.Printing
import Doctest.Proofs.Script.Tiling
import Doctest.Script.Session

/-!
# Numbers as keys of objects

An object with a number for a key has a property under the text of the number as a key, and reading
it at the number reads the property under the text that the number converts to. So the value is read
back exactly if the two texts are the same.
-/

namespace Doctest.Script

open Doctest.Script.Parser

variable {x : Float} {v e : Expr} {source : String}

/-- The tokens of an object with a number for its key, which is read at the number. -/
def readAtKey (x : Float) (v : Expr) : List TokenKind :=
  .symbol .lparen :: (.symbol .lbrace :: (.number x :: .symbol .colon :: v.printed ++
    [.symbol .rbrace]) ++ [.symbol .rparen]) ++
    .symbol .lbracket :: ([.number x] ++ [.symbol .rbracket])

/-- The object has the text of the number as a key for its only key. -/
theorem isExpr_readAtKey (hv : v.isPrintable = true) :
    IsExpr (readAtKey x v) fun found => ∃ e s₁ s₂ s₃, v.Like e ∧
      found = .index (.object [(Number.keyText x, e)] s₁) (.number x s₂) s₃ := by
  have hvalue : IsExpr v.printed v.Like := (v.isPrimary hv).operand.expr
  have hkeys : ∀ y ∈ [x], keyOf? (.number y) = some (Number.keyText y) := fun _ _ => rfl
  have hvalues : ∀ y ∈ [x], IsExpr ((fun _ => v.printed) y) ((fun _ => v.Like) y) :=
    fun _ _ => hvalue
  have hobject := isPrimary_object hkeys hvalues
  have hown : Enclosed (.symbol .lbrace ::
      (.number x :: .symbol .colon :: v.printed ++ [.symbol .rbrace])) := by
    have hprinted : Enclosed v.printed := v.enclosed.grouped v.isAtom
    have hnumber : (TokenKind.number x).Plain := by constructor <;> exact TokenKind.noConfusion
    exact .plain (by constructor <;> decide) (.plain hnumber (.plain (by constructor <;> decide)
      (hprinted.between (by constructor <;> decide) .nil)))
  have hkey : IsExpr [.number x] fun found => ∃ span, found = .number x span :=
    (isPrimary_atom rfl).operand.expr
  refine ((hobject.operand.expr.group hown).index hkey).expr.mono ?_
  rintro _ ⟨_, _, s₃, ⟨properties, s₁, hproperties, rfl⟩, ⟨s₂, rfl⟩, rfl⟩
  obtain ⟨⟨key, e⟩, rest, ⟨rfl, he⟩, hrest, rfl⟩ := List.forall₂_cons_left_iff.mp hproperties
  obtain rfl := List.forall₂_nil_left_iff.mp hrest
  exact ⟨e, s₁, s₂, s₃, he, rfl⟩

/-- The tree of a text with such tokens. -/
theorem parse_readAtKey (hv : v.isPrintable = true) (h : Scans source.toList (readAtKey x v)) :
    ∃ e s₁ s₂ s₃ s₄, v.Like e ∧ parse source =
      .ok [.expr (.index (.object [(Number.keyText x, e)] s₁) (.number x s₂) s₃) s₄] := by
  obtain ⟨c, hc, hparse⟩ := exists_cursor h
  obtain ⟨program, last, hrun, -, _, s₄, ⟨e, s₁, s₂, s₃, he, rfl⟩, rfl⟩ :=
    (isExpr_readAtKey hv).program_reads (by nofun) hc (Nat.le_add_left 2 _)
      (Nat.add_le_add_left (show 6 ≤ 20 by decide) _)
  exact ⟨e, s₁, s₂, s₃, s₄, he, hparse _ _ hrun⟩

/-- What the tree gives where its value is known. -/
theorem evalExpr_readAtKey {invoke : Invoke} {scope : Scope} {start middle : Machine}
    {value : Value} (s₁ s₂ s₃ : Span)
    (hvalue : evalExpr invoke scope e start = (.ok value, middle)) :
    evalExpr invoke scope (.index (.object [(Number.keyText x, e)] s₁) (.number x s₂) s₃) start =
      (.ok (if Number.keyText x = Number.text x then value else .undefined),
        ⟨(middle.heap.alloc .object (Dict.ofList [(Number.keyText x, value)])).2,
          middle.depth⟩) := by
  have hproperties : evalProperties invoke scope [(Number.keyText x, e)] start =
      (.ok [(Number.keyText x, value)], middle) := by
    rw [evalProperties, Eval.bind_apply, hvalue]
    rfl
  have hobject : evalExpr invoke scope (.object [(Number.keyText x, e)] s₁) start =
      (.ok (.object ⟨middle.heap.count .object⟩),
        ⟨(middle.heap.alloc .object (Dict.ofList [(Number.keyText x, value)])).2,
          middle.depth⟩) := by
    rw [evalExpr, Eval.bind_apply, hproperties]
    rfl
  have hkey : (Dict.ofList [(Number.keyText x, value)]).get? (Number.text x) =
      if Number.keyText x = Number.text x then some value else none :=
    rfl
  rw [evalExpr, Eval.bind_apply, hobject]
  change (Eval.text (.number x) >>= Eval.property (.object ⟨middle.heap.count .object⟩)) _ = _
  rw [Eval.text_number, pure_bind, Eval.property_object, Heap.get_alloc, if_pos rfl, hkey]
  split <;> rfl

/-- **An object with a number for its key, read at the number.** Its only key is the text of the
number as a key, and the value is read back exactly if that is the text that the number converts to:
if this has no exponent and, for a whole number, all digits, which fit into sixty-four bits. All
whole numbers of at most fifty-three bits are written so. -/
theorem object_read_at_number (hx : x.isFinite = true) (hv : v.isPrintable = true)
    (h : Scans source.toList (readAtKey x v)) :
    (∃ e s₁ s₂ s₃ s₄, v.Like e ∧ parse source =
        .ok [.expr (.index (.object [(Number.keyText x, e)] s₁) (.number x s₂) s₃) s₄] ∧
      ∀ invoke scope start value middle, evalExpr invoke scope e start = (.ok value, middle) →
        runSource invoke scope source start =
          (.ok (if Number.keyText x = Number.text x then value else .undefined),
            ⟨(middle.heap.alloc .object (Dict.ofList [(Number.keyText x, value)])).2,
              middle.depth⟩)) ∧
      (Number.keyText x = Number.text x ↔ 'e' ∉ (Number.text x).toList ∧
        ∀ n, Number.isWhole x = true → Number.truncated? x = some n → Number.IsExact x n) ∧
      ∀ n : Int, Number.isWhole x = true → Number.truncated? x = some n → n.natAbs < 2 ^ 53 →
        Number.IsExact x n := by
  obtain ⟨e, s₁, s₂, s₃, s₄, he, hparse⟩ := parse_readAtKey hv h
  refine ⟨⟨e, s₁, s₂, s₃, s₄, he, hparse, ?_⟩, Number.keyText_eq_text_iff hx,
    fun n => Number.isExact_of_small⟩
  intro invoke scope start value middle hvalue
  exact (runSource_expr_iff hparse invoke scope).mpr (evalExpr_readAtKey s₁ s₂ s₃ hvalue)

theorem scans_of_kinds {own : List TokenKind}
    (h : (tokens source).toOption.map (·.map Token.kind) = some (own ++ [.eof])) :
    Scans source.toList own := by
  obtain ⟨found, htokens, hkinds⟩ := exists_ok_of_map h
  obtain ⟨kinds, hscans, hfound⟩ := exists_scans htokens
  obtain rfl : own = kinds := (List.append_inj' (hkinds.symm.trans hfound) rfl).1
  exact hscans

/-- A number with a fraction reads the value of its key. -/
theorem object_read_at_fraction :
    ∃ program, parse "(\x7b 0.5: 'v' \x7d)[0.5]" = .ok program ∧ ∀ invoke scope start,
      ∃ last, runSource invoke scope "(\x7b 0.5: 'v' \x7d)[0.5]" start =
        (.ok (.string "v"), last) := by
  have hscans : Scans "(\x7b 0.5: 'v' \x7d)[0.5]".toList (readAtKey 0.5 (.string "v" ⟨0, 0⟩)) :=
    scans_of_kinds (by decide +kernel)
  obtain ⟨⟨e, s₁, s₂, s₃, s₄, he, hparse, hrun⟩, hsame, -⟩ :=
    object_read_at_number (by decide +kernel) rfl hscans
  have hkey : Number.keyText 0.5 = Number.text 0.5 :=
    hsame.mpr ⟨by decide +kernel, fun n hwhole => absurd hwhole (by decide +kernel)⟩
  refine ⟨_, hparse, fun invoke scope start => ?_⟩
  have hvalue : evalExpr invoke scope e start = (.ok (.string "v"), start) := by
    cases e <;> simp only [Expr.Like, Expr.mapSpans, reduceCtorEq] at he
    obtain ⟨rfl, -⟩ := Expr.string.inj he
    rfl
  have hlast := hrun invoke scope start _ _ hvalue
  rw [if_pos hkey] at hlast
  exact ⟨_, hlast⟩

/-- Large numbers, small ones and whole ones whose last digits are not written are lost. -/
theorem number_keys_lost :
    (¬ ∀ x : Float, x.isFinite = true → Number.keyText x = Number.text x) ∧
      ∀ source ∈ ["(\x7b 1e21: 'v' \x7d)[1e21]",
          "(\x7b 10000000000000000000: 'v' \x7d)[10000000000000000000]",
          "(\x7b 4611686018427387904: 'v' \x7d)[4611686018427387904]",
          "(\x7b 0.0000001: 'v' \x7d)[0.0000001]"],
        ((Step.evaluate amplyManyLevels source).run Session.new).map Prod.fst =
          some (.ok .undefined) := by
  constructor
  · intro h
    have hlarge := h 1e21 (by decide +kernel)
    revert hlarge
    decide +kernel
  · simp only [List.forall_mem_cons, List.not_mem_nil, false_implies, implies_true, and_true]
    exact ⟨by decide +kernel, by decide +kernel, by decide +kernel, by decide +kernel⟩

end Doctest.Script
