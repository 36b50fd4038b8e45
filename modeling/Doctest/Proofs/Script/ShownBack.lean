import Doctest.Proofs.Script.FreshScope
import Doctest.Proofs.Script.Parsing.Joining
import Doctest.Proofs.Script.Parsing.Sentences
import Doctest.Proofs.Script.Showing

/-!
# Shown values are read back

A value without circles is shown as a text that is an expression, and evaluating it in parentheses
makes a value with the same structure. Of numbers this takes that their digits read back.
-/

namespace Doctest.Script

open Doctest.Script.Parser (separated keyed)

/-! ### The tokens are an expression that makes the value -/

/-- An expression makes a value that holds data, in every fresh scope. -/
def Expr.Rebuilds (d : Datum) (e : Expr) : Prop :=
  ∀ (invoke : Invoke) (scope : Scope) (start : Machine), scope.IsFresh start.heap →
    Eval.Makes (fun heap => heap.Holds d) start (evalExpr invoke scope e)

section Reading

open Doctest.Script.Parser

theorem Expr.Rebuilds.array {items : List Datum} {exprs : List Expr} {span : Span}
    (h : List.Forall₂ Expr.Rebuilds items exprs) :
    (Expr.array exprs span).Rebuilds (.array items) := by
  intro invoke scope start hfresh
  have hall : Eval.Makes (fun heap => heap.HoldsAll items) start
      (evalExprs invoke scope exprs) := by
    induction h generalizing start with
    | nil => exact .pure trivial
    | cons he _ ih =>
      refine (he invoke scope start hfresh).bind fun value middle hext hvalue => ?_
      refine (ih middle (hfresh.mono hext)).bind fun values last hext' hvalues => .pure ?_
      exact ⟨hvalue.mono hext', hvalues⟩
  exact hall.bind fun values middle _ hvalues => .newArray hvalues

theorem Expr.Rebuilds.object {properties : List (String × Datum)} {exprs : List (String × Expr)}
    {span : Span} (hkeys : (properties.map Prod.fst).Nodup)
    (h : List.Forall₂ (fun property expr : _ × _ => expr.1 = property.1 ∧
      expr.2.Rebuilds property.2) properties exprs) :
    (Expr.object exprs span).Rebuilds (.object properties) := by
  intro invoke scope start hfresh
  have hall : Eval.Makes (fun heap => heap.HoldsUnder properties) start
      (evalProperties invoke scope exprs) := by
    clear hkeys
    induction h generalizing start with
    | nil => exact .pure trivial
    | cons he _ ih =>
      refine (he.2 invoke scope start hfresh).bind fun value middle hext hvalue => ?_
      refine (ih middle (hfresh.mono hext)).bind fun values last hext' hvalues => .pure ?_
      exact ⟨he.1, hvalue.mono hext', hvalues⟩
  refine hall.bind fun entries middle _ hentries => .newObject ?_
  rw [← hentries.keys] at hkeys
  rw [Dict.entries_ofList hkeys]
  exact hentries

/-- A number whose size is a literal or a name comes back with its sign. -/
theorem isOperand_signed {k : TokenKind} {make : Span → Expr} (hk : k.atom? = some make)
    {size : Float} (negative : Bool)
    (h : ∀ span, (make span).Rebuilds (.primitive (.number size) rfl)) :
    IsOperand (signedKinds negative k)
      (Expr.Rebuilds (.primitive (.number (Number.withSign negative size)) rfl)) := by
  cases negative with
  | false =>
    refine ((isPrimary_atom hk).mono ?_).operand
    rintro _ ⟨span, rfl⟩
    exact h span
  | true =>
    refine ((isPrimary_atom hk).operand.unary (k := .symbol .minus) rfl).mono ?_
    rintro _ ⟨_, span', ⟨span, rfl⟩, rfl⟩ invoke scope start hfresh
    refine (h span invoke scope start hfresh).bind fun value middle _ hvalue => ?_
    obtain rfl : value = .number size := hvalue
    exact .ofHeap? rfl rfl

theorem isOperand_number {x : Float} (h : Number.ReadsBack x) :
    IsOperand (numberKinds x) (Expr.Rebuilds (.primitive (.number x) rfl)) := by
  rw [numberKinds]
  cases hparts : Number.Binary.ofFloat x with
  | nan =>
    obtain rfl : x = 0.0 / 0.0 := Number.ofFloat_injective (hparts.trans (by decide))
    have hname (span : Span) :
        (Expr.ident "NaN" span).Rebuilds (.primitive (.number (0.0 / 0.0)) rfl) :=
      fun _ _ _ hfresh => hfresh.value_makes hfresh.nan
    exact isOperand_signed rfl false hname
  | infinite negative =>
    obtain rfl : x = Number.withSign negative (1.0 / 0.0) := by
      apply Number.ofFloat_injective
      rw [hparts]
      cases negative <;> decide
    have hname (span : Span) :
        (Expr.ident "Infinity" span).Rebuilds (.primitive (.number (1.0 / 0.0)) rfl) :=
      fun _ _ _ hfresh => hfresh.value_makes hfresh.infinity
    exact isOperand_signed rfl negative hname
  | finite negative m e =>
    have hsize : x = Number.withSign negative (Number.ofText (sizeText m e)) := by
      by_cases hm : m = 0
      · rw [sizeText, if_pos hm]
        subst hm
        rw [Number.eq_zero_of_mantissa hparts]
        cases negative <;> decide
      · have hback := h (Number.isFinite_of_finite hparts)
          (Number.beq_zero_of_mantissa hm hparts)
        rw [Number.text, hparts] at hback
        dsimp only at hback
        rw [if_neg hm, String.toList_append] at hback
        rw [sizeText, if_neg hm]
        obtain ⟨n, hn⟩ := Number.sizeText_writes m e
        obtain ⟨hplain, hminus⟩ := Number.ofText_writes hn
        rw [hplain]
        cases negative with
        | false => exact hback.symm.trans hplain
        | true => exact hback.symm.trans hminus
    have hoperand := isOperand_signed (k := .number (Number.ofText (sizeText m e))) rfl negative
      fun span invoke scope start hfresh => .pure rfl
    rw [← hsize] at hoperand
    exact hoperand

theorem isOperand_value {value : Value} (hplain : value.isPrimitive = true)
    (h : value.IsReadable) :
    IsOperand value.kinds (Expr.Rebuilds (.primitive value hplain)) := by
  have hatom {k : TokenKind} {make : Span → Expr} (hk : k.atom? = some make)
      (hmake : ∀ span, (make span).Rebuilds (.primitive value hplain)) :
      IsOperand [k] (Expr.Rebuilds (.primitive value hplain)) := by
    refine ((isPrimary_atom hk).mono ?_).operand
    rintro _ ⟨span, rfl⟩
    exact hmake span
  cases value with
  | undefined => exact hatom (k := .undefined) rfl fun _ _ _ _ _ => .pure rfl
  | null => exact hatom (k := .null) rfl fun _ _ _ _ _ => .pure rfl
  | bool b => exact hatom (k := .bool b) rfl fun _ _ _ _ _ => .pure rfl
  | number x => exact isOperand_number h
  | string s => exact hatom (k := .string s) rfl fun _ _ _ _ _ => .pure rfl
  | _ => cases hplain

theorem keyOf?_wordKind (word : String) : keyOf? (wordKind word) = some word := by
  rw [wordKind]
  split
  · next h => rw [h]; rfl
  split
  · next h => rw [h]; rfl
  split
  · next h => rw [h]; rfl
  split
  · next h => rw [h]; rfl
  split
  · next keyword hfound =>
    have htext := List.find?_some hfound
    exact congrArg some (of_decide_eq_true htext)
  · rfl

theorem keyOf?_keyKind (key : String) : keyOf? (keyKind key) = some key := by
  rw [keyKind]
  split
  · exact keyOf?_wordKind key
  · rfl

variable {heap : Heap}

mutual

/-- **The tokens of data are an operand that makes a value with the same structure.** That no object
has a key twice is known of what some value holds. -/
theorem Datum.isOperand {d : Datum} {value : Value} (h : heap.Holds d value)
    (hd : d.IsReadable) : IsOperand d.kinds (Expr.Rebuilds d) := by
  match d, h with
  | .primitive plain hplain, _ => exact isOperand_value hplain hd
  | .array items, ⟨_, _, _, hitems⟩ =>
    rw [Datum.kinds, Datum.kindsIn_eq]
    refine ((isPrimary_array fun d hmem =>
      (Datum.areOperands hitems hd d hmem).expr).mono ?_).operand
    rintro _ ⟨exprs, span, hexprs, rfl⟩
    exact .array hexprs
  | .object properties, ⟨ref, _, _, hproperties⟩ =>
    rw [Datum.kinds, Datum.kindsUnder_eq]
    refine ((isPrimary_object (fun property _ => keyOf?_keyKind property.1)
      fun property hmem =>
        (Datum.areOperandsUnder hproperties hd property hmem).expr).mono ?_).operand
    rintro _ ⟨exprs, span, hexprs, rfl⟩
    refine .object ?_ hexprs
    rw [← hproperties.keys]
    exact (heap.get ref).nodup_keys
termination_by structural d

theorem Datum.areOperands {items : List Datum} {values : List Value}
    (h : heap.HoldsAll items values)
    (hitems : EveryIn Value.IsReadable (fun key => IsQuotable key.toList) items) :
    ∀ d ∈ items, IsOperand d.kinds (Expr.Rebuilds d) := by
  match items, values, h with
  | [], [], _ => exact nofun
  | item :: items, value :: values, h =>
    exact List.forall_mem_cons.mpr
      ⟨Datum.isOperand h.1 hitems.1, Datum.areOperands h.2 hitems.2⟩
termination_by structural items

theorem Datum.areOperandsUnder {properties : List (String × Datum)}
    {entries : List (String × Value)} (h : heap.HoldsUnder properties entries)
    (hproperties : EveryUnder Value.IsReadable (fun key => IsQuotable key.toList) properties) :
    ∀ property ∈ properties, IsOperand property.2.kinds (Expr.Rebuilds property.2) := by
  match properties, entries, h with
  | [], [], _ => exact nofun
  | (key, item) :: properties, entry :: entries, h =>
    exact List.forall_mem_cons.mpr
      ⟨Datum.isOperand h.2.1 hproperties.2.1, Datum.areOperandsUnder h.2.2 hproperties.2.2⟩
termination_by structural properties

end

/-! ### The whole text -/

theorem keyKind_plain (key : String) : (keyKind key).Plain :=
  .of_some (keyOf?_keyKind key) rfl rfl rfl

theorem plain_of_atom {k : TokenKind} {make : Span → Expr} (h : k.atom? = some make) : k.Plain :=
  .of_some h rfl rfl rfl

theorem numberKinds_plain (x : Float) : ∀ k ∈ numberKinds x, k.Plain := by
  have hsigned {k : TokenKind} (hk : k.Plain) (negative : Bool) :
      ∀ k' ∈ signedKinds negative k, k'.Plain := by
    cases negative with
    | false => exact List.forall_mem_singleton.mpr hk
    | true =>
      have hminus : (TokenKind.symbol .minus).unary? = some .neg := rfl
      exact List.forall_mem_cons.mpr
        ⟨.of_some hminus rfl rfl rfl, List.forall_mem_singleton.mpr hk⟩
  rw [numberKinds]
  split
  · exact hsigned (plain_of_atom rfl) false
  · exact hsigned (plain_of_atom rfl) _
  · exact hsigned (plain_of_atom rfl) _

theorem Value.enclosed (value : Value) : Enclosed value.kinds := by
  apply enclosed_of_plain
  have hsingle {k : TokenKind} (hk : k.Plain) : ∀ k' ∈ [k], k'.Plain :=
    List.forall_mem_singleton.mpr hk
  cases value with
  | number x => exact numberKinds_plain x
  | undefined | null | bool b | string s => exact hsingle (plain_of_atom rfl)
  | _ => exact List.forall_mem_nil _

mutual

/-- The tokens of data have no parentheses among them. -/
theorem Datum.enclosed (d : Datum) : Enclosed d.kinds := by
  match d with
  | .primitive value _ => exact value.enclosed
  | .array items =>
    have hitems := enclosed_separated (Datum.enclosedIn items)
    exact .plain ⟨nofun, nofun, nofun⟩ (hitems.between ⟨nofun, nofun, nofun⟩ .nil)
  | .object properties =>
    have hproperties := enclosed_separated (Datum.enclosedUnder properties)
    exact .plain ⟨nofun, nofun, nofun⟩ (hproperties.between ⟨nofun, nofun, nofun⟩ .nil)
termination_by structural d

theorem Datum.enclosedIn (items : List Datum) : ∀ own ∈ kindsIn items, Enclosed own := by
  match items with
  | [] => exact nofun
  | item :: items =>
    exact List.forall_mem_cons.mpr ⟨Datum.enclosed item, Datum.enclosedIn items⟩
termination_by structural items

theorem Datum.enclosedUnder (properties : List (String × Datum)) :
    ∀ own ∈ kindsUnder properties, Enclosed own := by
  match properties with
  | [] => exact nofun
  | (key, item) :: properties =>
    have hentry : Enclosed (keyKind key :: .symbol .colon :: item.kinds) :=
      .plain (keyKind_plain key) (.plain ⟨nofun, nofun, nofun⟩ (Datum.enclosed item))
    exact List.forall_mem_cons.mpr ⟨hentry, Datum.enclosedUnder properties⟩
termination_by structural properties

end

/-- What is shown of a value is, in parentheses, a script of one expression. -/
theorem parse_shown {d : Datum} {value : Value} (h : heap.Holds d value) (hd : d.IsReadable) :
    ∃ e span, e.Rebuilds d ∧
      parse ("(" ++ heap.inspect value ++ ")") = .ok [.expr e span] := by
  have hlevels : heap.count .array + heap.count .object < heap.containers + 1 := by
    rw [Heap.containers]
    omega
  have hspells := Datum.spells h hd (.nil heap d.size) hlevels
  have hscans : Scans ("(" ++ heap.inspect value ++ ")").toList
      (.symbol .lparen :: (d.kinds ++ [.symbol .rparen])) := by
    have htext : ("(" ++ heap.inspect value ++ ")").toList =
        '(' :: (inspectWithin heap (heap.containers + 1) [] value ++ [')']) := by
      have hshown : (heap.inspect value).toList =
          inspectWithin heap (heap.containers + 1) [] value := String.toList_ofList
      rw [String.toList_append, String.toList_append, hshown]
      rfl
    have hbehind : ∀ c ∈ [')'].head?, isStop c = true := by
      rintro _ ⟨⟩
      rfl
    rw [htext]
    exact stands_lparen.scans (hspells.scans hbehind (stands_rparen.scans .done))
  obtain ⟨c, hc, hparse⟩ := exists_cursor hscans
  have hgroup := (Datum.isOperand h hd).expr.group (Datum.enclosed d)
  obtain ⟨program, last, hrun, -, e, span, he, rfl⟩ :=
    hgroup.operand.expr.program_reads (by nofun) hc (Nat.le_add_left 2 _)
      (Nat.add_le_add_left (show 6 ≤ 20 by decide) _)
  exact ⟨e, span, he, hparse _ _ hrun⟩

/-- **What is shown of a value, evaluated in parentheses in a new scope, makes a value with the same
structure.** The value has no circles, its texts and keys are not put between backticks, and the
digits of its numbers read back. -/
theorem runSource_inspect (invoke : Invoke) {d : Datum} {value : Value} (h : heap.Holds d value)
    (hd : d.IsReadable) (start : Machine) :
    Eval.Ends (fun heap => heap.Holds d) start (do
      let scope ← Library.newScope
      runSource invoke scope ("(" ++ heap.inspect value ++ ")")) := by
  refine (newScope_ends start).bind fun scope middle _ hfresh => ?_
  obtain ⟨e, span, he, hparse⟩ := parse_shown h hd
  obtain ⟨made, last, hrun, hext, -, hmade⟩ := he invoke scope middle hfresh
  exact ⟨made, last, (runSource_expr_iff hparse invoke scope).mpr hrun, hext.grows, hmade⟩

/-- An object with a text for a key, a word of the language for another, and an array. -/
def shownSample : Heap :=
  { Heap.empty with
    arrays := #[#[.number (-0.0), .number 2.5e-7, .string "it's", .undefined]]
    objects := #[⟨[("a b", .number (0.0 / 0.0)), ("if", .array ⟨0⟩)], by decide⟩] }

def shownDatum : Datum :=
  .object [("a b", .primitive (.number (0.0 / 0.0)) rfl),
    ("if", .array [.primitive (.number (-0.0)) rfl, .primitive (.number 2.5e-7) rfl,
      .primitive (.string "it's") rfl, .primitive .undefined rfl])]

theorem runSource_inspect_sample :
    shownSample.Holds shownDatum (.object ⟨0⟩) ∧ shownDatum.IsReadable ∧
      Eval.Ends (fun heap => heap.Holds shownDatum) ⟨Heap.empty, 0⟩ (do
        let scope ← Library.newScope
        runSource (fun _ _ => throw .exhausted) scope
          ("(" ++ shownSample.inspect (.object ⟨0⟩) ++ ")")) := by
  have hholds : shownSample.Holds shownDatum (.object ⟨0⟩) :=
    ⟨⟨0⟩, rfl, by decide, rfl, rfl, rfl, ⟨⟨0⟩, rfl, by decide, rfl, rfl, rfl, rfl, trivial⟩,
      trivial⟩
  have hsmall : Number.ReadsBack 2.5e-7 := by
    intro _ _
    decide +kernel
  have hzero : Number.ReadsBack (-0.0) := by
    intro _ hzero
    exact absurd hzero (by decide)
  have hnan : Number.ReadsBack (0.0 / 0.0) := by
    intro hfinite _
    exact absurd hfinite (by decide)
  have hquotable : IsQuotable "a b".toList ∧ IsQuotable "if".toList ∧ IsQuotable "it's".toList := by
    unfold IsQuotable
    decide
  have hreadable : shownDatum.IsReadable :=
    ⟨hquotable.1, hnan, hquotable.2.1, ⟨hzero, hsmall, hquotable.2.2, trivial, trivial⟩, trivial⟩
  exact ⟨hholds, hreadable, runSource_inspect _ hholds hreadable _⟩

end Reading

end Doctest.Script
