import Doctest.Proofs.Script.Parsing.Operands
import Mathlib.Data.List.Forall2

/-!
# Tokens between brackets

Items, keys with their values, arguments and parameters are read one after the other up to a closing
bracket. With what stands between brackets known, the arrays, objects, calls, groups and arrow
functions are known that are made of it.
-/

namespace Doctest.Script.Parser

variable {own rest : List TokenKind} {result : Expr → Prop} {c : Cursor} {k : TokenKind}
  {fuel : Nat} {inBody : Bool}

/-! ### Lists -/

/-- Tokens of items with commas between them. -/
def separated : List (List TokenKind) → List TokenKind
  | [] => []
  | [own] => own
  | own :: next :: rest => own ++ .symbol .comma :: separated (next :: rest)

section Lists

variable {ι : Type} {own : ι → List TokenKind}

theorem separated_cons (first next : List TokenKind) (others : List (List TokenKind)) :
    separated (first :: next :: others) = first ++ .symbol .comma :: separated (next :: others) :=
  rfl

theorem head?_separated_ne {other : TokenKind} {items : List ι}
    (h : ∀ i ∈ items, ∃ k more, own i = k :: more ∧ k ≠ other) {behind : List TokenKind}
    (hbehind : behind.head? ≠ some other) :
    (separated (items.map own) ++ behind).head? ≠ some other := by
  cases items with
  | nil => exact hbehind
  | cons i items =>
    obtain ⟨k, more, hown, hne⟩ := h i List.mem_cons_self
    have hhead : some k ≠ some other := fun heq => hne (Option.some.inj heq)
    cases items with
    | nil => rwa [List.map_cons, List.map_nil, separated, hown]
    | cons next items => rwa [List.map_cons, List.map_cons, separated_cons, hown]

theorem enclosed_separated {all : List (List TokenKind)} (h : ∀ own ∈ all, Enclosed own) :
    Enclosed (separated all) := by
  induction all with
  | nil => exact .nil
  | cons own all ih =>
    obtain ⟨hown, hothers⟩ := List.forall_mem_cons.mp h
    cases all with
    | nil => exact hown
    | cons next all => exact hown.between ⟨nofun, nofun, nofun⟩ (ih hothers)

/-- What an expression begins with is no token with which none begins. -/
theorem IsExpr.head_ne {own : List TokenKind} (h : IsExpr own result) {other : TokenKind}
    (hother : other.begins = false) : ∃ k more, own = k :: more ∧ k ≠ other := by
  obtain ⟨k, more, hown, hbegins⟩ := h.head
  exact ⟨k, more, hown, TokenKind.ne_of_begins hbegins hother⟩

theorem elements_reads {result : ι → Expr → Prop} {items : List ι}
    (h : ∀ i ∈ items, IsExpr (own i) (result i)) (close : Symbol)
    (hclose : (TokenKind.symbol close).ends = true) (hcomma : close ≠ .comma)
    (hc : c.kinds = separated (items.map own) ++ .symbol close :: rest)
    (hfuel : 10 * (separated (items.map own)).length + 5 ≤ fuel) :
    Reads (.symbol close :: rest) (List.Forall₂ result items) c (elements fuel inBody close) := by
  have hnot : (TokenKind.symbol close).begins = false := by
    cases close <;> first | rfl | cases hclose
  induction items generalizing c fuel with
  | nil =>
    obtain ⟨fuel, rfl, -⟩ := exists_level hfuel
    rw [elements]
    exact .sees_of hc (.pure hc .nil)
  | cons i items ih =>
    obtain ⟨fuel, rfl, hlevels⟩ := exists_level hfuel
    have hi := h i List.mem_cons_self
    have hothers := fun j hj => h j (List.mem_cons_of_mem i hj)
    obtain ⟨first, more, hown, hbegins⟩ := hi.head
    rw [elements]
    cases items with
    | nil =>
      have hc : c.kinds = own i ++ .symbol close :: rest := hc
      have hfirst : c.kinds = first :: (more ++ .symbol close :: rest) := by
        rw [hc, hown, List.cons_append]
      refine .sees_of_ne hfirst (TokenKind.ne_of_begins hbegins hnot) ?_
      refine (hi.reads hclose hc hlevels).bind fun e c hc he => ?_
      refine .skipNewlines hc nofun fun c hc => ?_
      refine .accept_of_ne hc (fun heq => hcomma (TokenKind.symbol.inj heq)) ?_
      exact .pure hc (.cons he .nil)
    | cons next items =>
      rw [List.map_cons, List.map_cons, separated_cons, List.append_assoc, List.cons_append,
        ← List.map_cons] at hc
      rw [List.map_cons, List.map_cons, separated_cons, List.length_append, List.length_cons,
        ← List.map_cons] at hlevels
      have hfirst : c.kinds = first :: (more ++ .symbol .comma ::
          (separated ((next :: items).map own) ++ .symbol close :: rest)) := by
        rw [hc, hown, List.cons_append]
      refine .sees_of_ne hfirst (TokenKind.ne_of_begins hbegins hnot) ?_
      refine (hi.reads rfl hc (by omega)).bind fun e c hc he => ?_
      refine .skipNewlines hc nofun fun c hc => ?_
      refine .accept_of hc fun c hc => ?_
      refine .skipNewlines hc (head?_separated_ne (fun j hj => (hothers j hj).head_ne rfl) nofun)
        fun c hc => ?_
      exact (ih hothers hc (by omega)).bind fun es c hc hes => .pure hc (.cons he hes)

/-- The key that a token is in an object: words of every sort are keys. -/
def keyOf? : TokenKind → Option String
  | .string s => some s
  | .number x => some (Number.keyText x)
  | k => propertyName? k

theorem ne_of_keyOf? {k other : TokenKind} {name : String} (h : keyOf? k = some name)
    (hother : keyOf? other = none) : k ≠ other := by
  rintro rfl
  rw [hother] at h
  cases h

theorem objectKey_reads {name : String} (hname : keyOf? k = some name) (hc : c.kinds = k :: rest) :
    Reads rest (fun found => found.1 = name) c objectKey := by
  rw [objectKey]
  refine .get ?_
  dsimp only
  rw [Cursor.current_kind, Cursor.kindAt_zero_of_kinds hc]
  cases k with
  | string | number | ident =>
    cases hname
    exact .advance hc nofun fun c hc => .pure hc rfl
  | bool | null | undefined | keyword =>
    exact (Reads.propertyName hc hname).bind fun found c hc heq => .pure hc heq
  | _ => cases hname

/-- The tokens of a key and its value. -/
abbrev keyed (key : ι → TokenKind) (own : ι → List TokenKind) (i : ι) : List TokenKind :=
  key i :: .symbol .colon :: own i

theorem properties_reads {key : ι → TokenKind} {name : ι → String} {result : ι → Expr → Prop}
    {items : List ι} (hkey : ∀ i ∈ items, keyOf? (key i) = some (name i))
    (h : ∀ i ∈ items, IsExpr (own i) (result i))
    (hc : c.kinds = separated (items.map (keyed key own)) ++ .symbol .rbrace :: rest)
    (hfuel : 10 * (separated (items.map (keyed key own))).length + 5 ≤ fuel) :
    Reads (.symbol .rbrace :: rest)
      (List.Forall₂ (fun i property => property.1 = name i ∧ result i property.2) items) c
      (properties fuel inBody) := by
  induction items generalizing c fuel with
  | nil =>
    obtain ⟨fuel, rfl, -⟩ := exists_level hfuel
    rw [properties]
    exact .sees_of hc (.pure hc .nil)
  | cons i items ih =>
    obtain ⟨fuel, rfl, hlevels⟩ := exists_level hfuel
    have hi := h i List.mem_cons_self
    have hname := hkey i List.mem_cons_self
    have hothers := fun j hj => h j (List.mem_cons_of_mem i hj)
    have hkeys := fun j hj => hkey j (List.mem_cons_of_mem i hj)
    rw [properties]
    cases items with
    | nil =>
      have hc : c.kinds = key i :: .symbol .colon :: (own i ++ .symbol .rbrace :: rest) := hc
      have hlevels : 10 * ((own i).length + 2) + 4 ≤ fuel := hlevels
      refine .sees_of_ne hc (ne_of_keyOf? hname rfl) ?_
      refine (objectKey_reads hname hc).bind fun found c hc hfound => ?_
      dsimp only
      refine .accept_of hc fun c hc => ?_
      refine .skipNewlines hc (hi.head?_ne _ rfl) fun c hc => ?_
      refine (hi.reads rfl hc (by omega)).bind fun e c hc he => ?_
      refine .skipNewlines hc nofun fun c hc => ?_
      exact .accept_of_ne hc nofun (.pure hc (.cons ⟨hfound, he⟩ .nil))
    | cons next items =>
      rw [List.map_cons, List.map_cons, separated_cons, List.append_assoc, List.cons_append,
        ← List.map_cons] at hc
      rw [List.map_cons, List.map_cons, separated_cons, List.length_append, List.length_cons,
        ← List.map_cons, List.length_cons, List.length_cons] at hlevels
      have hc : c.kinds = key i :: .symbol .colon :: (own i ++ .symbol .comma ::
        (separated ((next :: items).map (keyed key own)) ++ .symbol .rbrace :: rest)) := hc
      refine .sees_of_ne hc (ne_of_keyOf? hname rfl) ?_
      refine (objectKey_reads hname hc).bind fun found c hc hfound => ?_
      dsimp only
      refine .accept_of hc fun c hc => ?_
      refine .skipNewlines hc (hi.head?_ne _ rfl) fun c hc => ?_
      refine (hi.reads rfl hc (by omega)).bind fun e c hc he => ?_
      refine .skipNewlines hc nofun fun c hc => ?_
      refine .accept_of hc fun c hc => ?_
      refine .skipNewlines hc
        (head?_separated_ne (fun j hj => ⟨_, _, rfl, ne_of_keyOf? (hkeys j hj) rfl⟩) nofun)
        fun c hc => ?_
      refine (ih hkeys hothers hc (by omega)).bind fun es c hc hes => ?_
      exact .pure hc (.cons ⟨hfound, he⟩ hes)

/-- Arguments between parentheses. -/
theorem arguments_reads {result : ι → Expr → Prop} {args : List ι}
    (h : ∀ i ∈ args, IsExpr (own i) (result i))
    (hc : c.kinds = .symbol .lparen :: (separated (args.map own) ++ .symbol .rparen :: rest))
    (hfuel : 10 * (separated (args.map own)).length + 6 ≤ fuel) :
    Reads rest (List.Forall₂ result args) c (arguments fuel inBody) := by
  obtain ⟨fuel, rfl, hlevels⟩ := exists_level hfuel
  rw [arguments]
  refine .expect hc fun _ c hc => ?_
  refine .skipNewlines hc ?_ fun c hc => ?_
  · exact head?_separated_ne (fun i hi => (h i hi).head_ne rfl) nofun
  refine (elements_reads h .rparen rfl nofun hc hlevels).bind fun es c hc hes => ?_
  exact .expect hc fun _ c hc => .pure hc hes

/-! ### Suffixes -/

namespace IsPrimary

variable {own : List TokenKind} (h : IsPrimary own result)
include h

theorem member {name : String} (hname : propertyName? k = some name) :
    IsOperand (own ++ [.symbol .dot, k]) fun e =>
      ∃ a span, result a ∧ e = .member a name span where
  head := by
    obtain ⟨first, more, rfl, hbegins⟩ := h.head_begins
    exact ⟨first, _, rfl, hbegins⟩
  noArrow _ hc := by
    rw [List.append_assoc] at hc
    exact h.noArrow (k := .symbol .dot) nofun hc
  reads hclose hc hfuel := by
    rw [List.append_assoc] at hc
    rw [List.length_append] at hfuel
    obtain ⟨fuel, rfl, hlevels⟩ := exists_level hfuel
    obtain ⟨fuel, rfl⟩ : ∃ n, fuel = n + 2 := ⟨fuel - 2, by simp at hlevels; omega⟩
    refine h.reads_unary hc (by omega) fun a c hc ha => ?_
    rw [suffixes]
    refine .kind hc (.advance hc (by simp) fun c hc => ?_)
    refine (Reads.propertyName hc hname).bind fun found c hc heq => .spanFrom fun span => ?_
    exact (suffixes_reads _ hclose hc).mono fun e he => ⟨a, span, ha, heq ▸ he⟩

theorem index {key : List TokenKind} {isKey : Expr → Prop} (hkey : IsExpr key isKey) :
    IsOperand (own ++ .symbol .lbracket :: (key ++ [.symbol .rbracket])) fun e =>
      ∃ a b span, result a ∧ isKey b ∧ e = .index a b span where
  head := by
    obtain ⟨first, more, rfl, hbegins⟩ := h.head_begins
    exact ⟨first, _, rfl, hbegins⟩
  noArrow _ hc := by
    rw [List.append_assoc] at hc
    exact h.noArrow (k := .symbol .lbracket) nofun hc
  reads hclose hc hfuel := by
    rw [List.append_assoc, List.cons_append, List.append_assoc] at hc
    rw [List.length_append, List.length_cons, List.length_append] at hfuel
    obtain ⟨fuel, rfl, hlevels⟩ := exists_level hfuel
    obtain ⟨fuel, rfl⟩ : ∃ n, fuel = n + 2 := ⟨fuel - 2, by omega⟩
    refine h.reads_unary hc (by omega) fun a c hc ha => ?_
    rw [suffixes]
    refine .kind hc (.advance hc (by simp) fun c hc => ?_)
    refine .skipNewlines hc (hkey.head?_ne _ rfl) fun c hc => ?_
    refine (hkey.reads rfl hc (by omega)).bind fun b c hc hb => ?_
    refine .skipNewlines hc (by simp) fun c hc => ?_
    refine .expect hc fun _ c hc => .spanFrom fun span => ?_
    exact (suffixes_reads _ hclose hc).mono fun e he => ⟨a, b, span, ha, hb, he⟩

theorem call {ι : Type} {each : ι → List TokenKind} {isArg : ι → Expr → Prop} {args : List ι}
    (hargs : ∀ i ∈ args, IsExpr (each i) (isArg i)) :
    IsOperand (own ++ .symbol .lparen :: (separated (args.map each) ++ [.symbol .rparen]))
      fun e => ∃ a es span, result a ∧ List.Forall₂ isArg args es ∧ e = .call a es span where
  head := by
    obtain ⟨first, more, rfl, hbegins⟩ := h.head_begins
    exact ⟨first, _, rfl, hbegins⟩
  noArrow _ hc := by
    rw [List.append_assoc] at hc
    exact h.noArrow (k := .symbol .lparen) nofun hc
  reads hclose hc hfuel := by
    rw [List.append_assoc, List.cons_append, List.append_assoc] at hc
    rw [List.length_append, List.length_cons, List.length_append] at hfuel
    obtain ⟨fuel, rfl, hlevels⟩ := exists_level hfuel
    obtain ⟨fuel, rfl⟩ : ∃ n, fuel = n + 2 := ⟨fuel - 2, by omega⟩
    refine h.reads_unary hc (by omega) fun a c hc ha => ?_
    rw [suffixes]
    refine .kind hc ?_
    refine (arguments_reads hargs hc (by omega)).bind fun es c hc hes => .spanFrom fun span => ?_
    exact (suffixes_reads _ hclose hc).mono fun e he => ⟨a, es, span, ha, hes, he⟩

omit h in
theorem calleeSuffixes_reads (callee : Expr) (hc : c.kinds = .symbol .lparen :: rest) :
    Reads (.symbol .lparen :: rest) (· = callee) c (calleeSuffixes (fuel + 1) inBody callee) := by
  rw [calleeSuffixes]
  exact .kind hc (.pure hc rfl)

/-- A construction with arguments. -/
theorem construct {ι : Type} {each : ι → List TokenKind} {isArg : ι → Expr → Prop}
    {args : List ι} (hargs : ∀ i ∈ args, IsExpr (each i) (isArg i)) :
    IsPrimary (.keyword .kwNew ::
        (own ++ .symbol .lparen :: (separated (args.map each) ++ [.symbol .rparen])))
      fun e => ∃ a es span, result a ∧ List.Forall₂ isArg args es ∧ e = .construct a es span where
  head := ⟨_, _, rfl, rfl, rfl⟩
  noArrow _ hc := startsArrow_eq_false hc nofun nofun
  reads := by
    intro fuel inBody c rest hc hfuel
    rw [List.cons_append, List.append_assoc, List.cons_append, List.append_assoc] at hc
    rw [List.length_cons, List.length_append, List.length_cons, List.length_append] at hfuel
    obtain ⟨fuel, rfl⟩ : ∃ n, fuel = n + 3 := ⟨fuel - 3, by omega⟩
    rw [primary]
    refine .get ?_
    dsimp only
    rw [Cursor.current_kind, Cursor.kindAt_zero_of_kinds hc]
    dsimp only
    rw [construction]
    refine .next hc nofun fun _ c hc => ?_
    refine (h.reads hc (by omega)).bind fun a c hc ha => ?_
    refine (calleeSuffixes_reads a hc).bind fun a' c hc heq => ?_
    refine .sees_of hc ?_
    refine (arguments_reads hargs hc (by omega)).bind fun es c hc hes => .spanFrom fun span => ?_
    exact .pure hc ⟨a', es, span, heq ▸ ha, hes, rfl⟩

end IsPrimary

/-! ### Primary expressions -/

theorem isPrimary_atom {make : Span → Expr} (h : k.atom? = some make) :
    IsPrimary [k] fun e => ∃ span, e = make span where
  head := by
    refine ⟨k, [], rfl, ?_⟩
    cases k <;> first | exact ⟨rfl, rfl⟩ | cases h
  noArrow hk hc := by
    cases k with
    | ident name => exact startsArrow_ident hc hk
    | symbol mark => cases h
    | _ => exact startsArrow_eq_false hc nofun nofun
  reads hc hfuel := by
    obtain ⟨fuel, rfl, -⟩ := exists_level (Nat.le_trans (Nat.le_add_left 1 9) hfuel)
    rw [primary]
    refine .get ?_
    dsimp only
    rw [Cursor.current_kind, Cursor.kindAt_zero_of_kinds hc]
    cases k with
    | number | string | bool | null | undefined | ident =>
      cases h
      exact .advance hc nofun fun c hc => .pure hc ⟨_, rfl⟩
    | _ => cases h

/-- An expression in parentheses is that expression. -/
theorem IsExpr.group {own : List TokenKind} (h : IsExpr own result) (hown : Enclosed own) :
    IsPrimary (.symbol .lparen :: (own ++ [.symbol .rparen])) result where
  head := ⟨_, _, rfl, rfl, rfl⟩
  noArrow hk hc := by
    rw [List.cons_append, List.append_assoc] at hc
    rw [startsArrow_group hown hc]
    exact decide_eq_false fun heq => hk (Option.some.inj heq)
  reads := by
    intro fuel inBody c rest hc hfuel
    rw [List.cons_append, List.append_assoc] at hc
    rw [List.length_cons, List.length_append] at hfuel
    obtain ⟨fuel, rfl⟩ : ∃ n, fuel = n + 1 := ⟨fuel - 1, by omega⟩
    rw [primary]
    refine .get ?_
    dsimp only
    rw [Cursor.current_kind, Cursor.kindAt_zero_of_kinds hc]
    refine .advance hc nofun fun c hc => ?_
    refine .skipNewlines hc (h.head?_ne _ rfl) fun c hc => ?_
    refine (h.reads rfl hc (by omega)).bind fun e c hc he => ?_
    refine .skipNewlines hc nofun fun c hc => ?_
    exact .expect hc fun _ c hc => .pure hc he

theorem isPrimary_array {result : ι → Expr → Prop} {items : List ι}
    (h : ∀ i ∈ items, IsExpr (own i) (result i)) :
    IsPrimary (.symbol .lbracket :: (separated (items.map own) ++ [.symbol .rbracket]))
      fun e => ∃ es span, List.Forall₂ result items es ∧ e = .array es span where
  head := ⟨_, _, rfl, rfl, rfl⟩
  noArrow _ hc := startsArrow_eq_false hc nofun nofun
  reads := by
    intro fuel inBody c rest hc hfuel
    rw [List.cons_append, List.append_assoc] at hc
    rw [List.length_cons, List.length_append] at hfuel
    obtain ⟨fuel, rfl⟩ : ∃ n, fuel = n + 1 := ⟨fuel - 1, by omega⟩
    rw [primary]
    refine .get ?_
    dsimp only
    rw [Cursor.current_kind, Cursor.kindAt_zero_of_kinds hc]
    refine .advance hc nofun fun c hc => ?_
    refine .skipNewlines hc (head?_separated_ne (fun i hi => (h i hi).head_ne rfl) nofun)
      fun c hc => ?_
    refine (elements_reads h .rbracket rfl nofun hc (by omega)).bind fun es c hc hes => ?_
    exact .expect hc fun _ c hc => .pure hc ⟨es, _, hes, rfl⟩

theorem isPrimary_object {key : ι → TokenKind} {name : ι → String} {result : ι → Expr → Prop}
    {items : List ι} (hkey : ∀ i ∈ items, keyOf? (key i) = some (name i))
    (h : ∀ i ∈ items, IsExpr (own i) (result i)) :
    IsPrimary (.symbol .lbrace :: (separated (items.map (keyed key own)) ++ [.symbol .rbrace]))
      fun e => ∃ properties span, List.Forall₂ (fun i property => property.1 = name i ∧
        result i property.2) items properties ∧ e = .object properties span where
  head := ⟨_, _, rfl, rfl, rfl⟩
  noArrow _ hc := startsArrow_eq_false hc nofun nofun
  reads := by
    intro fuel inBody c rest hc hfuel
    rw [List.cons_append, List.append_assoc] at hc
    rw [List.length_cons, List.length_append] at hfuel
    obtain ⟨fuel, rfl⟩ : ∃ n, fuel = n + 1 := ⟨fuel - 1, by omega⟩
    rw [primary]
    refine .get ?_
    dsimp only
    rw [Cursor.current_kind, Cursor.kindAt_zero_of_kinds hc]
    refine .advance hc nofun fun c hc => ?_
    refine .skipNewlines hc
      (head?_separated_ne (fun i hi => ⟨_, _, rfl, ne_of_keyOf? (hkey i hi) rfl⟩) nofun)
      fun c hc => ?_
    refine (properties_reads hkey h hc (by omega)).bind fun es c hc hes => ?_
    exact .expect hc fun _ c hc => .pure hc ⟨es, _, hes, rfl⟩

end Lists

/-! ### Arrow functions -/

/-- The tokens of parameters. -/
abbrev named (params : List String) : List TokenKind :=
  separated (params.map fun name => [.ident name])

theorem head?_named_ne {params : List String} {behind : List TokenKind}
    (hbehind : behind.head? ≠ some .newline) :
    (named params ++ behind).head? ≠ some .newline :=
  head?_separated_ne (fun name _ => ⟨.ident name, [], rfl, by nofun⟩) hbehind

theorem plain_of_mem_named {params : List String} : ∀ k ∈ named params, k.Plain := by
  induction params with
  | nil => nofun
  | cons name params ih =>
    cases params with
    | nil =>
      intro k hmem
      obtain rfl := List.mem_singleton.mp hmem
      exact ⟨nofun, nofun, nofun⟩
    | cons next params =>
      intro k hmem
      rcases List.mem_cons.mp hmem with rfl | hmem
      · exact ⟨nofun, nofun, nofun⟩
      rcases List.mem_cons.mp hmem with rfl | hmem
      · exact ⟨nofun, nofun, nofun⟩
      · exact ih k hmem

theorem enclosed_of_plain {own : List TokenKind} (h : ∀ k ∈ own, k.Plain) : Enclosed own := by
  induction own with
  | nil => exact .nil
  | cons k own ih =>
    obtain ⟨hk, hown⟩ := List.forall_mem_cons.mp h
    exact (ih hown).plain hk

theorem parameters_reads {params : List String}
    (hc : c.kinds = named params ++ .symbol .rparen :: rest)
    (hfuel : (named params).length + 1 ≤ fuel) :
    Reads (.symbol .rparen :: rest) (· = params) c (parameters fuel) := by
  induction params generalizing c fuel with
  | nil =>
    obtain ⟨fuel, rfl, -⟩ := exists_level hfuel
    rw [parameters]
    exact .sees_of hc (.pure hc rfl)
  | cons name params ih =>
    obtain ⟨fuel, rfl, hlevels⟩ := exists_level hfuel
    rw [parameters]
    cases params with
    | nil =>
      have hc : c.kinds = .ident name :: .symbol .rparen :: rest := hc
      refine .sees_of_ne hc nofun ?_
      refine (Reads.identifier hc).bind fun found c hc heq => ?_
      refine .skipNewlines hc nofun fun c hc => ?_
      exact .accept_of_ne hc nofun (.pure hc (heq ▸ rfl))
    | cons next params =>
      have hc : c.kinds = .ident name :: .symbol .comma ::
        (named (next :: params) ++ .symbol .rparen :: rest) := hc
      have hlevels : (named (next :: params)).length + 2 ≤ fuel := hlevels
      refine .sees_of_ne hc nofun ?_
      refine (Reads.identifier hc).bind fun found c hc heq => ?_
      refine .skipNewlines hc nofun fun c hc => ?_
      refine .accept_of hc fun c hc => ?_
      refine .skipNewlines hc (head?_named_ne nofun)
        fun c hc => ?_
      refine (ih hc (by omega)).bind fun others c hc heqs => ?_
      exact .pure hc (by rw [heq, heqs])

/-- Parameters between parentheses and an arrow, with whatever body stands behind it. -/
theorem arrow_reads {params : List String} {body : List TokenKind}
    (hc : c.kinds =
      .symbol .lparen :: (named params ++ .symbol .rparen :: .symbol .arrow :: body))
    (hbody : body.head? ≠ some .newline) (hfuel : (named params).length + 1 ≤ fuel)
    (h : ∀ start c', c'.kinds = body → Reads rest result c' do
      if ← Parser.sees .lbrace then
        let stmts ← block fuel true
        return Expr.arrow params (.block stmts) (← Parser.spanFrom start)
      else
        let value ← assignment fuel inBody
        return Expr.arrow params (.expr value) (← Parser.spanFrom start)) :
    Reads rest result c (assignment (fuel + 2) inBody) := by
  have harrow : c.startsArrow = true := by
    rw [startsArrow_group (enclosed_of_plain plain_of_mem_named) hc]
    rfl
  rw [assignment]
  refine .get ?_
  rw [harrow, if_pos rfl, arrow]
  refine .get ?_
  dsimp only
  refine .accept_of hc fun c hc => ?_
  refine .skipNewlines hc (head?_named_ne (by simp)) fun c hc => ?_
  refine (parameters_reads hc hfuel).bind fun found c hc hfound => ?_
  refine .expect hc fun _ c hc => ?_
  rw [hfound, pure_bind]
  refine .expect hc fun _ c hc => ?_
  exact .skipNewlines hc hbody fun c hc => h _ c hc

/-- An arrow function that gives the value of an expression. -/
theorem isExpr_arrow_expr {params : List String} {value : List TokenKind}
    (h : IsExpr value result) (hbrace : value.head? ≠ some (.symbol .lbrace)) :
    IsExpr (.symbol .lparen :: (named params ++ .symbol .rparen :: .symbol .arrow :: value))
      fun e => ∃ a span, result a ∧ e = .arrow params (.expr a) span where
  head := ⟨_, _, rfl, rfl⟩
  reads := by
    intro fuel inBody c close rest hclose hc hfuel
    obtain ⟨first, more, hvalue, -⟩ := h.head
    rw [List.cons_append, List.append_assoc, List.cons_append, List.cons_append] at hc
    rw [List.length_cons, List.length_append, List.length_cons, List.length_cons] at hfuel
    obtain ⟨fuel, rfl⟩ : ∃ n, fuel = n + 2 := ⟨fuel - 2, by omega⟩
    refine arrow_reads hc (h.head?_ne _ rfl) (by omega) fun start c hc => ?_
    have hfirst : c.kinds = first :: (more ++ close :: rest) := by
      rw [hc, hvalue, List.cons_append]
    refine .sees_of_ne hfirst (fun heq => hbrace (by rw [hvalue, heq, List.head?_cons])) ?_
    refine (h.reads hclose hc (by omega)).bind fun a c hc ha => .spanFrom fun span => ?_
    exact .pure hc ⟨a, span, ha, rfl⟩

/-- An arrow function that runs statements. -/
theorem isExpr_arrow_block {params : List String} {body : List TokenKind}
    {isBody : List Stmt → Prop}
    (h : ∀ {fuel c rest}, c.kinds = .symbol .lbrace :: (body ++ rest) →
      10 * (body.length + 1) ≤ fuel → Reads rest isBody c (block fuel true)) :
    IsExpr (.symbol .lparen ::
        (named params ++ .symbol .rparen :: .symbol .arrow :: .symbol .lbrace :: body))
      fun e => ∃ stmts span, isBody stmts ∧ e = .arrow params (.block stmts) span where
  head := ⟨_, _, rfl, rfl⟩
  reads := by
    intro fuel inBody c close rest hclose hc hfuel
    rw [List.cons_append, List.append_assoc, List.cons_append, List.cons_append,
      List.cons_append] at hc
    rw [List.length_cons, List.length_append, List.length_cons, List.length_cons,
      List.length_cons] at hfuel
    obtain ⟨fuel, rfl⟩ : ∃ n, fuel = n + 2 := ⟨fuel - 2, by omega⟩
    refine arrow_reads hc nofun (by omega) fun start c hc => .sees_of hc ?_
    refine (h hc (by omega)).bind fun stmts c hc hstmts => .spanFrom fun span => ?_
    exact .pure hc ⟨stmts, span, hstmts, rfl⟩

end Doctest.Script.Parser
