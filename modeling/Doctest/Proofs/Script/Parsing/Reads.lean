import Doctest.Proofs.Script.Parsing.Mirrors

/-!
# What a parser reads

A parser that stands before some tokens takes the first ones of them, leaves the others, and gives
something with a property. There is one rule for each parser that takes or looks at one token, and
for parsers after each other.
-/

namespace Doctest.Script

/-- Where no line break stands, none is passed over. -/
theorem Cursor.kinds_pastNewlines {c : Cursor} {kinds : List TokenKind} (hc : c.kinds = kinds)
    (hhead : kinds.head? ≠ some .newline) : c.pastNewlines.kinds = kinds := by
  rw [kinds_skipWhile, hc]
  cases kinds with
  | nil => rfl
  | cons k kinds =>
    have hk : k ≠ .newline := fun heq => hhead (congrArg some heq)
    exact List.dropWhile_cons_of_neg (by simpa using hk)

namespace Parser

variable {α β : Type} {rest middle : List TokenKind} {result : α → Prop} {more : β → Prop}
  {c : Cursor} {k : TokenKind} {mark : Symbol}

/-- A parser takes all that stands before `rest`, and what it gives has a property. -/
def Reads (rest : List TokenKind) (result : α → Prop) (c : Cursor) (x : Parser α) : Prop :=
  ∃ a c', x c = .ok (a, c') ∧ c'.kinds = rest ∧ result a

namespace Reads

theorem pure {a : α} (hc : c.kinds = rest) (h : result a) : Reads rest result c (Pure.pure a) :=
  ⟨a, c, rfl, hc, h⟩

theorem mono {x : Parser α} {wider : α → Prop} (hx : Reads rest result c x)
    (h : ∀ a, result a → wider a) : Reads rest wider c x := by
  obtain ⟨a, c', hrun, hrest, ha⟩ := hx
  exact ⟨a, c', hrun, hrest, h a ha⟩

theorem bind {x : Parser α} {f : α → Parser β} (hx : Reads middle result c x)
    (hf : ∀ a c', c'.kinds = middle → result a → Reads rest more c' (f a)) :
    Reads rest more c (x >>= f) := by
  obtain ⟨a, c', hrun, hmiddle, ha⟩ := hx
  obtain ⟨b, c'', hrun', hrest, hb⟩ := hf a c' hmiddle ha
  refine ⟨b, c'', ?_, hrest, hb⟩
  rw [bind_of_ok hrun]
  exact hrun'

/-! ### Looking at the next token -/

theorem get {f : Cursor → Parser β} (h : Reads rest more c (f c)) :
    Reads rest more c (MonadState.get >>= f) :=
  h

theorem kind {f : TokenKind → Parser β} (hc : c.kinds = k :: middle)
    (h : Reads rest more c (f k)) : Reads rest more c (Parser.kind >>= f) := by
  change Reads rest more c (f (c.kindAt 0))
  rwa [Cursor.kindAt_zero_of_kinds hc]

theorem spanFrom {start : Span} {f : Span → Parser β}
    (h : ∀ span, Reads rest more c (f span)) : Reads rest more c (Parser.spanFrom start >>= f) :=
  h _

theorem sees_of {x y : Parser β} (hc : c.kinds = .symbol mark :: middle)
    (h : Reads rest more c x) :
    Reads rest more c (Parser.sees mark >>= fun seen => if seen = true then x else y) := by
  change ∃ b c', (Parser.sees mark >>= fun seen => if seen = true then x else y) c = _ ∧ _
  rw [bind_sees_apply, if_pos (Cursor.kindAt_zero_of_kinds hc)]
  exact h

theorem sees_of_ne {x y : Parser β} (hc : c.kinds = k :: middle) (hk : k ≠ .symbol mark)
    (h : Reads rest more c y) :
    Reads rest more c (Parser.sees mark >>= fun seen => if seen = true then x else y) := by
  change ∃ b c', (Parser.sees mark >>= fun seen => if seen = true then x else y) c = _ ∧ _
  rw [bind_sees_apply, if_neg (Cursor.kindAt_zero_of_kinds hc ▸ hk)]
  exact h

/-! ### Taking the next token -/

theorem advance {f : PUnit → Parser β} (hc : c.kinds = k :: middle) (hk : k ≠ .eof)
    (h : ∀ c', c'.kinds = middle → Reads rest more c' (f ⟨⟩)) :
    Reads rest more c (modify Cursor.advance >>= f) := by
  obtain ⟨behind, hc', hadvance⟩ :=
    Cursor.exists_of_kindAt_zero (Cursor.kindAt_zero_of_kinds hc) hk
  obtain rfl : middle = behind := List.tail_eq_of_cons_eq (hc.symm.trans hc')
  exact h _ hadvance

theorem next {f : Token → Parser β} (hc : c.kinds = k :: middle) (hk : k ≠ .eof)
    (h : ∀ span c', c'.kinds = middle → Reads rest more c' (f ⟨k, span⟩)) :
    Reads rest more c (Parser.next >>= f) := by
  have htoken : c.current = ⟨k, c.current.span⟩ := by
    rw [← Cursor.kindAt_zero_of_kinds hc, ← c.current_kind]
  change Reads rest more c (modify Cursor.advance >>= fun _ => f c.current)
  refine advance hc hk fun c' hc' => ?_
  rw [htoken]
  exact h _ c' hc'

theorem expect {f : Span → Parser β} (hc : c.kinds = .symbol mark :: middle)
    (h : ∀ span c', c'.kinds = middle → Reads rest more c' (f span)) :
    Reads rest more c (Parser.expect mark >>= f) := by
  rw [expect_eq]
  exact sees_of hc (next hc nofun h)

theorem accept_of {x y : Parser β} (hc : c.kinds = .symbol mark :: middle)
    (h : ∀ c', c'.kinds = middle → Reads rest more c' x) :
    Reads rest more c (Parser.accept mark >>= fun taken => if taken = true then x else y) := by
  rw [accept_eq]
  exact sees_of hc (advance hc nofun h)

theorem accept_of_ne {x y : Parser β} (hc : c.kinds = k :: middle)
    (hk : k ≠ .symbol mark) (h : Reads rest more c y) :
    Reads rest more c (Parser.accept mark >>= fun taken => if taken = true then x else y) := by
  rw [accept_eq]
  exact sees_of_ne hc hk h

theorem identifier {name : String} (hc : c.kinds = .ident name :: rest) :
    Reads rest (· = name) c Parser.identifier :=
  kind hc (advance hc nofun fun _ hc' => pure hc' rfl)

theorem propertyName {name : String} (hc : c.kinds = k :: rest)
    (hname : propertyName? k = some name) : Reads rest (· = name) c Parser.propertyName := by
  have hk : k ≠ .eof := by
    rintro rfl
    cases hname
  refine Reads.kind hc ?_
  rw [hname]
  exact advance hc hk fun _ hc' => pure hc' rfl

/-! ### Separators -/

theorem skipNewlines {kinds : List TokenKind} {f : PUnit → Parser β} (hc : c.kinds = kinds)
    (hhead : kinds.head? ≠ some .newline)
    (h : ∀ c', c'.kinds = kinds → Reads rest more c' (f ⟨⟩)) :
    Reads rest more c (Parser.skipNewlines >>= f) :=
  h c.pastNewlines (Cursor.kinds_pastNewlines hc hhead)

theorem skipSeparators {f : PUnit → Parser β}
    (h : ∀ c', c'.kinds = c.kinds.dropWhile TokenKind.separates → Reads rest more c' (f ⟨⟩)) :
    Reads rest more c (Parser.skipSeparators >>= f) :=
  h _ (Cursor.kinds_skipWhile _ _)

theorem separator {f : PUnit → Parser β} (hc : c.kinds = .symbol .semi :: middle)
    (h : ∀ c', c'.kinds = middle → Reads rest more c' (f ⟨⟩)) :
    Reads rest more c (Parser.separator >>= f) := by
  rw [Parser.separator, bind_assoc]
  exact kind hc (advance hc (by simp) h)

end Reads

end Parser

end Doctest.Script
