import Doctest.Script.Parse

/-!
# What a parser gives

A parser fails, or gives something and the cursor behind what it took. Of two parsers after each
other, the second one runs on what the first one gives.
-/

namespace Doctest.Script

namespace Parser

variable {α β : Type}

theorem bind_apply (x : Parser α) (f : α → Parser β) (c : Cursor) :
    (x >>= f) c = match x c with
      | .ok (a, c') => f a c'
      | .error fault => .error fault := by
  change (x c >>= fun found => f found.1 found.2) = _
  cases x c <;> rfl

theorem bind_of_ok {x : Parser α} {f : α → Parser β} {c c' : Cursor} {a : α}
    (h : x c = .ok (a, c')) : (x >>= f) c = f a c' := by
  rw [bind_apply, h]

theorem exists_of_bind {x : Parser α} {f : α → Parser β} {c c'' : Cursor} {b : β}
    (h : (x >>= f) c = .ok (b, c'')) : ∃ a c', x c = .ok (a, c') ∧ f a c' = .ok (b, c'') := by
  rw [bind_apply] at h
  split at h
  · next a c' hx => exact ⟨a, c', hx, h⟩
  · cases h

/-- Whatever a parser gives, it has a property. -/
def Gives (result : α → Prop) (parser : Parser α) : Prop :=
  ∀ start a last, parser start = .ok (a, last) → result a

namespace Gives

variable {result : α → Prop} {more : β → Prop}

theorem pure {a : α} (h : result a) : Gives result (Pure.pure a) := by
  rintro start _ last ⟨⟩
  exact h

theorem bind {x : Parser α} {f : α → Parser β} (hx : Gives result x)
    (hf : ∀ a, result a → Gives more (f a)) : Gives more (x >>= f) := by
  intro start b last h
  obtain ⟨a, middle, hfirst, hsecond⟩ := exists_of_bind h
  exact hf a (hx start a middle hfirst) middle b last hsecond

/-- A parser of which nothing is known before another one. -/
theorem seq {x : Parser α} {f : α → Parser β} (hf : ∀ a, Gives more (f a)) :
    Gives more (x >>= f) := by
  have hx : Gives (fun _ => True) x := fun _ _ _ _ => trivial
  exact hx.bind fun a _ => hf a

theorem failAt (cause : FaultCause) (span : Span) : Gives result (Parser.failAt cause span) :=
  nofun

theorem failHere : Gives result (Parser.failHere : Parser α) :=
  seq fun _ => failAt _ _

theorem failDeep : Gives result (Parser.failDeep : Parser α) :=
  seq fun _ => failAt _ _

end Gives

end Parser

end Doctest.Script
