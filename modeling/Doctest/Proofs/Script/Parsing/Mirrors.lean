import Doctest.Proofs.Script.Parsing.Cursors
import Doctest.Proofs.Script.Parsing.Results
import Doctest.Proofs.Script.Spans

/-!
# Two parsers alongside each other

A parser is run on a text that ends and on one that goes on. Where it takes something of the first
one, it takes the same of the second one, and gives the same but for the spans. The parentheses that
it takes are balanced, so that a group that opens in the first text and is taken is closed in it.
-/

namespace Doctest.Script

/-- No place in a source. -/
def noSpan (_ : Span) : Span :=
  ⟨0, 0⟩

/-- Where so many more parentheses are to be closed than opened, so many more are to be behind a
token. -/
inductive TokenKind.Passes : TokenKind → Nat → Nat → Prop
  | plain {kind : TokenKind} {depth : Nat} (h : kind.Plain) : Passes kind depth depth
  | lparen {depth : Nat} : Passes (.symbol .lparen) depth (depth + 1)
  | rparen {depth : Nat} : Passes (.symbol .rparen) (depth + 1) depth

theorem TokenKind.Passes.ne_eof {kind : TokenKind} {depth inner : Nat}
    (h : kind.Passes depth inner) : kind ≠ .eof := by
  cases h with
  | plain h => exact h.eof
  | lparen | rparen => nofun

/-- On the way from a cursor to another one so many more parentheses are closed than opened. -/
def Cursor.Takes (depth : Nat) (c c' : Cursor) : Prop :=
  ∃ own, c.kinds = own ++ c'.kinds ∧ Closing depth own

theorem Closing.of_plain {own : List TokenKind} (h : ∀ kind ∈ own, kind.Plain) : Closing 0 own := by
  induction own with
  | nil => exact .nil
  | cons kind own ih =>
    obtain ⟨hkind, hown⟩ := List.forall_mem_cons.mp h
    exact (ih hown).plain hkind

namespace Cursor.Takes

variable {c c' c'' : Cursor} {depth inner : Nat}

theorem refl (c : Cursor) : c.Takes 0 c :=
  ⟨[], rfl, .nil⟩

theorem trans (h : c.Takes inner c') (h' : c'.Takes depth c'') : c.Takes (inner + depth) c'' := by
  obtain ⟨own, hc, hown⟩ := h
  obtain ⟨own', hc', hown'⟩ := h'
  exact ⟨own ++ own', by rw [hc, hc', List.append_assoc], hown.append hown'⟩

theorem passing {kind : TokenKind} (hkind : kind.Passes depth inner)
    (hc : c.kinds = kind :: c.advance.kinds) (h : c.advance.Takes inner c') : c.Takes depth c' := by
  obtain ⟨own, hadvance, hown⟩ := h
  refine ⟨kind :: own, by rw [hc, hadvance, List.cons_append], ?_⟩
  cases hkind with
  | plain hplain => exact hown.plain hplain
  | lparen => exact hown.lparen
  | rparen => exact hown.rparen

theorem skipWhile {skips : TokenKind → Bool} (hskips : ∀ kind, skips kind = true → kind.Plain)
    (h : (c.skipWhile skips).Takes depth c') : c.Takes depth c' := by
  have hpassed : c.Takes 0 (c.skipWhile skips) := by
    refine ⟨c.kinds.takeWhile skips, ?_, .of_plain fun kind hmem => ?_⟩
    · rw [kinds_skipWhile, List.takeWhile_append_dropWhile]
    · exact hskips kind (List.mem_takeWhile_imp hmem)
  simpa using hpassed.trans h

end Cursor.Takes

namespace Parser

variable {α β γ δ : Type}

theorem bind_get_apply (f : Cursor → Parser β) (c : Cursor) :
    ((MonadState.get : Parser Cursor) >>= f) c = f c c :=
  rfl

theorem bind_kind_apply (f : TokenKind → Parser β) (c : Cursor) :
    (Parser.kind >>= f) c = f (c.kindAt 0) c :=
  rfl

theorem bind_skipNewlines_apply (f : PUnit → Parser β) (c : Cursor) :
    (Parser.skipNewlines >>= f) c = f ⟨⟩ c.pastNewlines :=
  rfl

theorem bind_skipSeparators_apply (f : PUnit → Parser β) (c : Cursor) :
    (Parser.skipSeparators >>= f) c = f ⟨⟩ (c.skipWhile TokenKind.separates) :=
  rfl

theorem bind_advance_apply (f : PUnit → Parser β) (c : Cursor) :
    (modify Cursor.advance >>= f) c = f ⟨⟩ c.advance :=
  rfl

theorem bind_sees_apply (mark : Symbol) (x x' : Parser β) (c : Cursor) :
    (Parser.sees mark >>= fun seen => if seen = true then x else x') c =
      (if c.kindAt 0 = .symbol mark then x else x') c := by
  change (if decide (c.kindAt 0 = .symbol mark) = true then x else x') c = _
  simp only [decide_eq_true_eq]

theorem expect_eq (mark : Symbol) (f : Span → Parser β) :
    Parser.expect mark >>= f =
      Parser.sees mark >>= fun seen => if seen = true then Parser.next >>= fun token => f token.span
        else Parser.failHere := by
  rw [Parser.expect, bind_assoc]
  refine bind_congr fun seen => ?_
  cases seen <;> rfl

theorem accept_eq (mark : Symbol) (x y : Parser β) :
    (Parser.accept mark >>= fun taken => if taken = true then x else y) =
      Parser.sees mark >>= fun seen => if seen = true then modify Cursor.advance >>= fun _ => x
        else y := by
  rw [Parser.accept, bind_assoc]
  refine bind_congr fun seen => ?_
  cases seen <;> rfl

/-- What a parser takes of a text that ends another one takes of a text that goes on, where they see
the same of what they give. So many more parentheses are closed than opened on the way. -/
def Mirrors (more : Option (List TokenKind)) (depth : Nat) (view : α → γ) (c d : Cursor)
    (x y : Parser α) : Prop :=
  ∀ a c', x c = .ok (a, c') → c.Takes depth c' ∧
    ∃ b d', y d = .ok (b, d') ∧ view a = view b ∧ Beside more c'.kinds d'.kinds

namespace Mirrors

variable {more : Option (List TokenKind)} {depth : Nat} {view : β → γ} {c d : Cursor}

/-! ### Parsers in general -/

theorem of_fails {x y : Parser β} (h : ∀ b c', x c ≠ .ok (b, c')) :
    Mirrors more depth view c d x y :=
  fun b c' hx => absurd hx (h b c')

theorem failAt (cause : FaultCause) (span : Span) (y : Parser β) :
    Mirrors more depth view c d (Parser.failAt cause span) y :=
  of_fails nofun

theorem failHere (y : Parser β) : Mirrors more depth view c d Parser.failHere y :=
  of_fails nofun

theorem failDeep (y : Parser β) : Mirrors more depth view c d Parser.failDeep y :=
  of_fails nofun

theorem pure (h : Beside more c.kinds d.kinds) {b b' : β} (hview : view b = view b') :
    Mirrors more 0 view c d (Pure.pure b) (Pure.pure b') := by
  rintro _ _ ⟨⟩
  exact ⟨.refl c, b', d, rfl, hview, h⟩

/-- Two parsers after each other; the first one takes balanced parentheses only. -/
theorem bind {viewed : α → δ} {x y : Parser α} {f g : α → Parser β}
    (hx : Mirrors more 0 viewed c d x y)
    (hf : ∀ a a' c' d', viewed a = viewed a' → Beside more c'.kinds d'.kinds →
      Mirrors more depth view c' d' (f a) (g a')) :
    Mirrors more depth view c d (x >>= f) (y >>= g) := by
  intro b c'' hrun
  obtain ⟨a, c', hfirst, hsecond⟩ := exists_of_bind hrun
  obtain ⟨htakes, a', d', hy, hviewed, hbeside⟩ := hx a c' hfirst
  obtain ⟨htakes', b', d'', hg, hview, hbeside'⟩ := hf a a' c' d' hviewed hbeside b c'' hsecond
  refine ⟨by simpa using htakes.trans htakes', b', d'', ?_, hview, hbeside'⟩
  rw [bind_of_ok hy]
  exact hg

/-- Only what the first parser gives is asked for. -/
theorem of_ok {x : Parser α} {f : α → Parser β} {y : Parser β}
    (h : ∀ a c', x c = .ok (a, c') → Mirrors more depth view c d (x >>= f) y) :
    Mirrors more depth view c d (x >>= f) y := by
  intro b last hrun
  obtain ⟨a, c', hx, -⟩ := exists_of_bind hrun
  exact h a c' hx b last hrun

theorem get {f g : Cursor → Parser β} (h : Mirrors more depth view c d (f c) (g d)) :
    Mirrors more depth view c d (MonadState.get >>= f) (MonadState.get >>= g) :=
  h

theorem cond {p : Prop} [Decidable p] {x x' y y' : Parser β}
    (hyes : p → Mirrors more depth view c d x y) (hno : ¬ p → Mirrors more depth view c d x' y') :
    Mirrors more depth view c d (if p then x else x') (if p then y else y') := by
  split
  · next h => exact hyes h
  · next h => exact hno h

/-! ### Tokens that are taken -/

/-- Parsers that go on from other cursors. -/
theorem of_takes {inner : Nat} {c' d' : Cursor} {x y x' y' : Parser β} (hx : x c = x' c')
    (hy : y d = y' d') (htakes : ∀ {last}, c'.Takes inner last → c.Takes depth last)
    (h : Mirrors more inner view c' d' x' y') : Mirrors more depth view c d x y := by
  intro b last hrun
  obtain ⟨hinner, b', other, hy', hview, hbeside⟩ := h b last (hx ▸ hrun)
  exact ⟨htakes hinner, b', other, hy.trans hy', hview, hbeside⟩

theorem plain_of_newline (kind : TokenKind) (h : decide (kind = .newline) = true) : kind.Plain := by
  rw [of_decide_eq_true h]
  exact ⟨nofun, nofun, nofun⟩

theorem skipNewlines {f g : PUnit → Parser β} (h : Beside more c.kinds d.kinds)
    (hf : ∀ c' d', Beside more c'.kinds d'.kinds → Mirrors more depth view c' d' (f ⟨⟩) (g ⟨⟩)) :
    Mirrors more depth view c d (Parser.skipNewlines >>= f) (Parser.skipNewlines >>= g) := by
  refine of_takes ?_ ?_ (.skipWhile plain_of_newline) (hf _ _ h.pastNewlines) <;> rfl

theorem advance {inner : Nat} {kind : TokenKind} {f g : PUnit → Parser β}
    (h : Beside more c.kinds d.kinds) (hkind : c.kindAt 0 = kind)
    (hpasses : kind.Passes depth inner)
    (hf : ∀ c' d', Beside more c'.kinds d'.kinds → Mirrors more inner view c' d' (f ⟨⟩) (g ⟨⟩)) :
    Mirrors more depth view c d (modify Cursor.advance >>= f) (modify Cursor.advance >>= g) := by
  obtain ⟨-, hc, hrest⟩ := h.advance hkind hpasses.ne_eof
  refine of_takes ?_ ?_ (.passing hpasses hc) (hf _ _ hrest) <;> rfl

/-- Parsers before which line breaks may be passed over. -/
theorem skipNewlines_if {p : Prop} [Decidable p] {f g : PUnit → Parser β}
    (h : Beside more c.kinds d.kinds)
    (hf : ∀ c' d', Beside more c'.kinds d'.kinds → Mirrors more depth view c' d' (f ⟨⟩) (g ⟨⟩)) :
    Mirrors more depth view c d (if p then Parser.skipNewlines >>= f else f ⟨⟩)
      (if p then Parser.skipNewlines >>= g else g ⟨⟩) :=
  cond (fun _ => skipNewlines h hf) fun _ => hf c d h

/-- Line breaks are passed over up to a token that is taken. -/
theorem skipNewlines_advance {inner : Nat} {kind : TokenKind} {f g : PUnit → Parser β}
    (h : Beside more c.kinds d.kinds) (hkind : c.kindPastNewlines = kind)
    (hpasses : kind.Passes depth inner)
    (hf : ∀ c' d', Beside more c'.kinds d'.kinds → Mirrors more inner view c' d' (f ⟨⟩) (g ⟨⟩)) :
    Mirrors more depth view c d (Parser.skipNewlines >>= fun _ => modify Cursor.advance >>= f)
      (Parser.skipNewlines >>= fun _ => modify Cursor.advance >>= g) := by
  rw [Cursor.kindPastNewlines_eq] at hkind
  refine of_takes ?_ ?_ (.skipWhile plain_of_newline) (advance h.pastNewlines hkind hpasses hf) <;>
    rfl

theorem next {inner : Nat} {kind : TokenKind} {f g : Token → Parser β}
    (h : Beside more c.kinds d.kinds) (hkind : c.kindAt 0 = kind)
    (hpasses : kind.Passes depth inner)
    (hf : ∀ span span' c' d', Beside more c'.kinds d'.kinds →
      Mirrors more inner view c' d' (f ⟨kind, span⟩) (g ⟨kind, span'⟩)) :
    Mirrors more depth view c d (Parser.next >>= f) (Parser.next >>= g) := by
  obtain ⟨hdkind, hc, hrest⟩ := h.advance hkind hpasses.ne_eof
  have htoken (cursor : Cursor) (hseen : cursor.kindAt 0 = kind) :
      ⟨kind, cursor.current.span⟩ = cursor.current := by
    rw [← hseen, ← cursor.current_kind]
  have hmirrors := hf c.current.span d.current.span _ _ hrest
  rw [htoken c hkind, htoken d hdkind] at hmirrors
  refine of_takes ?_ ?_ (.passing hpasses hc) hmirrors <;> rfl

/-! ### Tokens that are seen -/

theorem spanFrom {start start' : Span} {f g : Span → Parser β}
    (hf : ∀ span span', Mirrors more depth view c d (f span) (g span')) :
    Mirrors more depth view c d (Parser.spanFrom start >>= f) (Parser.spanFrom start' >>= g) :=
  hf _ _

/-- Both do something about the same kind of token, or the first one about the end. -/
theorem kind_cases {f g : TokenKind → Parser β} (h : Beside more c.kinds d.kinds)
    (hsame : ∀ k, k ≠ .eof → c.kindAt 0 = k → Mirrors more depth view c d (f k) (g k))
    (hend : c.kindAt 0 = .eof → ∀ k, Seen .eof k → Mirrors more depth view c d (f .eof) (g k)) :
    Mirrors more depth view c d (Parser.kind >>= f) (Parser.kind >>= g) := by
  change Mirrors more depth view c d (f (c.kindAt 0)) (g (d.kindAt 0))
  have hseen := h.seen
  by_cases heof : c.kindAt 0 = .eof
  · rw [heof] at hseen ⊢
    exact hend heof _ hseen
  · rw [(h.advance rfl heof).1]
    exact hsame _ heof rfl

/-- A parser that does the same at the end as it does at a separator. -/
theorem kind {f g : TokenKind → Parser β} (h : Beside more c.kinds d.kinds)
    (hfeed : g .newline = g .eof) (hsemi : g (.symbol .semi) = g .eof)
    (hf : ∀ k, c.kindAt 0 = k → Mirrors more depth view c d (f k) (g k)) :
    Mirrors more depth view c d (Parser.kind >>= f) (Parser.kind >>= g) := by
  refine kind_cases h (fun k _ hk => hf k hk) fun heof k hseen => ?_
  have hg : g k = g .eof := by
    cases hseen with
    | same => rfl
    | feed => exact hfeed
    | semi => exact hsemi
  rw [hg]
  exact hf .eof heof

/-- A symbol is seen by both or by neither. -/
theorem sees_iff {mark : Symbol} (h : Beside more c.kinds d.kinds) (hmark : mark ≠ .semi) :
    d.kindAt 0 = .symbol mark ↔ c.kindAt 0 = .symbol mark := by
  have hseen := h.seen
  generalize c.kindAt 0 = k at hseen
  generalize d.kindAt 0 = k' at hseen
  cases hseen with
  | same => rfl
  | feed => exact iff_of_false nofun nofun
  | semi =>
    refine iff_of_false (fun hsemi => ?_) nofun
    injection hsemi with hsemi
    exact hmark hsemi.symm

theorem sees {mark : Symbol} {x y x' y' : Parser β} (h : Beside more c.kinds d.kinds)
    (hmark : mark ≠ .semi) (hyes : c.kindAt 0 = .symbol mark → Mirrors more depth view c d x y)
    (hno : Mirrors more depth view c d x' y') :
    Mirrors more depth view c d (Parser.sees mark >>= fun seen => if seen = true then x else x')
      (Parser.sees mark >>= fun seen => if seen = true then y else y') := by
  refine of_takes (bind_sees_apply mark x x' c) (bind_sees_apply mark y y' d) id ?_
  simp only [sees_iff h hmark]
  exact cond hyes fun _ => hno

/-- A symbol is taken by both or by neither. -/
theorem accept {inner : Nat} {mark : Symbol} {x y x' y' : Parser β}
    (h : Beside more c.kinds d.kinds) (hmark : mark ≠ .semi)
    (hpasses : (TokenKind.symbol mark).Passes depth inner)
    (hyes : ∀ c' d', Beside more c'.kinds d'.kinds → Mirrors more inner view c' d' x y)
    (hno : Mirrors more depth view c d x' y') :
    Mirrors more depth view c d (Parser.accept mark >>= fun taken => if taken = true then x else x')
      (Parser.accept mark >>= fun taken => if taken = true then y else y') := by
  rw [accept_eq, accept_eq]
  exact sees h hmark (fun hkind => advance h hkind hpasses hyes) hno

/-- A symbol has to be taken. -/
theorem expect {inner : Nat} {mark : Symbol} {f g : Span → Parser β}
    (h : Beside more c.kinds d.kinds) (hmark : mark ≠ .semi)
    (hpasses : (TokenKind.symbol mark).Passes depth inner)
    (hf : ∀ span span' c' d', Beside more c'.kinds d'.kinds →
      Mirrors more inner view c' d' (f span) (g span')) :
    Mirrors more depth view c d (Parser.expect mark >>= f) (Parser.expect mark >>= g) := by
  rw [expect_eq, expect_eq]
  exact sees h hmark (fun hkind => next h hkind hpasses fun _ _ c' d' => hf _ _ c' d') (failHere _)

/-! ### Separators -/

/-- Separators are passed over, unless that leads to the end, where the first parser fails. -/
theorem skipSeparators {f g : PUnit → Parser β} (h : Beside more c.kinds d.kinds)
    (hend : ∀ c' b last, c'.kindAt 0 = .eof → f ⟨⟩ c' ≠ .ok (b, last))
    (hf : ∀ c' d', Beside more c'.kinds d'.kinds → c'.kindAt 0 ≠ .eof →
      Mirrors more depth view c' d' (f ⟨⟩) (g ⟨⟩)) :
    Mirrors more depth view c d (Parser.skipSeparators >>= f) (Parser.skipSeparators >>= g) := by
  have hplain (kind : TokenKind) (hseparates : kind.separates = true) : kind.Plain := by
    rcases of_decide_eq_true hseparates with rfl | rfl <;> exact ⟨nofun, nofun, nofun⟩
  have hpassed := h.separators
  rw [← Cursor.kinds_skipWhile, ← Cursor.kinds_skipWhile, ← Cursor.kindAt_eq] at hpassed
  rcases hpassed with ⟨hbeside, hne⟩ | ⟨heof, -⟩
  · refine of_takes ?_ ?_ (.skipWhile hplain) (hf _ _ hbeside hne) <;> rfl
  · have hkind := Cursor.kindAt_zero_of_kinds heof
    exact of_fails fun b last hrun => hend _ b last hkind hrun

/-- What separates a statement from the next one is taken, unless nothing is there at the end, where
the first parser fails. -/
theorem separator {f g : PUnit → Parser β} (h : Beside more c.kinds d.kinds)
    (hend : c.kindAt 0 = .eof → ∀ b last, f ⟨⟩ c ≠ .ok (b, last))
    (hf : ∀ c' d', Beside more c'.kinds d'.kinds → Mirrors more depth view c' d' (f ⟨⟩) (g ⟨⟩)) :
    Mirrors more depth view c d (Parser.separator >>= f) (Parser.separator >>= g) := by
  rw [Parser.separator, bind_assoc, bind_assoc]
  refine kind_cases h (fun k hne hk => ?_) fun heof k _ => of_fails (hend heof)
  split
  · exact advance h hk (.plain ⟨nofun, nofun, nofun⟩) hf
  · exact advance h hk (.plain ⟨nofun, nofun, nofun⟩) hf
  · exact absurd rfl hne
  · exact hf c d h
  · exact of_fails nofun

/-! ### Names -/

theorem identifier (h : Beside more c.kinds d.kinds) :
    Mirrors more 0 id c d Parser.identifier Parser.identifier := by
  refine kind h rfl rfl fun k hk => ?_
  split
  · exact advance h hk (.plain ⟨nofun, nofun, nofun⟩) fun c' d' h => pure h rfl
  · exact failHere _

theorem propertyName (h : Beside more c.kinds d.kinds) :
    Mirrors more 0 id c d Parser.propertyName Parser.propertyName := by
  refine kind h rfl rfl fun k hk => ?_
  split
  · next name hname =>
    exact advance h hk (.plain (.of_some hname rfl rfl rfl)) fun c' d' h => pure h rfl
  · exact failHere _

theorem objectKey (h : Beside more c.kinds d.kinds) :
    Mirrors more 0 (fun found => (found.1, found.2.map (Expr.mapSpans noSpan))) c d
      Script.objectKey Script.objectKey := by
  have hname {c d : Cursor} (h : Beside more c.kinds d.kinds) :
      Mirrors more 0 (fun found => (found.1, found.2.map (Expr.mapSpans noSpan))) c d
        (do return (← Parser.propertyName, none)) (do return (← Parser.propertyName, none)) := by
    refine .bind (propertyName h) fun name name' c d hname h => ?_
    obtain rfl : name = name' := hname
    exact pure h rfl
  unfold Script.objectKey
  refine get ?_
  dsimp only
  rw [c.current_kind, d.current_kind]
  have hseen := h.seen
  generalize hk : c.kindAt 0 = k at hseen
  generalize d.kindAt 0 = k' at hseen
  cases hseen with
  | feed => exact hname h
  | semi => exact hname h
  | same =>
    split
    · exact advance h hk (.plain ⟨nofun, nofun, nofun⟩) fun c d h => pure h rfl
    · exact advance h hk (.plain ⟨nofun, nofun, nofun⟩) fun c d h => pure h rfl
    · exact advance h hk (.plain ⟨nofun, nofun, nofun⟩) fun c d h => pure h rfl
    · exact hname h

end Mirrors

end Parser

end Doctest.Script
