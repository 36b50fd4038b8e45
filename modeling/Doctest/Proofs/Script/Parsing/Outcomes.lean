import Doctest.Proofs.Script.Parsing.Ahead

/-!
# How a parser ends

Before tokens among which the end is, a parser takes some of them or fails at some of them. Which of
the two it does depends neither on the token taken last nor on what is behind the end, and what it
takes depends on two tokens behind that only: the next one, and the next one that is no line break.
The levels that two parsers are granted make no difference if there are enough of them. There is one
rule for each parser that takes or looks at one token, and for parsers after each other.
-/

namespace Doctest.Script

/-! ### Outcomes -/

/-- The cursor behind some tokens, before others. -/
def Cursor.behind (last : Span) (taken rest : List Token) : Cursor :=
  ⟨(taken.getLast?.map Token.span).getD last, rest⟩

theorem Cursor.behind_append (last : Span) (before taken rest : List Token) :
    Cursor.behind ((before.getLast?.map Token.span).getD last) taken rest =
      Cursor.behind last (before ++ taken) rest := by
  rcases List.eq_nil_or_concat' taken with rfl | ⟨front, token, rfl⟩
  · rw [List.append_nil]
    rfl
  · rw [behind, behind, ← List.append_assoc, List.getLast?_concat, List.getLast?_concat]
    rfl

namespace Parser

variable {α β : Type}

/-- Two parsers do the same. -/
def Both (x y : Parser α) (c : Cursor) (outcome : Except Fault (α × Cursor)) : Prop :=
  x c = outcome ∧ y c = outcome

/-- Behind some tokens and before others, two parsers do the same: they take some tokens that are
not the end and give something with a property, or they fail at some of the tokens. -/
inductive Settles (x y : Parser α) (before tokens : List Token)
    (result : List Token → List Token → α → Prop) : Prop
  | takes {taken rest : List Token} {a : α} (htokens : tokens = taken ++ rest)
    (hends : ∀ token ∈ taken, token.kind ≠ .eof) (hresult : result (before ++ taken) rest a)
    (hruns : ∀ last others, Alike rest others →
      Both x y (.behind last before (taken ++ others))
        (.ok (a, .behind last (before ++ taken) others)))
  | fails {fault : Fault} (hcause : fault.cause ≠ .tooDeep)
    (hspan : Joins (before ++ tokens) fault.span)
    (hruns : ∀ last more, Both x y (.behind last before (tokens ++ more)) (.error fault))

namespace Settles

variable {x y : Parser α} {before tokens : List Token}
  {result : List Token → List Token → α → Prop} {whole : List Token → List Token → β → Prop}

theorem pure {b : β} (h : whole before tokens b) :
    Settles (Pure.pure b) (Pure.pure b) before tokens whole := by
  refine .takes (List.nil_append tokens).symm nofun (by rwa [List.append_nil]) ?_
  intro last others _
  rw [List.append_nil]
  exact ⟨rfl, rfl⟩

/-- Two parsers after each other. -/
theorem bind {f g : α → Parser β} (hended : Ended tokens) (hx : Settles x y [] tokens result)
    (h : ∀ taken rest a, tokens = taken ++ rest → Ended rest → result taken rest a →
      Settles (f a) (g a) (before ++ taken) rest whole) :
    Settles (x >>= f) (y >>= g) before tokens whole := by
  cases hx with
  | @fails fault hcause hspan hruns =>
    refine .fails hcause (hspan.mono (List.subset_append_right _ _)) fun last more => ?_
    have hx := hruns ((before.getLast?.map Token.span).getD last) more
    constructor
    · rw [bind_apply]
      exact hx.1 ▸ rfl
    · rw [bind_apply]
      exact hx.2 ▸ rfl
  | @takes taken rest a htokens hends hresult hruns =>
    subst htokens
    have hrest := h taken rest a rfl (hended.of_append hends) hresult
    -- What the second parser does not take is what the first one sees behind what it takes.
    have hfirst (last : Span) (others : List Token) (halike : Alike rest others) :
        Both x y (.behind last before (taken ++ others))
          (.ok (a, .behind last (before ++ taken) others)) := by
      have hx := hruns ((before.getLast?.map Token.span).getD last) others halike
      rwa [List.nil_append, Cursor.behind_append, Cursor.behind_append, List.append_nil] at hx
    cases hrest with
    | @fails fault hcause hspan hruns' =>
      rw [List.append_assoc] at hspan
      refine .fails hcause hspan fun last more => ?_
      have halike := Alike.of_ended (hended.of_append hends) more
      have hx := hfirst last _ halike
      rw [List.append_assoc]
      constructor
      · rw [bind_of_ok hx.1]
        exact (hruns' last more).1
      · rw [bind_of_ok hx.2]
        exact (hruns' last more).2
    | @takes taken' rest' b hrest hends' hresult' hruns' =>
      subst hrest
      rw [List.append_assoc] at hresult' hruns'
      refine .takes (List.append_assoc _ _ _).symm ?_ hresult' fun last others halike => ?_
      · intro token hmem
        cases List.mem_append.mp hmem with
        | inl hin => exact hends token hin
        | inr hin => exact hends' token hin
      · have hx := hfirst last _ (halike.append taken')
        have hf := hruns' last others halike
        rw [List.append_assoc]
        constructor
        · rw [bind_of_ok hx.1]
          exact hf.1
        · rw [bind_of_ok hx.2]
          exact hf.2

/-- A parser that does the rest. -/
theorem rest {whole : List Token → List Token → α → Prop} (hx : Settles x y [] tokens result)
    (h : ∀ taken rest a, tokens = taken ++ rest → result taken rest a →
      whole (before ++ taken) rest a) :
    Settles x y before tokens whole := by
  cases hx with
  | @fails fault hcause hspan hruns =>
    refine .fails hcause (hspan.mono (List.subset_append_right _ _)) fun last more => ?_
    exact hruns ((before.getLast?.map Token.span).getD last) more
  | @takes taken rest a htokens hends hresult hruns =>
    refine .takes htokens hends (h taken rest a htokens hresult) fun last others halike => ?_
    have hx := hruns ((before.getLast?.map Token.span).getD last) others halike
    rwa [List.nil_append, Cursor.behind_append, Cursor.behind_append, List.append_nil] at hx

theorem mono {wider : List Token → List Token → α → Prop} (hx : Settles x y before tokens result)
    (h : ∀ own rest a, result own rest a → wider own rest a) :
    Settles x y before tokens wider := by
  cases hx with
  | fails hcause hspan hruns => exact .fails hcause hspan hruns
  | takes htokens hends hresult hruns => exact .takes htokens hends (h _ _ _ hresult) hruns

theorem failAt {cause : FaultCause} {span : Span} (hcause : cause ≠ .tooDeep)
    (hspan : Joins (before ++ tokens) span) :
    Settles (Parser.failAt cause span) (Parser.failAt cause span) before tokens whole :=
  .fails hcause hspan fun _ _ => ⟨rfl, rfl⟩

/-! ### Looking at what comes next -/

section Looking

variable {x y x' y' : Parser β} {last : Span} {others : List Token}

/-- Parsers that do the same as others wherever two tokens come next. -/
theorem of_eq (hended : Ended tokens)
    (hx : ∀ last others, Alike others tokens →
      x (.behind last before others) = x' (.behind last before others))
    (hy : ∀ last others, Alike others tokens →
      y (.behind last before others) = y' (.behind last before others))
    (h : Settles x' y' before tokens whole) : Settles x y before tokens whole := by
  have hboth {last : Span} {others : List Token} {outcome : Except Fault (β × Cursor)}
      (halike : Alike others tokens) (h : Both x' y' (.behind last before others) outcome) :
      Both x y (.behind last before others) outcome :=
    ⟨(hx last others halike).trans h.1, (hy last others halike).trans h.2⟩
  cases h with
  | fails hcause hspan hruns =>
    exact .fails hcause hspan fun last more =>
      hboth (Alike.of_ended hended more).symm (hruns last more)
  | takes htokens hends hresult hruns =>
    refine .takes htokens hends hresult fun last others halike => ?_
    exact hboth (htokens ▸ (halike.append _).symm) (hruns last others halike)

theorem get {f g : Cursor → Parser β} (hended : Ended tokens)
    (hf : ∀ c : Cursor, Alike c.rest tokens → f c = f ⟨⟨0, 0⟩, tokens⟩)
    (hg : ∀ c : Cursor, Alike c.rest tokens → g c = g ⟨⟨0, 0⟩, tokens⟩)
    (h : Settles (f ⟨⟨0, 0⟩, tokens⟩) (g ⟨⟨0, 0⟩, tokens⟩) before tokens whole) :
    Settles (MonadState.get >>= f) (MonadState.get >>= g) before tokens whole := by
  refine of_eq hended (fun last others halike => ?_) (fun last others halike => ?_) h
  · rw [bind_get_apply, hf _ halike]
  · rw [bind_get_apply, hg _ halike]

theorem kind {f g : TokenKind → Parser β} (hended : Ended tokens)
    (h : ∀ token more, tokens = token :: more →
      Settles (f token.kind) (g token.kind) before (token :: more) whole) :
    Settles (Parser.kind >>= f) (Parser.kind >>= g) before tokens whole := by
  obtain ⟨token, more, rfl⟩ := hended.exists_cons
  have hkind {last : Span} {others : List Token} (halike : Alike others (token :: more)) :
      (Cursor.behind last before others).kindAt 0 = token.kind :=
    Alike.kindAt_zero (d := ⟨⟨0, 0⟩, token :: more⟩) halike
  refine of_eq hended (fun last others halike => ?_) (fun last others halike => ?_)
    (h token more rfl)
  · rw [bind_kind_apply, hkind halike]
  · rw [bind_kind_apply, hkind halike]

theorem spanFrom {start : Span} {f g : Span → Parser β} (hended : Ended tokens)
    (hbefore : before ≠ [])
    (h : Settles (f (start.join (lastSpan before))) (g (start.join (lastSpan before))) before tokens
      whole) :
    Settles (Parser.spanFrom start >>= f) (Parser.spanFrom start >>= g) before tokens whole := by
  have hlast (last : Span) (others : List Token) :
      (Cursor.behind last before others).last = lastSpan before := by
    rw [Cursor.behind, lastSpan, List.getLast?_eq_some_getLast hbefore]
    rfl
  refine of_eq hended (fun last others _ => ?_) (fun last others _ => ?_) h
  · rw [← hlast last others]
    rfl
  · rw [← hlast last others]
    rfl

theorem sees {mark : Symbol} (hended : Ended tokens)
    (hyes : ∀ token more, tokens = token :: more → token.kind = .symbol mark →
      Settles x y before (token :: more) whole)
    (hno : ∀ token more, tokens = token :: more → token.kind ≠ .symbol mark →
      Settles x' y' before (token :: more) whole) :
    Settles (Parser.sees mark >>= fun seen => if seen = true then x else x')
      (Parser.sees mark >>= fun seen => if seen = true then y else y') before tokens whole := by
  obtain ⟨token, more, rfl⟩ := hended.exists_cons
  have hkind {last : Span} {others : List Token} (halike : Alike others (token :: more)) :
      (Cursor.behind last before others).kindAt 0 = token.kind :=
    Alike.kindAt_zero (d := ⟨⟨0, 0⟩, token :: more⟩) halike
  by_cases hmark : token.kind = .symbol mark
  · refine of_eq hended (fun last others halike => ?_) (fun last others halike => ?_)
      (hyes token more rfl hmark)
    · rw [bind_sees_apply, if_pos ((hkind halike).trans hmark)]
    · rw [bind_sees_apply, if_pos ((hkind halike).trans hmark)]
  · have hseen {last : Span} {others : List Token} (halike : Alike others (token :: more)) :
        ¬ (Cursor.behind last before others).kindAt 0 = .symbol mark := by
      rwa [hkind halike]
    refine of_eq hended (fun last others halike => ?_) (fun last others halike => ?_)
      (hno token more rfl hmark)
    · rw [bind_sees_apply, if_neg (hseen halike)]
    · rw [bind_sees_apply, if_neg (hseen halike)]

/-- What a parser does after asking something about the tokens that it takes. -/
theorem asks {see : Cursor → Bool}
    (hsees : ∀ last more, see ⟨last, tokens ++ more⟩ = see ⟨⟨0, 0⟩, tokens⟩)
    (hstays : ∀ taken rest b last others, tokens = taken ++ rest → whole (before ++ taken) rest b →
      Alike rest others → see ⟨last, taken ++ others⟩ = see ⟨⟨0, 0⟩, tokens⟩)
    (hyes : see ⟨⟨0, 0⟩, tokens⟩ = true → Settles x y before tokens whole)
    (hno : see ⟨⟨0, 0⟩, tokens⟩ = false → Settles x' y' before tokens whole) :
    Settles (MonadState.get >>= fun c => if see c = true then x else x')
      (MonadState.get >>= fun c => if see c = true then y else y') before tokens whole := by
  have hchosen : Settles (if see ⟨⟨0, 0⟩, tokens⟩ = true then x else x')
      (if see ⟨⟨0, 0⟩, tokens⟩ = true then y else y') before tokens whole := by
    split
    · next h => exact hyes h
    · next h => exact hno (Bool.eq_false_iff.mpr h)
  cases hchosen with
  | fails hcause hspan hruns =>
    refine .fails hcause hspan fun last more => ?_
    have hruns := hruns last more
    rwa [← hsees] at hruns
  | @takes taken rest b htokens hends hresult hruns =>
    refine .takes htokens hends hresult fun last others halike => ?_
    have hruns := hruns last others halike
    rwa [← hstays taken rest b _ others htokens hresult halike] at hruns

end Looking

theorem failHere (hended : Ended tokens) :
    Settles (Parser.failHere : Parser β) Parser.failHere before tokens whole := by
  obtain ⟨token, more, rfl⟩ := hended.exists_cons
  refine get hended (fun c halike => ?_) (fun c halike => ?_) (failAt nofun ?_)
  · rw [halike.current]
    rfl
  · rw [halike.current]
    rfl
  · exact .token (List.mem_append_right _ List.mem_cons_self)

/-! ### Taking tokens -/

section Taking

variable {token : Token} {more : List Token}

theorem advance {f g : PUnit → Parser β} (htoken : token.kind ≠ .eof)
    (h : Settles (f ⟨⟩) (g ⟨⟩) (before ++ [token]) more whole) :
    Settles (modify Cursor.advance >>= f) (modify Cursor.advance >>= g) before (token :: more)
      whole := by
  have hadvance (last : Span) (others : List Token) :
      (Cursor.behind last before (token :: others)).advance =
        .behind last (before ++ [token]) others := by
    rw [Cursor.behind, Cursor.advance]
    simp only [if_neg htoken, Cursor.behind, List.getLast?_concat, Option.map_some,
      Option.getD_some]
  cases h with
  | fails hcause hspan hruns =>
    rw [List.append_assoc] at hspan
    refine .fails hcause hspan fun last more => ?_
    have hruns := hruns last more
    rwa [← hadvance] at hruns
  | @takes taken rest b htokens hends hresult hruns =>
    subst htokens
    rw [List.append_assoc] at hresult hruns
    refine .takes (List.cons_append ..).symm ?_ hresult fun last others halike => ?_
    · exact List.forall_mem_cons.mpr ⟨htoken, hends⟩
    · have hruns := hruns last others halike
      rwa [← hadvance] at hruns

theorem next {f g : Token → Parser β} (hended : Ended (token :: more)) (htoken : token.kind ≠ .eof)
    (h : Settles (f token) (g token) (before ++ [token]) more whole) :
    Settles (Parser.next >>= f) (Parser.next >>= g) before (token :: more) whole := by
  have hnext {x : Token → Parser β} {c : Cursor} (halike : Alike c.rest (token :: more)) :
      (Parser.next >>= x) c = (modify Cursor.advance >>= fun _ => x token) c := by
    rw [← halike.current]
    rfl
  exact of_eq hended (fun _ _ halike => hnext halike) (fun _ _ halike => hnext halike)
    (advance htoken h)

theorem expect {mark : Symbol} {f g : Span → Parser β} (hended : Ended tokens)
    (h : ∀ token more, tokens = token :: more → token.kind = .symbol mark → Ended more →
      Settles (f token.span) (g token.span) (before ++ [token]) more whole) :
    Settles (Parser.expect mark >>= f) (Parser.expect mark >>= g) before tokens whole := by
  rw [expect_eq, expect_eq]
  refine sees hended (fun token more htokens hmark => ?_) fun token more htokens _ => ?_
  · have htoken : token.kind ≠ .eof := hmark ▸ nofun
    subst htokens
    exact next hended htoken (h token more rfl hmark (hended.tail htoken))
  · exact failHere (htokens ▸ hended)

theorem accept {mark : Symbol} {x y x' y' : Parser β} (hended : Ended tokens)
    (hyes : ∀ token more, tokens = token :: more → token.kind = .symbol mark → Ended more →
      Settles x y (before ++ [token]) more whole)
    (hno : ∀ token more, tokens = token :: more → token.kind ≠ .symbol mark →
      Settles x' y' before (token :: more) whole) :
    Settles (Parser.accept mark >>= fun taken => if taken = true then x else x')
      (Parser.accept mark >>= fun taken => if taken = true then y else y') before tokens whole := by
  rw [accept_eq, accept_eq]
  refine sees hended (fun token more htokens hmark => ?_) hno
  have htoken : token.kind ≠ .eof := hmark ▸ nofun
  subst htokens
  exact advance htoken (hyes token more rfl hmark (hended.tail htoken))

end Taking

/-! ### Passing over tokens -/

/-- All tokens just ahead with a property are passed over. -/
theorem skipWhile {skips : TokenKind → Bool} {f g : PUnit → Parser β} (hskips : skips .eof = false)
    (hended : Ended tokens)
    (h : ∀ gap more, tokens = gap ++ more → (∀ token ∈ gap, skips token.kind = true) →
      (∀ token ∈ more.head?, skips token.kind = false) → Ended more →
      Settles (f ⟨⟩) (g ⟨⟩) (before ++ gap) more whole) :
    Settles (modify (Cursor.skipWhile skips) >>= f) (modify (Cursor.skipWhile skips) >>= g) before
      tokens whole := by
  obtain ⟨gap, more, htokens, hgap, hmore⟩ : ∃ gap more, tokens = gap ++ more ∧
      (∀ token ∈ gap, skips token.kind = true) ∧
      ∀ token ∈ more.head?, skips token.kind = false := by
    refine ⟨_, _, (List.takeWhile_append_dropWhile (p := (skips ·.kind))).symm, ?_, ?_⟩
    · intro token hmem
      have hskip := List.mem_takeWhile_imp hmem
      exact hskip
    · intro token hmem
      have hhead := List.head?_dropWhile_not (skips ·.kind) tokens
      rw [Option.mem_def.mp hmem] at hhead
      simpa using hhead
  subst htokens
  have hgapEnds (token : Token) (hmem : token ∈ gap) : token.kind ≠ .eof := by
    intro heof
    have hskip := hgap token hmem
    rw [heof, hskips] at hskip
    cases hskip
  have hended := hended.of_append hgapEnds
  -- Whatever stands behind the first token that is kept, the same tokens are passed over.
  have hpassed (last : Span) {others : List Token} (hhead : others.head? = more.head?) :
      (Cursor.behind last before (gap ++ others)).skipWhile skips =
        .behind last (before ++ gap) others := by
    obtain ⟨first, rest, rfl⟩ := hended.exists_cons
    obtain ⟨rest', rfl⟩ := List.head?_eq_some_iff.mp hhead
    have hstops : skips first.kind = false := hmore first rfl
    rw [← Cursor.behind_append, Cursor.behind, Cursor.behind, Cursor.skipWhile]
    dsimp only
    rw [List.takeWhile_append_of_pos hgap, List.dropWhile_append_of_pos hgap,
      List.takeWhile_cons_of_neg (by simp [hstops]), List.dropWhile_cons_of_neg (by simp [hstops]),
      List.append_nil]
  have hruns {outcome : Except Fault (β × Cursor)} {last : Span} {others : List Token}
      (hhead : others.head? = more.head?)
      (h : Both (f ⟨⟩) (g ⟨⟩) (.behind last (before ++ gap) others) outcome) :
      Both (modify (Cursor.skipWhile skips) >>= f) (modify (Cursor.skipWhile skips) >>= g)
        (.behind last before (gap ++ others)) outcome := by
    rwa [← hpassed last hhead] at h
  cases h gap more rfl hgap hmore hended with
  | fails hcause hspan hfails =>
    rw [List.append_assoc] at hspan
    refine .fails hcause hspan fun last others => ?_
    rw [List.append_assoc]
    exact hruns (Alike.of_ended hended others).head.symm (hfails last others)
  | @takes taken rest b htokens hends hresult htakes =>
    rw [List.append_assoc] at hresult htakes
    refine .takes (by rw [htokens, List.append_assoc]) ?_ hresult fun last others halike => ?_
    · intro token hmem
      exact (List.mem_append.mp hmem).elim (hgapEnds token) (hends token)
    · rw [List.append_assoc]
      exact hruns (htokens ▸ (halike.append taken).head.symm) (htakes last others halike)

theorem skipNewlines {f g : PUnit → Parser β} (hended : Ended tokens)
    (h : ∀ gap more, tokens = gap ++ more → Feeds gap →
      (∀ token ∈ more.head?, token.kind ≠ .newline) → Ended more →
      Settles (f ⟨⟩) (g ⟨⟩) (before ++ gap) more whole) :
    Settles (Parser.skipNewlines >>= f) (Parser.skipNewlines >>= g) before tokens whole := by
  refine skipWhile rfl hended fun gap more htokens hgap hmore hended => ?_
  refine h gap more htokens (fun token hmem => ?_) (fun token hmem => ?_) hended
  · exact of_decide_eq_true (hgap token hmem)
  · exact of_decide_eq_false (hmore token hmem)

theorem skipSeparators {f g : PUnit → Parser β} (hended : Ended tokens)
    (h : ∀ gap more, tokens = gap ++ more → Separators gap →
      (∀ token ∈ more.head?, token.kind.separates = false) → Ended more →
      Settles (f ⟨⟩) (g ⟨⟩) (before ++ gap) more whole) :
    Settles (Parser.skipSeparators >>= f) (Parser.skipSeparators >>= g) before tokens whole :=
  skipWhile rfl hended h

theorem separator (hended : Ended tokens) :
    Settles Parser.separator Parser.separator [] tokens fun taken rest _ =>
      Separators taken ∧ (taken = [] → ∀ token ∈ rest.head?,
        token.kind = .eof ∨ token.kind = .symbol .rbrace) := by
  unfold Parser.separator
  refine kind hended fun token more htokens => ?_
  subst htokens
  split
  · next hfeed =>
    refine advance (hfeed ▸ nofun) (pure ⟨?_, nofun⟩)
    simp [Separators, hfeed, TokenKind.separates]
  · next hsemi =>
    refine advance (hsemi ▸ nofun) (pure ⟨?_, nofun⟩)
    simp [Separators, hsemi, TokenKind.separates]
  · next heof => exact pure ⟨.nil, fun _ first hfirst => .inl (Option.some.inj hfirst ▸ heof)⟩
  · next hbrace => exact pure ⟨.nil, fun _ first hfirst => .inr (Option.some.inj hfirst ▸ hbrace)⟩
  · exact failHere hended

/-! ### Names -/

theorem identifier (hended : Ended tokens) :
    Settles Parser.identifier Parser.identifier [] tokens fun taken _ name =>
      ∃ word, taken = [word] ∧ word.kind = .ident name := by
  unfold Parser.identifier
  refine kind hended fun word more htokens => ?_
  subst htokens
  split
  · next name hname => exact advance (hname ▸ nofun) (pure ⟨word, rfl, hname⟩)
  · exact failHere hended

theorem propertyName (hended : Ended tokens) :
    Settles Parser.propertyName Parser.propertyName [] tokens fun taken _ name =>
      ∃ word, taken = [word] ∧ propertyName? word.kind = some name := by
  unfold Parser.propertyName
  refine kind hended fun word more htokens => ?_
  subst htokens
  split
  · next name hname =>
    have hword : word.kind ≠ .eof := by
      intro heof
      rw [heof] at hname
      cases hname
    exact advance hword (pure ⟨word, rfl, hname⟩)
  · exact failHere hended

theorem keyOf?_of_propertyName? {kind : TokenKind} {name : String}
    (h : propertyName? kind = some name) : keyOf? kind = some name := by
  cases kind <;> first | exact h | cases h

theorem objectKey (hended : Ended tokens) :
    Settles Script.objectKey Script.objectKey [] tokens fun taken _ found =>
      ∃ key, taken = [key] ∧ keyOf? key.kind = some found.1 ∧ ∀ own ∈ found.2,
        key.kind = .ident found.1 ∧ own = .ident found.1 key.span := by
  unfold Script.objectKey
  obtain ⟨key, more, rfl⟩ := hended.exists_cons
  refine get hended (fun c halike => ?_) (fun c halike => ?_) ?_
  · rw [halike.current]
    rfl
  · rw [halike.current]
    rfl
  dsimp only [Cursor.current, List.headD_cons]
  split
  · next s hkey => exact advance (hkey ▸ nofun) (pure ⟨key, rfl, hkey ▸ rfl, nofun⟩)
  · next x hkey => exact advance (hkey ▸ nofun) (pure ⟨key, rfl, hkey ▸ rfl, nofun⟩)
  · next name hkey =>
    refine advance (hkey ▸ nofun) (pure ⟨key, rfl, hkey ▸ rfl, fun own hown => ?_⟩)
    exact ⟨hkey, (Option.some.inj hown).symm⟩
  · refine bind hended (propertyName hended) fun taken rest name _ _ hname => ?_
    obtain ⟨word, rfl, hword⟩ := hname
    exact pure ⟨word, rfl, keyOf?_of_propertyName? hword, nofun⟩

end Settles

end Parser

end Doctest.Script
