import Doctest.Script.Parse
import Mathlib.Algebra.BigOperators.Group.List.Basic
import Mathlib.Data.List.TakeWhile

/-!
# Texts that end or go on

The parser is run on the tokens of a text, and on tokens that are the same but for their spans and
go on where the others end: with a line break, a semicolon and others, or with the semicolon at
once. As long as the end is not passed, both cursors see the same, or else the one sees the end
where the other one sees a separator.
-/

namespace Doctest.Script

/-! ### The kinds of the tokens ahead -/

namespace Cursor

variable {cursor : Cursor}

/-- The kinds of the tokens that a cursor did not take. -/
def kinds (cursor : Cursor) : List TokenKind :=
  cursor.rest.map Token.kind

theorem kindAt_eq (cursor : Cursor) (n : Nat) : cursor.kindAt n = cursor.kinds[n]?.getD .eof := by
  rw [kindAt, kinds, List.getElem?_map]

theorem current_kind (cursor : Cursor) : cursor.current.kind = cursor.kindAt 0 := by
  obtain ⟨last, _ | ⟨token, rest⟩⟩ := cursor <;> rfl

theorem exists_of_kindAt_zero {kind : TokenKind} (h : cursor.kindAt 0 = kind)
    (hkind : kind ≠ .eof) :
    ∃ rest, cursor.kinds = kind :: rest ∧ cursor.advance.kinds = rest := by
  obtain ⟨last, _ | ⟨token, rest⟩⟩ := cursor
  · exact absurd h.symm hkind
  · have htoken : token.kind = kind := h
    refine ⟨rest.map Token.kind, ?_, ?_⟩
    · rw [← htoken]
      rfl
    · have hadvance : advance ⟨last, token :: rest⟩ = ⟨token.span, rest⟩ :=
        if_neg (htoken ▸ hkind)
      rw [hadvance, kinds]

theorem kindAt_zero_of_kinds {kind : TokenKind} {rest : List TokenKind}
    (h : cursor.kinds = kind :: rest) : cursor.kindAt 0 = kind := by
  rw [kindAt_eq, h]
  rfl

theorem kinds_skipWhile (skips : TokenKind → Bool) (cursor : Cursor) :
    (cursor.skipWhile skips).kinds = cursor.kinds.dropWhile skips := by
  rw [kinds, kinds, List.dropWhile_map]
  rfl

/-- The cursor behind the line breaks just ahead. -/
abbrev pastNewlines (cursor : Cursor) : Cursor :=
  cursor.skipWhile (· = .newline)

/-- What stands some places behind the line breaks is seen from there. -/
theorem kindAt_newlines_add (cursor : Cursor) (n : Nat) :
    cursor.kindAt (cursor.newlines + n) = cursor.pastNewlines.kindAt n := by
  have hsplit := List.takeWhile_append_dropWhile (p := fun token : Token => token.kind = .newline)
    (l := cursor.rest)
  have hplace : cursor.rest[cursor.newlines + n]? =
      (cursor.rest.dropWhile fun token => token.kind = .newline)[n]? := by
    conv_lhs => rw [← hsplit]
    rw [newlines, List.getElem?_append_right (Nat.le_add_right _ _), Nat.add_sub_cancel_left]
  rw [kindAt, kindAt, hplace]
  rfl

theorem kindPastNewlines_eq (cursor : Cursor) :
    cursor.kindPastNewlines = cursor.pastNewlines.kindAt 0 :=
  cursor.kindAt_newlines_add 0

theorem kinds_of_kindAt_eof (h : cursor.kindAt 0 = .eof) :
    cursor.kinds = [] ∨ ∃ rest, cursor.kinds = .eof :: rest := by
  obtain ⟨last, _ | ⟨token, rest⟩⟩ := cursor
  · exact .inl rfl
  · have htoken : token.kind = .eof := h
    right
    exact ⟨rest.map Token.kind, by rw [← htoken]; rfl⟩

/-- At the end nothing is passed over. -/
theorem kindAt_skipWhile_of_eof {skips : TokenKind → Bool} (hskips : skips .eof = false)
    (h : cursor.kindAt 0 = .eof) : (cursor.skipWhile skips).kindAt 0 = .eof := by
  rw [kindAt_eq, kinds_skipWhile]
  rcases kinds_of_kindAt_eof h with hempty | ⟨rest, hrest⟩
  · rw [hempty]
    rfl
  · rw [hrest, List.dropWhile_cons_of_neg (by simp [hskips])]
    rfl

end Cursor

/-! ### The same tokens up to the end -/

/-- What stands in the place of the end: the end, or a seam and the tokens behind it. -/
inductive Ends : Option (List TokenKind) → List TokenKind → Prop
  | eof : Ends none [.eof]
  | feed {more : List TokenKind} : Ends (some more) (.newline :: .symbol .semi :: more)
  | semi {more : List TokenKind} : Ends (some more) (.symbol .semi :: more)

/-- The same tokens up to the end of the first ones. -/
inductive Beside (more : Option (List TokenKind)) : List TokenKind → List TokenKind → Prop
  | ends {kinds : List TokenKind} (h : Ends more kinds) : Beside more [.eof] kinds
  | cons {kind : TokenKind} {first second : List TokenKind} (hkind : kind ≠ .eof)
    (h : Beside more first second) : Beside more (kind :: first) (kind :: second)

/-- Both see the same, or the first one sees the end and the second one a separator. -/
inductive Seen : TokenKind → TokenKind → Prop
  | same {kind : TokenKind} : Seen kind kind
  | feed : Seen .eof .newline
  | semi : Seen .eof (.symbol .semi)

/-- Whether a token separates statements. -/
def TokenKind.separates (kind : TokenKind) : Bool :=
  kind = .newline ∨ kind = .symbol .semi

/-- What stands behind the separators in the place of the end. -/
def behind : Option (List TokenKind) → List TokenKind
  | none => [.eof]
  | some more => more.dropWhile TokenKind.separates

variable {more : Option (List TokenKind)} {first second : List TokenKind} {c d : Cursor}

theorem Beside.head (h : Beside more first second) :
    Seen (first[0]?.getD .eof) (second[0]?.getD .eof) := by
  cases h with
  | ends h =>
    cases h with
    | eof => exact .same
    | feed => exact .feed
    | semi => exact .semi
  | cons => exact .same

theorem Beside.seen (h : Beside more c.kinds d.kinds) : Seen (c.kindAt 0) (d.kindAt 0) := by
  rw [Cursor.kindAt_eq, Cursor.kindAt_eq]
  exact h.head

theorem Ends.beside {own : List TokenKind} (h : Ends more second) (heof : .eof ∉ own) :
    Beside more (own ++ [.eof]) (own ++ second) := by
  induction own with
  | nil => exact .ends h
  | cons kind own ih =>
    obtain ⟨hkind, hown⟩ := List.ne_and_not_mem_of_not_mem_cons heof
    exact .cons hkind.symm (ih hown)

theorem Beside.exists_of_cons {kind : TokenKind} (h : Beside more (kind :: first) second)
    (hkind : kind ≠ .eof) : ∃ rest, second = kind :: rest ∧ Beside more first rest := by
  cases h with
  | ends => exact absurd rfl hkind
  | cons _ h => exact ⟨_, rfl, h⟩

/-- Where the first one does not see the end, both take the same token. -/
theorem Beside.advance {kind : TokenKind} (h : Beside more c.kinds d.kinds)
    (hseen : c.kindAt 0 = kind) (hkind : kind ≠ .eof) :
    d.kindAt 0 = kind ∧ c.kinds = kind :: c.advance.kinds ∧
      Beside more c.advance.kinds d.advance.kinds := by
  obtain ⟨rest, hc, rfl⟩ := Cursor.exists_of_kindAt_zero hseen hkind
  rw [hc] at h
  obtain ⟨rest, hd, hrest⟩ := h.exists_of_cons hkind
  have hdseen := Cursor.kindAt_zero_of_kinds hd
  obtain ⟨_, hd', rfl⟩ := Cursor.exists_of_kindAt_zero hdseen hkind
  obtain rfl : d.advance.kinds = rest := List.tail_eq_of_cons_eq (hd'.symm.trans hd)
  exact ⟨hdseen, hc, hrest⟩

/-! ### Passing over separators -/

theorem Ends.pastNewlines (h : Ends more second) :
    Ends more (second.dropWhile fun kind => kind = .newline) := by
  cases h with
  | eof => exact .eof
  | feed => exact .semi
  | semi => exact .semi

theorem Beside.pastNewlines (h : Beside more c.kinds d.kinds) :
    Beside more c.pastNewlines.kinds d.pastNewlines.kinds := by
  rw [Cursor.kinds_skipWhile, Cursor.kinds_skipWhile]
  generalize c.kinds = first at h ⊢
  generalize d.kinds = second at h ⊢
  induction h with
  | ends h => exact .ends h.pastNewlines
  | @cons kind first second hkind h ih =>
    by_cases hfeed : kind = .newline
    · subst hfeed
      exact ih
    · have hkept (kinds : List TokenKind) :
          (kind :: kinds).dropWhile (fun kind => kind = .newline) = kind :: kinds :=
        List.dropWhile_cons_of_neg (by simpa using hfeed)
      rw [hkept, hkept]
      exact .cons hkind h

theorem Ends.separators (h : Ends more second) :
    second.dropWhile TokenKind.separates = behind more := by
  cases h <;> rfl

/-- Behind the separators both see the same tokens, or the first one sees the end. -/
theorem Beside.separators (h : Beside more first second) :
    Beside more (first.dropWhile TokenKind.separates) (second.dropWhile TokenKind.separates) ∧
        (first.dropWhile TokenKind.separates)[0]?.getD .eof ≠ .eof ∨
      first.dropWhile TokenKind.separates = [.eof] ∧
        second.dropWhile TokenKind.separates = behind more := by
  induction h with
  | ends h => exact .inr ⟨rfl, h.separators⟩
  | @cons kind first second hkind h ih =>
    by_cases hseparates : kind.separates = true
    · rwa [List.dropWhile_cons_of_pos hseparates, List.dropWhile_cons_of_pos hseparates]
    · rw [List.dropWhile_cons_of_neg hseparates, List.dropWhile_cons_of_neg hseparates]
      exact .inl ⟨.cons hkind h, hkind⟩

/-- Behind line breaks both see the same, or the first one sees the end and the second one the
semicolon of a seam. -/
theorem Beside.seenPastNewlines (h : Beside more c.kinds d.kinds) :
    c.kindPastNewlines = d.kindPastNewlines ∨
      c.kindPastNewlines = .eof ∧ d.kindPastNewlines = .symbol .semi := by
  rw [Cursor.kindPastNewlines_eq, Cursor.kindPastNewlines_eq]
  have hfeed : d.pastNewlines.kindAt 0 ≠ .newline := by
    intro hd
    obtain ⟨rest, hrest, -⟩ := Cursor.exists_of_kindAt_zero hd nofun
    rw [Cursor.kinds_skipWhile] at hrest
    have hhead :=
      List.head?_dropWhile_not (fun kind : TokenKind => decide (kind = .newline)) d.kinds
    rw [hrest] at hhead
    cases hhead
  have hseen := h.pastNewlines.seen
  generalize c.pastNewlines.kindAt 0 = k at hseen
  generalize d.pastNewlines.kindAt 0 = k' at hseen hfeed
  cases hseen with
  | same => exact .inl rfl
  | feed => exact absurd rfl hfeed
  | semi => exact .inr ⟨rfl, rfl⟩

theorem Beside.pastNewlines_iff {kind : TokenKind} (h : Beside more c.kinds d.kinds)
    (hkind : kind ≠ .eof ∧ kind ≠ .symbol .semi) :
    d.kindPastNewlines = kind ↔ c.kindPastNewlines = kind := by
  rcases h.seenPastNewlines with hsame | ⟨hend, hsemi⟩
  · rw [hsame]
  · rw [hend, hsemi]
    exact iff_of_false hkind.2.symm hkind.1.symm

theorem Beside.continues (h : Beside more c.kinds d.kinds) : c.continues = d.continues := by
  unfold Cursor.continues
  rcases h.seenPastNewlines with hsame | ⟨hend, hsemi⟩
  · rw [hsame]
  · rw [hend, hsemi]
    rfl

/-! ### Looking ahead -/

/-- A brace opens an object for both or for none: the seam is no part of one. -/
theorem Beside.startsObject (h : Beside more c.kinds d.kinds)
    (hbrace : c.kindAt 0 = .symbol .lbrace) : c.startsObject = d.startsObject := by
  obtain ⟨-, -, hinside⟩ := h.advance hbrace nofun
  have hbehind := hinside.pastNewlines
  have hkey (cursor : Cursor) : cursor.kindAt cursor.newlines = cursor.pastNewlines.kindAt 0 :=
    cursor.kindAt_newlines_add 0
  unfold Cursor.startsObject
  dsimp only
  rw [hkey, hkey, Cursor.kindAt_newlines_add, Cursor.kindAt_newlines_add]
  simp only [Cursor.kindAt_eq]
  generalize c.advance.pastNewlines.kinds = first at hbehind
  generalize d.advance.pastNewlines.kinds = second at hbehind
  cases hbehind with
  | ends hends => cases hends <;> rfl
  | @cons kind first second _ hrest =>
    have hnext := hrest.head
    simp only [List.getElem?_cons_zero, List.getElem?_cons_succ, Option.getD_some]
    generalize first[0]?.getD .eof = k at hnext
    generalize second[0]?.getD .eof = k' at hnext
    cases hnext with
    | same => rfl
    -- Neither the end nor the seam comes after a key, which a colon, a comma or a brace follows.
    | feed | semi =>
      cases kind with
      | symbol mark => cases mark <;> rfl
      | _ => rfl

/-- Whether an arrow follows the parenthesis that closes the outermost of some open ones. -/
def arrowAfter : Nat → List TokenKind → Bool
  | _, [] => false
  | depth, kind :: rest =>
    if kind = .symbol .lparen then arrowAfter (depth + 1) rest
    else if kind = .symbol .rparen then
      if depth ≤ 1 then rest.head? = some (.symbol .arrow) else arrowAfter (depth - 1) rest
    else if kind = .eof then false
    else arrowAfter depth rest

/-- A token that is no parenthesis and not the end. -/
structure TokenKind.Plain (kind : TokenKind) : Prop where
  eof : kind ≠ .eof
  lparen : kind ≠ .symbol .lparen
  rparen : kind ≠ .symbol .rparen

/-- A token that is taken for something, where neither parentheses nor the end are. -/
theorem TokenKind.Plain.of_some {α : Type} {reads : TokenKind → Option α} {found : α}
    {kind : TokenKind} (h : reads kind = some found) (heof : reads .eof = none)
    (hlparen : reads (.symbol .lparen) = none) (hrparen : reads (.symbol .rparen) = none) :
    kind.Plain := by
  have hne (other : TokenKind) (hother : reads other = none) : kind ≠ other := by
    rintro rfl
    rw [hother] at h
    cases h
  exact ⟨hne _ heof, hne _ hlparen, hne _ hrparen⟩

theorem TokenKind.Plain.arrowAfter {kind : TokenKind} (h : kind.Plain) (depth : Nat)
    (rest : List TokenKind) : arrowAfter depth (kind :: rest) = Script.arrowAfter depth rest := by
  rw [Script.arrowAfter, if_neg h.lparen, if_neg h.rparen, if_neg h.eof]

theorem TokenKind.eq_or_plain {kind : TokenKind} (h : kind ≠ .eof) :
    kind = .symbol .lparen ∨ kind = .symbol .rparen ∨ kind.Plain := by
  by_cases hopen : kind = .symbol .lparen
  · exact .inl hopen
  by_cases hclose : kind = .symbol .rparen
  · exact .inr (.inl hclose)
  · exact .inr (.inr ⟨h, hopen, hclose⟩)

theorem arrowAfter_rparen (depth : Nat) (rest : List TokenKind) :
    arrowAfter (depth + 2) (.symbol .rparen :: rest) = arrowAfter (depth + 1) rest :=
  rfl

theorem arrowAfterGroup_eq (depth : Nat) (rest : List Token) :
    arrowAfterGroup depth rest = arrowAfter depth (rest.map Token.kind) := by
  induction rest generalizing depth with
  | nil => rfl
  | cons token rest ih =>
    obtain ⟨kind, span⟩ := token
    unfold arrowAfterGroup
    dsimp only [List.map_cons, arrowAfter]
    split
    · exact ih _
    · have hhead : rest.head?.any (·.kind = .symbol .arrow) =
          decide ((rest.map Token.kind).head? = some (.symbol .arrow)) := by
        cases rest with
        | nil => rfl
        | cons token rest => simp
      rw [hhead, ih]
      rfl
    · rfl
    · next hopen hclose hend =>
      have hplain : kind.Plain := ⟨hend, hopen, hclose⟩
      rw [List.map_cons, hplain.arrowAfter]
      exact ih depth

/-- So many more parentheses are closed than opened among some tokens, none of which is the end. -/
structure Closing (depth : Nat) (kinds : List TokenKind) : Prop where
  eof : .eof ∉ kinds
  count : kinds.count (.symbol .rparen) = kinds.count (.symbol .lparen) + depth

namespace Closing

variable {depth : Nat} {own rest : List TokenKind}

theorem nil : Closing 0 [] :=
  ⟨List.not_mem_nil, rfl⟩

theorem lparen (h : Closing (depth + 1) own) : Closing depth (.symbol .lparen :: own) where
  eof := List.not_mem_cons_of_ne_of_not_mem nofun h.eof
  count := by
    have hcount := h.count
    rw [List.count_cons_self, List.count_cons_of_ne (by decide)]
    omega

theorem rparen (h : Closing depth own) : Closing (depth + 1) (.symbol .rparen :: own) where
  eof := List.not_mem_cons_of_ne_of_not_mem nofun h.eof
  count := by
    have hcount := h.count
    rw [List.count_cons_self, List.count_cons_of_ne (by decide)]
    omega

theorem plain {kind : TokenKind} (hkind : kind.Plain) (h : Closing depth own) :
    Closing depth (kind :: own) where
  eof := List.not_mem_cons_of_ne_of_not_mem hkind.eof.symm h.eof
  count := by
    rw [List.count_cons_of_ne hkind.lparen, List.count_cons_of_ne hkind.rparen]
    exact h.count

theorem append {inner : Nat} (h : Closing inner own) (hrest : Closing depth rest) :
    Closing (inner + depth) (own ++ rest) where
  eof hmem := (List.mem_append.mp hmem).elim h.eof hrest.eof
  count := by
    have hcount := h.count
    have hcount' := hrest.count
    rw [List.count_append, List.count_append]
    omega

end Closing

/-- The outermost of so many open groups is closed before the end. -/
inductive Closes : Nat → List TokenKind → Prop
  | last {rest : List TokenKind} : Closes 1 (.symbol .rparen :: rest)
  | lparen {depth : Nat} {rest : List TokenKind} (h : Closes (depth + 1) rest) :
    Closes depth (.symbol .lparen :: rest)
  | rparen {depth : Nat} {rest : List TokenKind} (h : Closes (depth + 1) rest) :
    Closes (depth + 2) (.symbol .rparen :: rest)
  | plain {depth : Nat} {kind : TokenKind} {rest : List TokenKind} (hkind : kind.Plain)
    (h : Closes depth rest) : Closes depth (kind :: rest)

theorem Closing.closes {depth : Nat} {own : List TokenKind} (h : Closing (depth + 1) own)
    (rest : List TokenKind) : Closes (depth + 1) (own ++ rest) := by
  obtain ⟨heof, hcount⟩ := h
  induction own generalizing depth with
  | nil => cases hcount
  | cons kind own ih =>
    obtain ⟨hkind, hown⟩ := List.ne_and_not_mem_of_not_mem_cons heof
    rw [List.cons_append]
    rcases TokenKind.eq_or_plain hkind.symm with rfl | rfl | hplain
    · rw [List.count_cons_self, List.count_cons_of_ne (by decide)] at hcount
      exact .lparen (ih hown (by omega))
    · rw [List.count_cons_self, List.count_cons_of_ne (by decide)] at hcount
      cases depth with
      | zero => exact .last
      | succ depth => exact .rparen (ih hown (by omega))
    · rw [List.count_cons_of_ne hplain.lparen, List.count_cons_of_ne hplain.rparen] at hcount
      exact .plain hplain (ih hown hcount)

theorem Beside.head_eq_arrow (h : Beside more first second) :
    decide (first.head? = some (.symbol .arrow)) =
      decide (second.head? = some (.symbol .arrow)) := by
  cases h with
  | ends h => cases h <;> rfl
  | cons => rfl

/-- Where a group is closed, an arrow follows for both or for none. -/
theorem Closes.arrowAfter {depth : Nat} (h : Closes depth first)
    (hbeside : Beside more first second) : arrowAfter depth first = arrowAfter depth second := by
  induction h generalizing second with
  | last =>
    obtain ⟨second, rfl, hrest⟩ := hbeside.exists_of_cons nofun
    exact hrest.head_eq_arrow
  | lparen _ ih =>
    obtain ⟨second, rfl, hrest⟩ := hbeside.exists_of_cons nofun
    exact ih hrest
  | @rparen depth _ _ ih =>
    obtain ⟨second, rfl, hrest⟩ := hbeside.exists_of_cons nofun
    rw [arrowAfter_rparen, arrowAfter_rparen]
    exact ih hrest
  | plain hkind _ ih =>
    obtain ⟨second, rfl, hrest⟩ := hbeside.exists_of_cons hkind.eof
    rw [hkind.arrowAfter, hkind.arrowAfter]
    exact ih hrest

theorem closes_of_arrowAfter {depth : Nat} (h : arrowAfter (depth + 1) first = true) :
    Closes (depth + 1) first := by
  induction first generalizing depth with
  | nil => cases h
  | cons kind first ih =>
    have hkind : kind ≠ .eof := by
      rintro rfl
      cases h
    rcases TokenKind.eq_or_plain hkind with rfl | rfl | hplain
    · exact .lparen (ih h)
    · cases depth with
      | zero => exact .last
      | succ depth =>
        rw [arrowAfter_rparen] at h
        exact .rparen (ih h)
    · rw [hplain.arrowAfter] at h
      exact .plain hplain (ih h)

theorem arrowAfterGroup_zero {cursor : Cursor} (hkind : cursor.kindAt 0 = .symbol .lparen) :
    arrowAfterGroup 0 cursor.rest = arrowAfter 1 cursor.advance.kinds := by
  obtain ⟨rest, hkinds, rfl⟩ := Cursor.exists_of_kindAt_zero hkind nofun
  rw [Cursor.kinds] at hkinds
  rw [arrowAfterGroup_eq, hkinds]
  rfl

/-- Where an arrow function begins with a group, that is closed. -/
theorem closes_of_startsArrow {cursor : Cursor} (h : cursor.startsArrow = true)
    (hkind : cursor.kindAt 0 = .symbol .lparen) : Closes 1 cursor.advance.kinds := by
  rw [Cursor.startsArrow, hkind] at h
  dsimp only at h
  rw [arrowAfterGroup_zero hkind] at h
  exact closes_of_arrowAfter h

/-- An arrow function begins for both or for neither, unless a group that opens here is closed only
behind the end. -/
theorem Beside.startsArrow (h : Beside more c.kinds d.kinds)
    (hcloses : c.kindAt 0 = .symbol .lparen → Closes 1 c.advance.kinds) :
    c.startsArrow = d.startsArrow := by
  have hseen := h.seen
  unfold Cursor.startsArrow
  generalize hc : c.kindAt 0 = k at hseen hcloses
  generalize hd : d.kindAt 0 = k' at hseen
  cases hseen with
  | feed | semi => rfl
  | same =>
    have hnext (cursor : Cursor) {name : String} (hkind : cursor.kindAt 0 = .ident name) :
        cursor.kindAt 1 = cursor.advance.kindAt 0 := by
      obtain ⟨rest, hkinds, rfl⟩ := Cursor.exists_of_kindAt_zero hkind nofun
      rw [Cursor.kindAt_eq, Cursor.kindAt_eq, hkinds]
      rfl
    split
    · obtain ⟨-, -, hrest⟩ := h.advance hc nofun
      rw [hnext c hc, hnext d hd]
      have hseen := hrest.seen
      generalize c.advance.kindAt 0 = k at hseen
      generalize d.advance.kindAt 0 = k' at hseen
      cases hseen <;> rfl
    · obtain ⟨-, -, hrest⟩ := h.advance hc nofun
      rw [arrowAfterGroup_zero hc, arrowAfterGroup_zero hd]
      exact (hcloses rfl).arrowAfter hrest
    · rfl

end Doctest.Script
