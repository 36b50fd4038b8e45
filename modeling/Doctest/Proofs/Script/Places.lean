import Doctest.Proofs.Script.Scanning
import Mathlib.Data.List.TakeDrop
import Mathlib.Order.Defs.LinearOrder
import Mathlib.Order.MinMax

/-!
# Where tokens stand

Each token stands for characters of the source that are one after the other, and its span is the
range of their bytes. So spans begin and end between characters. A text that cannot be cut into
tokens is at fault at some of its characters.
-/

namespace Doctest

namespace Text

theorem byteSize_append (s t : List Char) : byteSize (s ++ t) = byteSize s + byteSize t := by
  induction s with
  | nil => simp [byteSize]
  | cons c s ih =>
    rw [List.cons_append, byteSize, byteSize, ih]
    omega

/-- Characters have bytes. -/
theorem byteSize_pos {s : List Char} (h : s ≠ []) : 0 < byteSize s := by
  cases s with
  | nil => exact absurd rfl h
  | cons c s => exact Nat.add_pos_left c.utf8Size_pos _

/-- The bytes that are counted here are those of the string of the characters. -/
theorem byteSize_eq_utf8ByteSize (s : List Char) : byteSize s = (String.ofList s).utf8ByteSize := by
  induction s with
  | nil => rfl
  | cons c s ih =>
    rw [byteSize, ih, String.ofList_cons, String.utf8ByteSize_append,
      String.utf8ByteSize_singleton]

theorem byteSize_toList (source : String) : byteSize source.toList = source.utf8ByteSize := by
  rw [byteSize_eq_utf8ByteSize, String.ofList_toList]

end Text

namespace Script

variable {c : Char} {s : List Char} {kind : TokenKind} {count : Nat}

/-! ### The characters of a token -/

/-- How tokens are spelled. The text of a string is what stands between its quotes, the digits of a
hexadecimal number are what stands behind its mark, and no token begins with a comment. -/
inductive Spelled : TokenKind → List Char → Prop
  | feed : Spelled .newline ['\n']
  | returned : Spelled .newline ['\r', '\n']
  | hexadecimal {mark : Char} {digits : List Char} {n : Nat} (hmark : mark = 'x' ∨ mark = 'X')
    (hdigits : ∀ digit ∈ digits, Number.isHexDigit digit = true)
    (h : Number.ofDigitsBelow? 16 (Nat.pow 2 64) digits = some n) :
    Spelled (.number (Float.ofNat n)) ('0' :: mark :: digits)
  | decimal {first : Char} {rest : List Char} {x : Float} (h : first.isDigit ∨ first = '.') :
    Spelled (.number x) (first :: rest)
  | string {quote : Char} {body text : List Char} (hquote : quote = '\x22' ∨ quote = '\x27')
    (h : unescape? body = some text) :
    Spelled (.string (String.ofList text)) (quote :: (body ++ [quote]))
  | word {first : Char} {rest : List Char} (hfirst : isWordStart first = true)
    (hrest : ∀ part ∈ rest, isWordPart part = true) :
    Spelled (wordKind (String.ofList (first :: rest))) (first :: rest)
  | symbol (mark : Symbol) : Spelled (.symbol mark) mark.text.toList

/-- A token has a first character. -/
theorem Spelled.ne_nil {own : List Char} (h : Spelled kind own) : own ≠ [] := by
  cases h with
  | symbol mark => cases mark <;> decide
  | _ => exact List.cons_ne_nil _ _

theorem Spelled.ne_eof {own : List Char} (h : Spelled kind own) : kind ≠ .eof := by
  cases h with
  | word => exact wordKind_ne_eof _
  | _ => nofun

theorem stringBody?_eq_some {quote : Char} {body : List Char}
    (h : stringBody? quote s = some body) : ∃ rest, s = body ++ quote :: rest := by
  fun_induction stringBody? quote s generalizing body with
  | case1 | case3 | case4 | case5 => cases h
  | case2 s =>
    cases h
    exact ⟨s, rfl⟩
  | case6 d s hfeed hquote hline ih =>
    obtain ⟨inner, hinner, rfl⟩ := Option.map_eq_some_iff.mp h
    obtain ⟨rest, rfl⟩ := ih hinner
    exact ⟨rest, rfl⟩
  | case7 d s hquote hline hescape ih =>
    obtain ⟨inner, hinner, rfl⟩ := Option.map_eq_some_iff.mp h
    obtain ⟨rest, rfl⟩ := ih hinner
    exact ⟨rest, rfl⟩

theorem hexDigits?_eq_some {digits : List Char} (h : hexDigits? s = some digits) :
    ∃ mark rest, s = mark :: (digits ++ rest) ∧ (mark = 'x' ∨ mark = 'X') ∧
      ∀ digit ∈ digits, Number.isHexDigit digit = true := by
  cases s with
  | nil => cases h
  | cons mark s =>
    rw [hexDigits?] at h
    split at h
    · next hmark =>
      dsimp only at h
      split at h
      · cases h
      · cases h
        refine ⟨mark, s.dropWhile Number.isHexDigit, ?_, hmark, ?_⟩
        · rw [List.takeWhile_append_dropWhile]
        · intro digit hmem
          exact List.mem_takeWhile_imp hmem
    · cases h

theorem spelled_of_numberLexeme (hc : c.isDigit ∨ c = '.')
    (h : numberLexeme c s = .ok (some kind, count)) : Spelled kind (c :: s.take count) := by
  unfold numberLexeme at h
  split at h
  · next digits hfound =>
    obtain ⟨rfl, hdigits⟩ := Option.ite_none_right_eq_some.mp hfound
    obtain ⟨mark, rest, rfl, hmark, hall⟩ := hexDigits?_eq_some hdigits
    split at h
    · next n hn =>
      cases h
      rw [List.take_succ_cons, List.take_left]
      exact .hexadecimal hmark hall hn
    · cases h
  · cases h
    exact .decimal hc

theorem spelled_of_stringLexeme (hc : c = '\x22' ∨ c = '\x27')
    (h : stringLexeme c s = .ok (some kind, count)) : Spelled kind (c :: s.take count) := by
  unfold stringLexeme at h
  split at h
  · cases h
  · next body hbody =>
    obtain ⟨rest, rfl⟩ := stringBody?_eq_some hbody
    split at h
    · cases h
    · next text htext =>
      cases h
      have htake : (body ++ c :: rest).take (body.length + 1) = body ++ [c] := by
        rw [List.take_length_add_append, List.take_succ_cons, List.take_zero]
      rw [htake]
      exact .string hc htext

theorem spelled_of_symbolLexeme (h : symbolLexeme c s = .ok (some kind, count)) :
    Spelled kind (c :: s.take count) := by
  unfold symbolLexeme at h
  split at h
  · next mark hmark =>
    cases h
    have hfound := List.find?_some hmark
    have hprefix := List.isPrefixOf_iff_prefix.mp hfound
    have htake : c :: s.take (mark.text.length - 1) = mark.text.toList := by
      have hpos : 0 < mark.text.length := by cases mark <;> decide
      rw [← List.take_succ_cons, Nat.sub_add_cancel hpos, ← String.length_toList]
      exact (List.prefix_iff_eq_take.mp hprefix).symm
    rw [htake]
    exact .symbol mark
  · cases h

/-- A token takes the characters that spell it. -/
theorem spelled_of_lexeme (h : lexeme c s = .ok (some kind, count)) :
    Spelled kind (c :: s.take count) := by
  unfold lexeme at h
  split at h
  · cases h
  split at h
  · next hfeed =>
    cases h
    exact hfeed ▸ .feed
  split at h
  · next hreturn =>
    obtain ⟨rfl, hhead⟩ := hreturn
    obtain ⟨rest, rfl⟩ := List.head?_eq_some_iff.mp hhead
    cases h
    exact .returned
  split at h
  · cases h
  split at h
  · cases h
  split at h
  · next hdigit => exact spelled_of_numberLexeme (hdigit.imp_right And.left) h
  split at h
  · next hquote => exact spelled_of_stringLexeme hquote h
  split at h
  · next hword =>
    cases h
    have htake : s.take (s.takeWhile isWordPart).length = s.takeWhile isWordPart :=
      (List.prefix_iff_eq_take.mp (List.takeWhile_prefix _)).symm
    rw [List.length_cons, Nat.add_sub_cancel, htake]
    refine .word hword fun part hmem => ?_
    exact List.mem_takeWhile_imp hmem
  · exact spelled_of_symbolLexeme h

/-! ### Places in a text -/

/-- The bytes of a span are those of some characters of a text. -/
def Covers (source : List Char) (span : Span) (own : List Char) : Prop :=
  ∃ front behind, source = front ++ (own ++ behind) ∧
    span = ⟨Text.byteSize front, Text.byteSize (front ++ own)⟩

/-- A span begins and ends between characters of a text. -/
structure Span.Within (source : String) (span : Span) : Prop where
  start_isValid : (⟨span.start⟩ : String.Pos.Raw).IsValid source
  stop_isValid : (⟨span.stop⟩ : String.Pos.Raw).IsValid source
  start_le : span.start ≤ span.stop
  stop_le : span.stop ≤ source.utf8ByteSize

theorem isValid_byteSize {front behind : List Char} :
    (⟨Text.byteSize front⟩ : String.Pos.Raw).IsValid (String.ofList (front ++ behind)) := by
  refine String.Pos.Raw.isValid_iff_exists_append.mpr ⟨_, _, String.ofList_append, ?_⟩
  rw [Text.byteSize_eq_utf8ByteSize]
  rfl

/-- At the end of a text there is nothing more. -/
theorem covers_end (source : String) :
    Covers source.toList ⟨source.utf8ByteSize, source.utf8ByteSize⟩ [] := by
  refine ⟨source.toList, [], (List.append_nil _).symm, ?_⟩
  rw [List.append_nil, Text.byteSize_toList]

theorem Covers.within {source : String} {span : Span} {own : List Char}
    (h : Covers source.toList span own) : span.Within source := by
  obtain ⟨front, behind, hsource, rfl⟩ := h
  have hsplit := congrArg String.ofList hsource
  rw [String.ofList_toList] at hsplit
  have hstop : (⟨Text.byteSize (front ++ own)⟩ : String.Pos.Raw).IsValid source := by
    rw [hsplit, ← List.append_assoc]
    exact isValid_byteSize
  constructor
  · rw [hsplit]
    exact isValid_byteSize
  · exact hstop
  · rw [Text.byteSize_append]
    exact Nat.le_add_right _ _
  · exact hstop.le_rawEndPos

section Joining

variable {source : String} {a b : Span} {p : Nat → Prop}

/-- The least span around two spans begins where one of them begins. -/
theorem Span.start_join (ha : p a.start) (hb : p b.start) : p (a.join b).start := by
  rcases min_choice a.start b.start with h | h
  · rw [Span.join, h]
    exact ha
  · rw [Span.join, h]
    exact hb

/-- The least span around two spans ends where one of them ends. -/
theorem Span.stop_join (ha : p a.stop) (hb : p b.stop) : p (a.join b).stop := by
  rcases max_choice a.stop b.stop with h | h
  · rw [Span.join, h]
    exact ha
  · rw [Span.join, h]
    exact hb

theorem Span.Within.join (ha : a.Within source) (hb : b.Within source) :
    (a.join b).Within source where
  start_isValid := Span.start_join (p := fun n => (⟨n⟩ : String.Pos.Raw).IsValid source)
    ha.start_isValid hb.start_isValid
  stop_isValid := Span.stop_join (p := fun n => (⟨n⟩ : String.Pos.Raw).IsValid source)
    ha.stop_isValid hb.stop_isValid
  start_le := (min_le_left _ _).trans (ha.start_le.trans (le_max_left _ _))
  stop_le := max_le ha.stop_le hb.stop_le

end Joining

/-! ### Scanning -/

/-- A hexadecimal digit is one byte. -/
theorem utf8Size_of_isHexDigit (h : Number.isHexDigit c = true) : c.utf8Size = 1 := by
  have hbound {low high : Char} (hhigh : high.val ≤ 127)
      (h : (decide (low ≤ c) && decide (c ≤ high)) = true) : c.val ≤ 127 := by
    obtain ⟨-, hle⟩ := Bool.and_eq_true_iff.mp h
    exact UInt32.le_trans (of_decide_eq_true hle) hhigh
  rw [Char.utf8Size_eq_one_iff]
  rw [Number.isHexDigit, Bool.or_eq_true, Bool.or_eq_true] at h
  rcases h with (h | h) | h
  · exact hbound (by decide) h
  · exact hbound (by decide) h
  · exact hbound (by decide) h

theorem byteSize_of_isHexDigit {digits : List Char}
    (h : ∀ digit ∈ digits, Number.isHexDigit digit = true) :
    Text.byteSize digits = digits.length := by
  induction digits with
  | nil => rfl
  | cons digit digits ih =>
    obtain ⟨hdigit, hrest⟩ := List.forall_mem_cons.mp h
    rw [Text.byteSize, ih hrest, utf8Size_of_isHexDigit hdigit, List.length_cons, Nat.add_comm]

/-- What is wrong at the front of a text is wrong with its first characters. -/
theorem exists_of_lexeme_error {cause : FaultCause} (h : lexeme c s = .error cause)
    (offset : Nat) : cause ≠ .tooDeep ∧ ∃ own behind, c :: s = own ++ behind ∧
      faultSpan cause offset c s = ⟨offset, offset + Text.byteSize own⟩ := by
  have hfirst {cause : FaultCause} (hcause : cause ≠ .badNumber) :
      ∃ own behind, c :: s = own ++ behind ∧
        faultSpan cause offset c s = ⟨offset, offset + Text.byteSize own⟩ := by
    refine ⟨[c], s, rfl, ?_⟩
    cases cause with
    | badNumber => exact absurd rfl hcause
    | _ => rfl
  unfold lexeme at h
  split at h
  · cases h
  split at h
  · cases h
  split at h
  · cases h
  split at h
  · cases h
  split at h
  · cases h
  split at h
  · unfold numberLexeme at h
    split at h
    · next digits hfound =>
      obtain ⟨rfl, hdigits⟩ := Option.ite_none_right_eq_some.mp hfound
      obtain ⟨mark, rest, rfl, hmark, hall⟩ := hexDigits?_eq_some hdigits
      split at h
      · cases h
      · cases h
        refine ⟨nofun, '0' :: mark :: digits, rest, rfl, ?_⟩
        have hsize : mark.utf8Size = 1 := by
          rcases hmark with rfl | rfl <;> decide
        rw [faultSpan, hdigits, Option.getD_some, Text.byteSize, Text.byteSize, hsize,
          byteSize_of_isHexDigit hall, ← Nat.add_assoc, ← Nat.add_assoc]
        rfl
    · cases h
  split at h
  · unfold stringLexeme at h
    split at h
    · cases h
      exact ⟨nofun, hfirst nofun⟩
    · split at h
      · cases h
        exact ⟨nofun, hfirst nofun⟩
      · cases h
  split at h
  · cases h
  · unfold symbolLexeme at h
    split at h
    · cases h
    · cases h
      exact ⟨nofun, hfirst nofun⟩

section Scanning

variable {source : List Char}

/-- Behind what stands at the front of a text the text goes on. -/
theorem byteSize_behind (front s : List Char) (c : Char) (count : Nat) :
    front ++ c :: s = front ++ c :: s.take count ++ s.drop count ∧
      Text.byteSize (front ++ c :: s.take count) =
        Text.byteSize front + Text.byteSize (c :: s.take count) := by
  refine ⟨?_, Text.byteSize_append _ _⟩
  rw [List.append_assoc, List.cons_append, List.take_append_drop]

/-- Each token stands for characters of the source that spell it, and the end for none of them. -/
theorem covers_of_tokensFrom (front : List Char) {found : List Token}
    (hsource : source = front ++ s) (h : tokensFrom (Text.byteSize front) s = .ok found) :
    ∀ token ∈ found, (∃ own, Covers source token.span own ∧ Spelled token.kind own) ∨
      token = ⟨.eof, Text.byteSize source, Text.byteSize source⟩ := by
  generalize hoffset : Text.byteSize front = offset at h
  fun_induction tokensFrom offset s generalizing front found with
  | case1 offset =>
    cases h
    rw [List.append_nil] at hsource
    subst hsource hoffset
    exact List.forall_mem_singleton.mpr (.inr rfl)
  | case2 => cases h
  | case3 => cases h
  | case4 offset c s count stop tokens hrest hlexeme =>
    rename_i ih
    cases h
    subst hoffset
    obtain ⟨hsplit, hstop⟩ := byteSize_behind front s c count
    exact ih _ (hsource.trans hsplit) hstop hrest
  | case5 offset c s count stop kind tokens hrest hlexeme =>
    rename_i ih
    cases h
    subst hoffset
    obtain ⟨hsplit, hstop⟩ := byteSize_behind front s c count
    refine List.forall_mem_cons.mpr ⟨.inl ⟨_, ?_, spelled_of_lexeme hlexeme⟩, ?_⟩
    · refine ⟨front, s.drop count, ?_, ?_⟩
      · rw [hsource, hsplit, List.append_assoc]
      · rw [hstop]
    · exact ih _ (hsource.trans hsplit) hstop hrest

/-- A text that cannot be cut into tokens is at fault at some of its characters. -/
theorem covers_of_tokensFrom_error (front : List Char) {fault : Fault}
    (hsource : source = front ++ s)
    (h : tokensFrom (Text.byteSize front) s = .error fault) :
    fault.cause ≠ .tooDeep ∧ ∃ own, Covers source fault.span own := by
  generalize hoffset : Text.byteSize front = offset at h
  fun_induction tokensFrom offset s generalizing front fault with
  | case1 => cases h
  | case2 offset c s cause hlexeme =>
    cases h
    obtain ⟨hcause, own, behind, hown, hspan⟩ := exists_of_lexeme_error hlexeme offset
    refine ⟨hcause, own, front, behind, ?_, ?_⟩
    · rw [hsource, hown]
    · dsimp only
      rw [hspan, Text.byteSize_append, hoffset]
  | case3 =>
    rename_i offset c s kind count hlexeme stop fault hrest ih
    cases h
    subst hoffset
    obtain ⟨hsplit, hstop⟩ := byteSize_behind front s c count
    exact ih _ (hsource.trans hsplit) hstop hrest
  | case4 => cases h
  | case5 => cases h

end Scanning

end Script
end Doctest
