import Doctest.Text.Lines
import Mathlib.Data.List.TakeWhile

/-!
# Places of byte offsets

The line of an offset counts the line feeds before it, and its column the bytes from the last of
these on. Later offsets have later places, so that no two offsets have the same place. A binary
search among the beginnings of the lines comes to the same place, and never to a line that is not
there or that begins only behind the offset.
-/

namespace Doctest.Text

/-! ### The bytes of a text -/

/-- The bytes of a text in UTF-8. -/
def bytes (s : List Char) : List UInt8 :=
  s.flatMap String.utf8EncodeChar

/-- The byte of a line feed. -/
def feedByte : UInt8 := 10

/-- The offsets just after each line feed among bytes, the first of which has the offset `start`. -/
def afterFeeds (start : Nat) : List UInt8 → List Nat
  | [] => []
  | b :: rest =>
    if b = feedByte then (start + 1) :: afterFeeds (start + 1) rest
    else afterFeeds (start + 1) rest

/-- The byte of a line feed is part of no other character: the bytes of those that take more than
one are all from 128 on. -/
theorem feedByte_notMem_utf8EncodeChar {c : Char} (h : c ≠ '\n') :
    feedByte ∉ String.utf8EncodeChar c := by
  have hval : c.val.toNat ≠ 10 := fun heq => h (Char.ext (UInt32.toNat_inj.mp heq))
  have hbyte (n : Nat) : feedByte = UInt8.ofNat n ↔ 10 = n % 256 := by
    rw [← UInt8.toNat_inj, UInt8.toNat_ofNat']
    rfl
  unfold String.utf8EncodeChar
  dsimp only
  split
  · simp only [List.mem_singleton, hbyte]
    omega
  split
  · simp only [List.mem_cons, List.not_mem_nil, or_false, hbyte]
    omega
  split
  · simp only [List.mem_cons, List.not_mem_nil, or_false, hbyte]
    omega
  · simp only [List.mem_cons, List.not_mem_nil, or_false, hbyte]
    omega

section

variable {start : Nat} {bs : List UInt8}

theorem afterFeeds_append (start : Nat) (front rest : List UInt8) :
    afterFeeds start (front ++ rest) =
      afterFeeds start front ++ afterFeeds (start + front.length) rest := by
  induction front generalizing start with
  | nil => rfl
  | cons b front ih =>
    have hnext : start + 1 + front.length = start + (front.length + 1) := by omega
    rw [List.cons_append, afterFeeds, afterFeeds, ih, List.length_cons, hnext]
    split <;> rfl

theorem length_afterFeeds (start : Nat) (bs : List UInt8) :
    (afterFeeds start bs).length = bs.count feedByte := by
  induction bs generalizing start with
  | nil => rfl
  | cons b rest ih =>
    rw [afterFeeds, List.count_cons]
    by_cases hb : b = feedByte <;> simp [hb, ih]

theorem afterFeeds_eq_nil_iff : afterFeeds start bs = [] ↔ bs.count feedByte = 0 := by
  rw [← List.length_eq_zero_iff, length_afterFeeds]

theorem mem_afterFeeds_iff {x : Nat} :
    x ∈ afterFeeds start bs ↔ ∃ p, bs[p]? = some feedByte ∧ x = start + p + 1 := by
  induction bs generalizing start with
  | nil => simp [afterFeeds]
  | cons b rest ih =>
    have hrest : x ∈ afterFeeds (start + 1) rest ↔
        ∃ p, (b :: rest)[p + 1]? = some feedByte ∧ x = start + (p + 1) + 1 := by
      simp only [ih, List.getElem?_cons_succ, Nat.add_right_comm start 1, Nat.add_assoc]
    have hsplit : (∃ p, (b :: rest)[p]? = some feedByte ∧ x = start + p + 1) ↔
        (b = feedByte ∧ x = start + 1) ∨ x ∈ afterFeeds (start + 1) rest := by
      rw [hrest]
      constructor
      · rintro ⟨_ | p, hp, hx⟩
        · exact .inl ⟨Option.some.inj hp, hx⟩
        · exact .inr ⟨p, hp, hx⟩
      · rintro (⟨hb, hx⟩ | ⟨p, hp, hx⟩)
        · exact ⟨0, congrArg some hb, hx⟩
        · exact ⟨p + 1, hp, hx⟩
    rw [hsplit, afterFeeds]
    by_cases hb : b = feedByte <;> simp [hb]

theorem lt_of_mem_afterFeeds {x : Nat} (h : x ∈ afterFeeds start bs) : start < x := by
  obtain ⟨p, -, rfl⟩ := mem_afterFeeds_iff.mp h
  omega

theorem pairwise_afterFeeds (start : Nat) (bs : List UInt8) :
    (afterFeeds start bs).Pairwise (· < ·) := by
  induction bs generalizing start with
  | nil => exact .nil
  | cons b rest ih =>
    rw [afterFeeds]
    split
    · exact .cons (fun x hx => lt_of_mem_afterFeeds hx) (ih _)
    · exact ih _

/-- The offsets that are not behind another one come from the bytes before that. -/
theorem takeWhile_afterFeeds (start offset : Nat) (bs : List UInt8) :
    (afterFeeds start bs).takeWhile (· ≤ offset) = afterFeeds start (bs.take (offset - start)) := by
  induction bs generalizing start with
  | nil => rw [List.take_nil]; rfl
  | cons b rest ih =>
    have hrest := ih (start + 1)
    rcases Nat.lt_or_ge start offset with hlt | hle
    · obtain ⟨n, hn⟩ : ∃ n, offset - start = n + 1 := ⟨offset - start - 1, by omega⟩
      have hnext : offset - (start + 1) = n := by omega
      rw [hnext] at hrest
      rw [hn, List.take_succ_cons, afterFeeds, afterFeeds]
      split
      · rw [List.takeWhile_cons_of_pos (p := (· ≤ offset)) (decide_eq_true hlt), hrest]
      · exact hrest
    · rw [Nat.sub_eq_zero_of_le hle, List.take_zero]
      refine List.takeWhile_eq_nil_iff.mpr fun hpos hbefore => ?_
      have hbehind := lt_of_mem_afterFeeds (List.get_mem (afterFeeds start (b :: rest)) ⟨0, hpos⟩)
      exact Nat.not_lt.mpr hle (Nat.lt_of_lt_of_le hbehind (of_decide_eq_true hbefore))

end

theorem offsetsAfterFeeds_eq (start : Nat) (s : List Char) :
    offsetsAfterFeeds start s = afterFeeds start (bytes s) := by
  induction s generalizing start with
  | nil => rfl
  | cons c s ih =>
    rw [offsetsAfterFeeds, bytes, List.flatMap_cons, afterFeeds_append,
      String.length_utf8EncodeChar, ← bytes]
    by_cases hc : c = '\n'
    · subst hc
      rw [if_pos rfl, ih]
      rfl
    · have hnone : afterFeeds start (String.utf8EncodeChar c) = [] :=
        afterFeeds_eq_nil_iff.mpr (List.count_eq_zero.mpr (feedByte_notMem_utf8EncodeChar hc))
      rw [if_neg hc, ih, hnone, List.nil_append]

/-! ### Where lines begin -/

/-- A line begins at an offset and goes on at least up to another one: before it is nothing or a
line feed, and in between is none. -/
structure BeginsLineOf (s : List Char) (offset start : Nat) : Prop where
  le : start ≤ offset
  behind : start = 0 ∨ ∃ p, start = p + 1 ∧ (bytes s)[p]? = some feedByte
  without : ∀ p, start ≤ p → p < offset → (bytes s)[p]? ≠ some feedByte

/-- The last of ascending numbers is the greatest. -/
theorem le_getLastD {xs : List Nat} (h : xs.Pairwise (· < ·)) {x : Nat} (hx : x ∈ xs)
    (default : Nat) : x ≤ xs.getLastD default := by
  rcases List.eq_nil_or_concat xs with rfl | ⟨front, last, rfl⟩
  · cases hx
  rw [List.concat_eq_append] at h hx ⊢
  rw [List.getLastD_concat]
  rcases List.mem_append.mp hx with hx | hx
  · exact Nat.le_of_lt ((List.pairwise_append.mp h).2.2 x hx last List.mem_cons_self)
  · exact Nat.le_of_eq (List.mem_singleton.mp hx)

/-- The beginnings of the lines of a text that are not behind an offset. -/
def startsUpTo (s : List Char) (offset : Nat) : List Nat :=
  0 :: afterFeeds 0 ((bytes s).take offset)

section

variable {s : List Char} {offset : Nat}

theorem length_startsUpTo (s : List Char) (offset : Nat) :
    (startsUpTo s offset).length = 1 + ((bytes s).take offset).count feedByte := by
  rw [startsUpTo, List.length_cons, length_afterFeeds, Nat.add_comm]

theorem pairwise_startsUpTo (s : List Char) (offset : Nat) :
    (startsUpTo s offset).Pairwise (· < ·) :=
  .cons (fun _ hx => lt_of_mem_afterFeeds hx) (pairwise_afterFeeds _ _)

theorem mem_startsUpTo_iff {x : Nat} :
    x ∈ startsUpTo s offset ↔
      x = 0 ∨ ∃ p, x = p + 1 ∧ p < offset ∧ (bytes s)[p]? = some feedByte := by
  rw [startsUpTo, List.mem_cons, mem_afterFeeds_iff]
  refine or_congr_right (exists_congr fun p => ?_)
  rw [List.getElem?_take, Nat.zero_add]
  by_cases hp : p < offset <;> simp [hp, and_comm]

theorem getLastD_startsUpTo_mem (s : List Char) (offset : Nat) :
    (startsUpTo s offset).getLastD 0 ∈ startsUpTo s offset := by
  rw [startsUpTo, List.getLastD_cons]
  exact List.getLastD_mem_cons

/-- The line of an offset is the last one that does not begin behind it. -/
theorem beginsLineOf_getLastD (s : List Char) (offset : Nat) :
    BeginsLineOf s offset ((startsUpTo s offset).getLastD 0) where
  le := by
    rcases mem_startsUpTo_iff.mp (getLastD_startsUpTo_mem s offset) with
      hzero | ⟨p, hstart, hp, -⟩ <;> omega
  behind := by
    refine (mem_startsUpTo_iff.mp (getLastD_startsUpTo_mem s offset)).imp_right ?_
    rintro ⟨p, hstart, -, hfeed⟩
    exact ⟨p, hstart, hfeed⟩
  without p hstart hp hfeed := by
    have hmem : p + 1 ∈ startsUpTo s offset := mem_startsUpTo_iff.mpr (.inr ⟨p, rfl, hp, hfeed⟩)
    have hle := le_getLastD (pairwise_startsUpTo s offset) hmem 0
    omega

/-- A later offset has at least as many line feeds before it. If they are no more, the same line
begins before both of the offsets. -/
theorem startsUpTo_of_le (s : List Char) {later : Nat} (h : offset ≤ later) :
    (startsUpTo s offset).length ≤ (startsUpTo s later).length ∧
      ((startsUpTo s offset).length = (startsUpTo s later).length →
        startsUpTo s offset = startsUpTo s later) := by
  have hearlier : startsUpTo s offset <+: startsUpTo s later := by
    have htake := List.take_append_drop offset ((bytes s).take later)
    rw [List.take_take, Nat.min_eq_left h] at htake
    rw [startsUpTo, startsUpTo, ← htake, afterFeeds_append, ← List.cons_append]
    exact List.prefix_append _ _
  exact ⟨hearlier.length_le, hearlier.eq_of_length⟩

end

/-! ### Binary search -/

/-- A binary search between two numbers: the first number of which a condition does not hold, if it
holds of none behind that. -/
def bisect (holds : Nat → Bool) (low high : Nat) : Nat :=
  if low < high then
    let middle := low + (high - low) / 2
    if holds middle then bisect holds (middle + 1) high else bisect holds low middle
  else low
termination_by high - low

/-- The condition holds before what is found, and neither there nor behind it. -/
theorem bisect_parts (holds : Nat → Bool) {low high : Nat} (hle : low ≤ high)
    (hdown : ∀ i j, i ≤ j → holds j = true → holds i = true) :
    low ≤ bisect holds low high ∧ bisect holds low high ≤ high ∧
      (∀ i, low ≤ i → i < bisect holds low high → holds i = true) ∧
      ∀ i, bisect holds low high ≤ i → i < high → holds i = false := by
  fun_induction bisect holds low high with
  | case1 low high hlt middle hmiddle ih =>
    obtain ⟨hlow, hhigh, hbefore, hbehind⟩ := ih (by omega)
    refine ⟨by omega, hhigh, fun i hi hfound => ?_, hbehind⟩
    by_cases hnext : middle + 1 ≤ i
    · exact hbefore i hnext hfound
    · exact hdown i middle (by omega) hmiddle
  | case2 low high hlt middle hmiddle ih =>
    obtain ⟨hlow, hhigh, hbefore, hbehind⟩ := ih (by omega)
    refine ⟨hlow, by omega, hbefore, fun i hfound hi => ?_⟩
    by_cases hnext : i < middle
    · exact hbehind i hfound hnext
    · exact Bool.eq_false_iff.mpr fun hholds => hmiddle (hdown middle i (by omega) hholds)
  | case3 low high hlt => exact ⟨Nat.le_refl _, hle, by omega, by omega⟩

/-- In ascending numbers the search finds how many of them there are up to a bound. -/
theorem bisect_of_pairwise {xs : List Nat} (h : xs.Pairwise (· < ·)) (bound : Nat) :
    bisect (fun i => xs[i]?.any (· ≤ bound)) 0 xs.length =
      (xs.takeWhile (· ≤ bound)).length := by
  have hholds (i : Nat) : xs[i]?.any (· ≤ bound) = true ↔ ∃ hi : i < xs.length, xs[i] ≤ bound := by
    by_cases hi : i < xs.length <;> simp [hi]
  have hdown (i j : Nat) (hij : i ≤ j) (hj : xs[j]?.any (· ≤ bound) = true) :
      xs[i]?.any (· ≤ bound) = true := by
    obtain ⟨hj, hle⟩ := (hholds j).mp hj
    refine (hholds i).mpr ⟨Nat.lt_of_le_of_lt hij hj, ?_⟩
    rcases Nat.eq_or_lt_of_le hij with rfl | hlt
    · exact hle
    · exact Nat.le_trans (Nat.le_of_lt (List.pairwise_iff_getElem.mp h i j _ hj hlt)) hle
  obtain ⟨-, hfound, hbefore, hbehind⟩ := bisect_parts _ (Nat.zero_le xs.length) hdown
  generalize bisect (fun i => xs[i]?.any (· ≤ bound)) 0 xs.length = found at *
  have hfront : ∀ x ∈ xs.take found, decide (x ≤ bound) = true := by
    intro x hx
    obtain ⟨i, hi, rfl⟩ := List.mem_take_iff_getElem.mp hx
    obtain ⟨_, hle⟩ := (hholds i).mp (hbefore i (Nat.zero_le i) (by omega))
    exact decide_eq_true hle
  have hrest : (xs.drop found).takeWhile (· ≤ bound) = [] := by
    refine List.takeWhile_eq_nil_iff.mpr fun hpos hle => ?_
    have hlast : found < xs.length := Nat.lt_of_sub_pos (by rwa [List.length_drop] at hpos)
    rw [List.get_eq_getElem, List.getElem_drop] at hle
    have hfalse := hbehind found (Nat.le_refl _) hlast
    rw [(hholds found).mpr ⟨hlast, of_decide_eq_true hle⟩] at hfalse
    cases hfalse
  rw [← List.take_append_drop found xs, List.takeWhile_append_of_pos hfront, hrest,
    List.append_nil, List.length_take, Nat.min_eq_left hfound]

namespace LineMap

/-- The place of an offset, with the line found by a binary search. There is none if the search does
not lead to a line, or leads to one that begins behind the offset. -/
def search? (map : LineMap) (offset : Nat) : Option Position :=
  let line := bisect (fun i => map.starts[i]?.any (· ≤ offset)) 0 map.starts.length
  if line = 0 then none
  else
    match map.starts[line - 1]? with
    | some start => if start ≤ offset then some ⟨line, offset - start + 1⟩ else none
    | none => none

variable (s : List Char) (offset : Nat)

theorem takeWhile_starts :
    (ofText s).starts.takeWhile (· ≤ offset) = startsUpTo s offset := by
  rw [ofText, offsetsAfterFeeds_eq, List.takeWhile_cons_of_pos (by simp), takeWhile_afterFeeds]
  rfl

theorem pairwise_starts : (ofText s).starts.Pairwise (· < ·) := by
  rw [ofText, offsetsAfterFeeds_eq]
  exact .cons (fun _ hx => lt_of_mem_afterFeeds hx) (pairwise_afterFeeds _ _)

theorem position_ofText :
    (ofText s).position offset =
      ⟨(startsUpTo s offset).length, offset - (startsUpTo s offset).getLastD 0 + 1⟩ := by
  rw [position, takeWhile_starts]

/-- The search leads to a line that does not begin behind the offset. -/
theorem search?_ofText : (ofText s).search? offset = some ((ofText s).position offset) := by
  have hsplit : (ofText s).starts =
      startsUpTo s offset ++ (ofText s).starts.dropWhile (· ≤ offset) := by
    rw [← takeWhile_starts, List.takeWhile_append_dropWhile]
  have hstart : (ofText s).starts[(startsUpTo s offset).length - 1]? =
      some ((startsUpTo s offset).getLastD 0) := by
    have hlast : (startsUpTo s offset).length - 1 < (startsUpTo s offset).length :=
      Nat.sub_lt (Nat.zero_lt_succ _) Nat.zero_lt_one
    rw [hsplit, List.getElem?_append_left hlast, ← List.getLast?_eq_getElem?,
      List.getLastD_eq_getLast?]
    rfl
  have hle := (beginsLineOf_getLastD s offset).le
  have hpos : (startsUpTo s offset).length ≠ 0 := Nat.succ_ne_zero _
  rw [position_ofText, search?, bisect_of_pairwise (pairwise_starts s), takeWhile_starts, hstart,
    if_neg hpos]
  exact if_pos hle

end LineMap

/-- A place before another one: on an earlier line, or further to the left on the same line. -/
def Position.Before (a b : Position) : Prop :=
  a.line < b.line ∨ a.line = b.line ∧ a.column < b.column

theorem Position.not_before_self (a : Position) : ¬ a.Before a := by
  rintro (h | ⟨-, h⟩) <;> exact Nat.lt_irrefl _ h

theorem LineMap.position_before (s : List Char) {offset later : Nat} (h : offset < later) :
    ((ofText s).position offset).Before ((ofText s).position later) := by
  obtain ⟨hlength, hsame⟩ := startsUpTo_of_le s (Nat.le_of_lt h)
  rw [position_ofText, position_ofText]
  rcases Nat.lt_or_eq_of_le hlength with hless | heq
  · exact .inl hless
  · refine .inr ⟨heq, ?_⟩
    have hle := (beginsLineOf_getLastD s offset).le
    rw [hsame heq] at hle ⊢
    dsimp only
    omega

end Doctest.Text
