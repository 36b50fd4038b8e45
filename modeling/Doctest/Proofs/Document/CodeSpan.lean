import Doctest.Proofs.Document.MarkerLine

/-!
# Reading a failure from its marker

A marker of a failure says what went wrong in a code span. A reader of code spans takes the run of
backticks in front, goes on up to the next run of the same width, and drops one space at each end if
there is one at both. So read, the marker gives the whole message, its line breaks apart.
-/

namespace Doctest

/-! ### Code spans as they are read -/

namespace CodeSpan

/-- The text before the first run of exactly `width` backticks, and the text behind that run. In
front of the text stand `run` backticks already. -/
def close? (width : Nat) : Nat → List Char → Option (List Char × List Char)
  | run, [] => if run = width then some ([], []) else none
  | run, c :: s =>
    if c = Fence.backtick then close? width (run + 1) s
    else if run = width then some ([], c :: s)
    else (close? width 0 s).map fun (inside, rest) =>
      (List.replicate run Fence.backtick ++ c :: inside, rest)

/-- A text without a space at each end, if there is one at both. -/
def unpad (inside : List Char) : List Char :=
  if inside.head? = some ' ' ∧ inside.getLast? = some ' ' then inside.tail.dropLast else inside

/-- The content of the code span at the front of a text, and the text behind the span. -/
def read? (s : List Char) : Option (List Char × List Char) :=
  let width := Fence.leading Fence.backtick s
  if width = 0 then none
  else (close? width 0 (s.drop width)).map fun (inside, rest) => (unpad inside, rest)

variable {content rest : List Char} {width run : Nat}

theorem leading_cons_backtick (s : List Char) :
    Fence.leading Fence.backtick (Fence.backtick :: s) =
      Fence.leading Fence.backtick s + 1 := by
  simp [Fence.leading]

theorem leading_eq_zero {s : List Char} (h : s.head? ≠ some Fence.backtick) :
    Fence.leading Fence.backtick s = 0 := by
  cases s with
  | nil => rfl
  | cons c s =>
    have hc : c ≠ Fence.backtick := fun hc => h (congrArg some hc)
    simp [Fence.leading, hc]

theorem leading_le_longestRun (s : List Char) :
    Fence.leading Fence.backtick s ≤ Marker.longestRun s := by
  cases s with
  | nil => exact Nat.le_refl 0
  | cons c s => exact Nat.le_max_left _ _

theorem longestRun_le_cons (c : Char) (s : List Char) :
    Marker.longestRun s ≤ Marker.longestRun (c :: s) :=
  Nat.le_max_right _ _

/-- A space at the end of a text belongs to no run. -/
theorem longestRun_append_space (s : List Char) :
    Marker.longestRun (s ++ [' ']) = Marker.longestRun s := by
  have hleading (s : List Char) :
      Fence.leading Fence.backtick (s ++ [' ']) = Fence.leading Fence.backtick s := by
    induction s with
    | nil => rfl
    | cons c s ih =>
      by_cases hc : c = Fence.backtick
      · rw [hc, List.cons_append, leading_cons_backtick, leading_cons_backtick, ih]
      · simp [Fence.leading, hc]
  induction s with
  | nil => rfl
  | cons c s ih =>
    rw [List.cons_append, Marker.longestRun, Marker.longestRun, ih, ← List.cons_append, hleading]

/-- Nor does one in front of it. -/
theorem longestRun_cons_space (s : List Char) :
    Marker.longestRun (' ' :: s) = Marker.longestRun s := by
  have hspace : (' ' :: s).head? ≠ some Fence.backtick := by simp [Fence.backtick]
  rw [Marker.longestRun, leading_eq_zero hspace, Nat.zero_max]

/-- A run in front of a text that begins otherwise. -/
theorem leading_replicate_append {s : List Char} (hs : s.head? ≠ some Fence.backtick) (n : Nat) :
    Fence.leading Fence.backtick (List.replicate n Fence.backtick ++ s) = n := by
  induction n with
  | zero => exact leading_eq_zero hs
  | succ n ih => rw [List.replicate_succ, List.cons_append, leading_cons_backtick, ih]

/-- A run that fills up the width closes the span. -/
theorem close?_replicate (hrest : rest.head? ≠ some Fence.backtick) {n : Nat}
    (hwidth : run + n = width) :
    close? width run (List.replicate n Fence.backtick ++ rest) = some ([], rest) := by
  induction n generalizing run with
  | zero =>
    obtain rfl : run = width := hwidth
    cases rest with
    | nil => exact if_pos rfl
    | cons c rest =>
      have hc : c ≠ Fence.backtick := fun hc => hrest (congrArg some hc)
      rw [List.replicate_zero, List.nil_append, close?, if_neg hc, if_pos rfl]
  | succ n ih =>
    rw [List.replicate_succ, List.cons_append, close?, if_pos rfl]
    exact ih (by omega)

/-- A text with only narrower runs is read up to the run that closes it. -/
theorem close?_append (hrest : rest.head? ≠ some Fence.backtick)
    (hlast : content.getLast? ≠ some Fence.backtick) (hempty : content = [] → run = 0)
    (hfront : run + Fence.leading Fence.backtick content < width)
    (hinside : Marker.longestRun content < width) :
    close? width run (content ++ (List.replicate width Fence.backtick ++ rest)) =
      some (List.replicate run Fence.backtick ++ content, rest) := by
  induction content generalizing run with
  | nil =>
    obtain rfl := hempty rfl
    exact close?_replicate hrest (Nat.zero_add width)
  | cons c s ih =>
    have hshorter : Marker.longestRun s < width :=
      Nat.lt_of_le_of_lt (longestRun_le_cons c s) hinside
    by_cases hc : c = Fence.backtick
    · -- The run goes on, and there is something behind it.
      subst hc
      have hne : s ≠ [] := by
        rintro rfl
        exact hlast rfl
      rw [List.getLast?_cons_of_ne_nil hne] at hlast
      rw [leading_cons_backtick] at hfront
      rw [List.cons_append, close?, if_pos rfl,
        ih hlast (fun hs => absurd hs hne) (by omega) hshorter, List.replicate_succ',
        List.append_assoc]
      rfl
    · have hbehind : s.getLast? ≠ some Fence.backtick := by
        intro hs
        have hne : s ≠ [] := by
          rintro rfl
          cases hs
        exact hlast ((List.getLast?_cons_of_ne_nil hne).trans hs)
      have hstart : 0 + Fence.leading Fence.backtick s < width := by
        rw [Nat.zero_add]
        exact Nat.lt_of_le_of_lt (leading_le_longestRun s) hshorter
      rw [List.cons_append, close?, if_neg hc, if_neg (by omega),
        ih hbehind (fun _ => rfl) hstart hshorter]
      rfl

/-- What is put in a code span is read from it, unless spaces are at both of its ends. -/
theorem read?_codeSpan (hne : content ≠ [])
    (hends : content.head? ≠ some ' ' ∨ content.getLast? ≠ some ' ')
    (hrest : rest.head? ≠ some Fence.backtick) :
    read? (Marker.codeSpan content ++ rest) = some (content, rest) := by
  -- Both forms of a span are two runs around a text that neither begins nor ends with a backtick.
  have hread {inside : List Char} (hinside : inside ≠ [])
      (hfirst : inside.head? ≠ some Fence.backtick)
      (hlast : inside.getLast? ≠ some Fence.backtick)
      (hrun : Marker.longestRun inside = Marker.longestRun content) :
      read? (List.replicate (Marker.longestRun content + 1) Fence.backtick ++ inside ++
        List.replicate (Marker.longestRun content + 1) Fence.backtick ++ rest) =
        some (unpad inside, rest) := by
    have hwidth (s : List Char) : Fence.leading Fence.backtick
        (List.replicate (Marker.longestRun content + 1) Fence.backtick ++ (inside ++ s)) =
          Marker.longestRun content + 1 := by
      refine leading_replicate_append ?_ _
      rw [List.head?_append_of_ne_nil _ hinside]
      exact hfirst
    have hfront : 0 + Fence.leading Fence.backtick inside < Marker.longestRun content + 1 := by
      rw [leading_eq_zero hfirst]
      omega
    have hclose := close?_append hrest hlast (fun h => absurd h hinside) hfront (by omega)
    rw [List.append_assoc, List.append_assoc, read?]
    dsimp only
    rw [hwidth, if_neg (Nat.succ_ne_zero _), List.drop_left' List.length_replicate, hclose]
    rfl
  unfold Marker.codeSpan
  dsimp only
  split_ifs with hpadded
  · have hpad := hread (List.cons_ne_nil ' ' (content ++ [' ']))
      (fun h => absurd (Option.some.inj h) (by decide))
      (by rw [← List.cons_append, List.getLast?_concat]; decide)
      (by rw [longestRun_cons_space, longestRun_append_space])
    have hunpad : unpad (' ' :: (content ++ [' '])) = content := by
      rw [unpad, if_pos ⟨rfl, by rw [← List.cons_append, List.getLast?_concat]⟩, List.tail_cons,
        List.dropLast_concat]
    rw [hunpad] at hpad
    simpa using hpad
  · rw [not_or] at hpadded
    rw [hread hne hpadded.1 hpadded.2 rfl, unpad, if_neg]
    rintro ⟨hfirst, hlast⟩
    exact hends.elim (· hfirst) (· hlast)

end CodeSpan

/-! ### Failures as they are read -/

namespace Marker

/-- A text and the same text with a space for each of its line breaks. A carriage return with a line
feed behind it is one line break. -/
inductive Folds : List Char → List Char → Prop
  | nil : Folds [] []
  | both {s t : List Char} (h : Folds s t) : Folds ('\r' :: '\n' :: s) (' ' :: t)
  | feed {s t : List Char} (h : Folds s t) : Folds ('\n' :: s) (' ' :: t)
  | alone {s t : List Char} (hs : s.head? ≠ some '\n') (h : Folds s t) :
    Folds ('\r' :: s) (' ' :: t)
  | other {c : Char} {s t : List Char} (hfeed : c ≠ '\n') (hreturn : c ≠ '\r') (h : Folds s t) :
    Folds (c :: s) (c :: t)

theorem folds_oneLine (s : List Char) : Folds s (oneLine s) := by
  fun_induction oneLine s with
  | case1 => exact .nil
  | case2 s ih => exact .both ih
  | case3 c s hboth ih =>
    by_cases hfeed : c = '\n'
    · subst hfeed
      exact .feed ih
    by_cases hreturn : c = '\r'
    · subst hreturn
      refine .alone (fun hs => ?_) ih
      obtain ⟨rest, rfl⟩ := List.head?_eq_some_iff.mp hs
      exact hboth rest rfl rfl
    · rw [if_neg (not_or.mpr ⟨hfeed, hreturn⟩)]
      exact .other hfeed hreturn ih

/-- **A marker of a failure loses nothing but line breaks.** It stands on one line, from which it is
read again, and behind its opening there is one code span: the message with a space for each line
break. -/
theorem fail_reads_back (message : String) :
    (∀ c ∈ (fail message).text, c ≠ '\n' ∧ c ≠ '\r') ∧
      ofLine? (fail message).text = some (fail message) ∧
      ∃ span folded, (fail message).text = opening .fail ++ span ∧ Folds message.toList folded ∧
        CodeSpan.read? span = some ("Error: ".toList ++ folded, []) := by
  have hmarker := wellFormed_fail message
  refine ⟨fun c hmem => ⟨?_, ?_⟩, hmarker.reads, _, _, rfl, folds_oneLine _, ?_⟩
  · rintro rfl
    exact hmarker.noFeed hmem
  · rintro rfl
    exact hmarker.noReturn hmem
  · have hfirst : ("Error: ".toList ++ oneLine message.toList).head? ≠ some ' ' := by
      simp
    have hnone : ([] : List Char).head? ≠ some Fence.backtick := nofun
    have hread := CodeSpan.read?_codeSpan (by simp) (.inl hfirst) hnone
    rwa [List.append_nil] at hread

/-- Two line breaks, a run of backticks inside, and one at the end. -/
example : (fail "a\r\n``b\n`").text = "❌ ``` Error: a ``b ` ```".toList := by decide

end Marker

end Doctest
