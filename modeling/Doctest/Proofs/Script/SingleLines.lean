import Doctest.Proofs.Script.Drawing
import Doctest.Proofs.Script.Showing

/-!
# Values shown on one line

Texts and keys are shown in quotes, where no line ends. The names and messages of errors and the
names of functions are shown as they are. They alone decide whether a value is shown on one line.
-/

namespace Doctest

namespace Text

/-- A text without line ends. -/
def IsOneLine (s : List Char) : Prop :=
  ∀ c ∈ s, c ≠ '\n' ∧ c ≠ '\r'

instance (s : List Char) : Decidable (IsOneLine s) :=
  List.decidableBAll _ s

variable {s t : List Char} {c : Char}

@[simp] theorem isOneLine_nil : IsOneLine [] :=
  nofun

@[simp] theorem isOneLine_cons : IsOneLine (c :: s) ↔ (c ≠ '\n' ∧ c ≠ '\r') ∧ IsOneLine s :=
  List.forall_mem_cons

@[simp] theorem isOneLine_append : IsOneLine (s ++ t) ↔ IsOneLine s ∧ IsOneLine t :=
  List.forall_mem_append

theorem isOneLine_flatten {texts : List (List Char)} :
    IsOneLine texts.flatten ↔ ∀ text ∈ texts, IsOneLine text :=
  List.forall_mem_flatten

theorem IsOneLine.of_infix (h : IsOneLine t) (hs : s <:+: t) : IsOneLine s :=
  fun c hmem => h c (hs.subset hmem)

/-- A text without blanks is on one line. -/
theorem isOneLine_of_isBlank (h : ∀ c ∈ s, isBlank c = false) : IsOneLine s := by
  intro c hmem
  have hblank := h c hmem
  constructor <;> rintro rfl <;> cases hblank

end Text

namespace Script

open Text

/-! ### Texts, keys and numbers -/

theorem isOneLine_quotedChar {mark : Char} (hmark : IsOneLine [mark]) (c : Char) :
    IsOneLine (quotedChar mark c) := by
  rw [quotedChar]
  split_ifs with hfeed htab hreturn hslash hquote
  · simp
  · simp
  · simp
  · simp
  · rw [hquote, isOneLine_cons]
    exact ⟨by decide, hmark⟩
  · exact isOneLine_cons.mpr ⟨⟨hfeed, hreturn⟩, isOneLine_nil⟩

/-- A text between quotes is on one line, whatever the text is. -/
theorem isOneLine_quoted (s : List Char) : IsOneLine (quoted s) := by
  have hmark : IsOneLine [quoteMark s] := by
    rw [quoteMark]
    split_ifs <;> simp
  have hbody : IsOneLine (s.flatMap (quotedChar (quoteMark s))) := by
    intro c hmem
    obtain ⟨d, -, hd⟩ := List.mem_flatMap.mp hmem
    exact isOneLine_quotedChar hmark d c hd
  rw [quoted, isOneLine_append]
  exact ⟨isOneLine_cons.mpr ⟨hmark _ (List.mem_singleton_self _), hbody⟩, hmark⟩

theorem isOneLine_keyText (key : String) : IsOneLine (keyText key) := by
  rw [keyText]
  split
  case isFalse => exact isOneLine_quoted _
  case isTrue hplain =>
    intro c hmem
    have hc : (isKeyStart c || c.isDigit) = true := by
      cases hkey : key.toList with
      | nil =>
        rw [hkey] at hplain
        cases hplain
      | cons first rest =>
        rw [hkey] at hplain hmem
        obtain ⟨hfirst, hrest⟩ := Bool.and_eq_true_iff.mp hplain
        rcases List.mem_cons.mp hmem with rfl | hmem
        · rw [hfirst, Bool.true_or]
        · exact List.all_eq_true.mp hrest c hmem
    constructor <;> rintro rfl <;> revert hc <;> decide

theorem isOneLine_numberText (x : Float) : IsOneLine (numberText x) := by
  cases hparts : Number.Binary.ofFloat x with
  | finite negative m e =>
    obtain ⟨n, hn⟩ := writes_sizeText m e
    rw [numberText_of_finite hparts, isOneLine_append]
    exact ⟨by cases negative <;> simp, isOneLine_of_isBlank hn.isBlank_eq_false⟩
  | nan | infinite negative =>
    rw [numberText, Number.text, hparts]
    dsimp only
    split_ifs <;> simp

/-! ### Containers -/

variable {texts : List (List Char)}

theorem isOneLine_intersperse {between : List Char} (hbetween : IsOneLine between)
    (htexts : ∀ text ∈ texts, IsOneLine text) : IsOneLine (texts.intersperse between).flatten := by
  induction texts with
  | nil => exact isOneLine_nil
  | cons text texts ih =>
    obtain ⟨htext, htexts⟩ := List.forall_mem_cons.mp htexts
    cases texts with
    | nil => simpa using htext
    | cons second rest =>
      rw [List.intersperse_cons_cons, List.flatten_cons, List.flatten_cons]
      exact isOneLine_append.mpr ⟨htext, isOneLine_append.mpr ⟨hbetween, ih htexts⟩⟩

theorem isOneLine_enclosed {first last : Char} (hmarks : IsOneLine [first, last]) :
    IsOneLine (enclosed first last texts) ↔ ∀ text ∈ texts, IsOneLine text := by
  refine ⟨fun h text hmem => h.of_infix (infix_enclosed hmem), fun htexts => ?_⟩
  rw [enclosed]
  split
  · exact hmarks
  · have hbetween : IsOneLine [',', ' '] := by simp
    have hitems := isOneLine_intersperse hbetween htexts
    obtain ⟨hfirst, hlast⟩ := isOneLine_cons.mp hmarks
    have hblank : ' ' ≠ '\n' ∧ ' ' ≠ '\r' := by decide
    simp only [List.cons_append, isOneLine_cons, isOneLine_append]
    exact ⟨hfirst, hblank, hitems, hblank, isOneLine_cons.mp hlast⟩

theorem isOneLine_shownUnder {keys : List String} (hlength : texts.length = keys.length) :
    IsOneLine (shownUnder keys texts) ↔ ∀ text ∈ texts, IsOneLine text := by
  refine ⟨fun h text hmem => h.of_infix (infix_shownUnder hlength hmem), fun htexts => ?_⟩
  refine (isOneLine_enclosed (by simp)).mpr fun entry hentry => ?_
  obtain ⟨i, hi⟩ := List.mem_iff_getElem?.mp hentry
  obtain ⟨key, text, -, htext, rfl⟩ := List.getElem?_zipWith_eq_some.mp hi
  rw [isOneLine_append, isOneLine_append]
  exact ⟨⟨isOneLine_keyText key, by simp⟩, htexts text (List.mem_of_getElem? htext)⟩

/-! ### Names and messages -/

/-- The texts of a value that are shown as they are. -/
def Heap.bareTexts (heap : Heap) : Value → List String
  | .error ref => [(heap.get ref).name, (heap.get ref).message]
  | .callable ref => [(heap.get ref).name]
  | _ => []

/-- No text that is shown as it is breaks the line on which a value is shown. -/
def Heap.Unbroken (heap : Heap) (value : Value) : Prop :=
  ∀ inner, heap.drawing.Reaches value inner → ∀ s ∈ heap.bareTexts inner, IsOneLine s.toList

theorem isOneLine_shownHead (error : ErrorObject) :
    IsOneLine error.shownHead ↔ IsOneLine error.name.toList ∧ IsOneLine error.message.toList := by
  rw [ErrorObject.shownHead, isOneLine_append, isOneLine_append, isOneLine_cons]
  split
  case isTrue hempty =>
    rw [String.isEmpty_iff.mp hempty]
    simp
  case isFalse => simp

theorem isOneLine_callableText (callable : Callable) :
    IsOneLine callable.text ↔ IsOneLine callable.name.toList := by
  rw [Callable.text]
  split
  case isTrue hempty =>
    rw [String.isEmpty_iff.mp hempty]
    simp
  case isFalse => simp

variable {heap : Heap}

theorem isOneLine_state {state : PromiseState} (hlength : texts.length = state.parts.length) :
    IsOneLine (state.around texts) ↔ ∀ text ∈ texts, IsOneLine text := by
  cases state with
  | pending reaction =>
    have hline : IsOneLine "<pending>".toList := by simp
    refine iff_of_true hline ?_
    rw [List.eq_nil_of_length_eq_zero hlength]
    nofun
  | fulfilled value => exact isOneLine_flatten
  | rejected reason =>
    have hline : IsOneLine "<rejected> ".toList := by simp
    exact isOneLine_append.trans ((and_iff_right hline).trans isOneLine_flatten)

/-- A value is told on one line if what is told of its parts is and the texts that are shown as
they are. -/
theorem isOneLine_around {value : Value}
    (hlength : texts.length = (heap.drawing.parts value).length) :
    IsOneLine (heap.drawing.around value texts) ↔
      (∀ s ∈ heap.bareTexts value, IsOneLine s.toList) ∧ ∀ text ∈ texts, IsOneLine text := by
  have hnone (hparts : heap.drawing.parts value = []) : ∀ text ∈ texts, IsOneLine text := by
    rw [hparts] at hlength
    rw [List.eq_nil_of_length_eq_zero hlength]
    nofun
  cases value with
  | undefined =>
    have hline : IsOneLine "undefined".toList := by simp
    exact iff_of_true hline ⟨nofun, hnone rfl⟩
  | null =>
    have hline : IsOneLine "null".toList := by simp
    exact iff_of_true hline ⟨nofun, hnone rfl⟩
  | bool b =>
    have htrue : IsOneLine "true".toList := by simp
    have hfalse : IsOneLine "false".toList := by simp
    cases b with
    | true => exact iff_of_true htrue ⟨nofun, hnone rfl⟩
    | false => exact iff_of_true hfalse ⟨nofun, hnone rfl⟩
  | number x => exact iff_of_true (isOneLine_numberText x) ⟨nofun, hnone rfl⟩
  | string s => exact iff_of_true (isOneLine_quoted _) ⟨nofun, hnone rfl⟩
  | array ref => exact (isOneLine_enclosed (by simp)).trans (and_iff_right nofun).symm
  | object ref =>
    have hkeys := hlength.trans (length_values (heap.get ref))
    exact (isOneLine_shownUnder hkeys).trans (and_iff_right nofun).symm
  | error ref =>
    have hkeys := hlength.trans (length_values (heap.get ref).properties)
    have hnil (hempty : (heap.get ref).properties.isEmpty = true) :
        heap.drawing.parts (.error ref) = [] :=
      congrArg (List.map Prod.snd) (List.isEmpty_iff.mp hempty)
    change IsOneLine ((heap.get ref).shownHead ++ _) ↔ (∀ s ∈ [_, _], _) ∧ _
    rw [isOneLine_append, isOneLine_shownHead, List.forall_mem_cons, List.forall_mem_singleton]
    refine and_congr_right fun _ => ?_
    split
    case isTrue hempty => exact iff_of_true isOneLine_nil (hnone (hnil hempty))
    case isFalse =>
      rw [isOneLine_cons, isOneLine_shownUnder hkeys]
      exact and_iff_right (by decide)
  | callable ref =>
    change IsOneLine (heap.get ref).text ↔ (∀ s ∈ [_], _) ∧ _
    rw [isOneLine_callableText, List.forall_mem_singleton, and_iff_left (hnone rfl)]
  | promise ref =>
    have hopening : IsOneLine "Promise \x7b ".toList := by simp
    have hclosing : IsOneLine [' ', '\x7d'] := by simp
    change IsOneLine ("Promise \x7b ".toList ++ _ ++ [' ', '\x7d']) ↔ _
    rw [isOneLine_append, isOneLine_append, and_iff_left hclosing, and_iff_right hopening]
    refine Iff.trans ?_ (and_iff_right nofun).symm
    exact isOneLine_state hlength

theorem isOneLine_of_marks {above : List Value} {value : Value} {text : List Char}
    (h : heap.drawing.Marks circularMark above value text) (hbare : heap.Unbroken value) :
    IsOneLine text := by
  induction h with
  | circular =>
    have hmark : IsOneLine "[Circular]".toList := by simp
    exact hmark
  | whole _ _ ih =>
    refine (isOneLine_around (List.length_map _)).mpr ⟨hbare _ .refl, fun text hmem => ?_⟩
    obtain ⟨part, hpart, rfl⟩ := List.mem_map.mp hmem
    exact ih part hpart fun inner hreach => hbare inner (.head hpart hreach)

/-- **A value is shown on one line** if and only if no name or message within it breaks the line.
Within circles as well, each of these is shown once at least. -/
theorem isOneLine_inspect_iff (heap : Heap) (value : Value) :
    IsOneLine (heap.inspect value).toList ↔ heap.Unbroken value := by
  have hmarks := marks_inspect heap value
  refine ⟨fun hline inner hreach => ?_, isOneLine_of_marks hmarks⟩
  obtain ⟨above, hnew, hoccurs⟩ := Account.exists_occurs hreach
  obtain ⟨text, htext, hinfix⟩ := exists_marks_of_occurs hmarks hoccurs
  cases htext with
  | circular hmem => exact absurd hmem hnew
  | whole => exact ((isOneLine_around (List.length_map _)).mp (hline.of_infix hinfix)).1

end Script

end Doctest
