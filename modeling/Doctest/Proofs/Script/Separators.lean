import Doctest.Proofs.Script.TextPositions

/-!
# Strings parted at a separator

A string is parted at the leftmost places of a separator that do not overlap, and an empty separator
parts all characters. The parts put together with the separator between them are the string again.
-/

namespace Doctest.Script

open Library

open Eval (Makes)

variable {start : Machine} {levels : Nat} {a : Value}

theorem itemText_string (s : String) : itemText (.string s) = pure s :=
  Eval.text_string s

theorem mapM_itemText (texts : List String) :
    (texts.map Value.string).mapM itemText = pure texts := by
  induction texts with
  | nil => rfl
  | cons s texts ih => rw [List.map_cons, List.mapM_cons, itemText_string, pure_bind, ih, pure_bind]

namespace Eval.Makes

/-- The texts that an array has for its items, with a separator between them. -/
theorem join {texts : List String} (ha : start.heap.IsArrayOf (texts.map .string) a)
    (separator : String) :
    Makes (fun _ => (· = .string (separator.intercalate texts))) start
      (callMethod (Script.invoke (levels + 1)) a "join" [.string separator]) := by
  refine callArrayMethod .join ha fun ref middle hitems _ => ?_
  have hrun : Library.callArrayMethod (Script.invoke levels) ref .join [.string separator] middle =
      (.ok (.string (separator.intercalate texts)), middle) := by
    simp only [Library.callArrayMethod, List.getD_cons_zero, text_string]
    rw [if_neg Value.noConfusion, pure_bind, bind_apply]
    change ((middle.heap.get ref).toList.mapM itemText >>= _) middle = _
    rw [hitems, mapM_itemText, pure_bind]
    rfl
  exact ⟨_, middle, hrun, .refl _, rfl, rfl⟩

end Eval.Makes

/-- The pieces between an empty separator are the characters, and those between another one are
parted by it. In both cases they make the text with the separator between them. -/
theorem intercalate_split (separator s : List Char) :
    separator.intercalate (split (some separator) s) = s := by
  cases separator with
  | nil =>
    change [].intercalate (s.map ([·])) = s
    induction s with
    | nil => rfl
    | cons c s ih =>
      cases s with
      | nil => rfl
      | cons d s =>
        have hrest : (d :: s).map ([·]) ≠ [] := List.cons_ne_nil _ _
        rw [List.map_cons, List.intercalate_cons_of_ne_nil hrest, ih]
        rfl
  | cons c separator => exact (Text.partedAt_splitOn (List.cons_ne_nil _ _) s).intercalate_eq

/-- **Joining undoes splitting.** A string is put together again from the parts that a separator
parts it into, whether the separator is empty or not. If it is not, the parts are those between its
leftmost places that do not overlap, and no part contains it. -/
theorem join_undoes_split (levels : Nat) (s separator : String) (start : Machine) :
    ∃ parts : List String,
      Makes (fun heap => heap.IsArrayOf (parts.map .string)) start
        (Eval.callMethod (invoke (levels + 1)) (.string s) "split" [.string separator]) ∧
      Makes (fun _ => (· = .string s)) start (do
        let pieces ← Eval.callMethod (invoke (levels + 1)) (.string s) "split" [.string separator]
        Eval.callMethod (invoke (levels + 1)) pieces "join" [.string separator]) ∧
      (separator ≠ "" →
        (∀ part ∈ parts, ¬ separator.toList <:+: part.toList) ∧
        ∀ pieces, Text.PartedAt separator.toList s.toList pieces ↔
          pieces = parts.map String.toList) := by
  have htexts (pieces : List (List Char)) :
      (pieces.map String.ofList).map String.toList = pieces := by
    rw [List.map_map]
    exact (List.map_congr_left fun s _ => String.toList_ofList).trans (List.map_id _)
  let pieces := split (some separator.toList) s.toList
  refine ⟨pieces.map String.ofList, .split s separator, ?_, fun hne => ?_⟩
  · refine (Makes.split s separator).bind fun value middle _ hvalue => ?_
    refine (Makes.join hvalue separator).mono fun last _ joined hjoined => hjoined.trans ?_
    rw [Value.string.injEq, ← String.toList_inj, String.toList_intercalate, htexts,
      intercalate_split]
  · have hsome : separator.toList ≠ [] := by simpa using hne
    have hparted : Text.PartedAt separator.toList s.toList pieces := by
      obtain ⟨c, rest, hcons⟩ := List.exists_cons_of_ne_nil hsome
      have hsplit := Text.partedAt_splitOn hsome s.toList
      dsimp only [pieces]
      rw [hcons] at hsplit ⊢
      exact hsplit
    rw [htexts]
    refine ⟨fun part hmem => ?_, fun others => ⟨fun h => h.unique hparted, fun h => h ▸ hparted⟩⟩
    obtain ⟨piece, hpiece, rfl⟩ := List.mem_map.mp hmem
    rw [String.toList_ofList]
    exact hparted.not_infix hsome piece hpiece

end Doctest.Script
