import Doctest.CommandLine.File
import Doctest.Proofs.Script.Containment
import Mathlib.Tactic.SplitIfs

/-!
# Files that are written

A new file makes more directories and takes none away, so a path leads where it led before. What was
written is therefore read back at the same path, and no other file is changed by it.
-/

namespace Doctest

namespace Dict

variable {α : Type}

/-- A key that is there stays when another one is inserted. -/
theorem mem_keys_insert {d : Dict α} {key other : String} {value : α} (h : other ∈ d.keys) :
    other ∈ (d.insert key value).keys := by
  rw [keys, insert, keys_put]
  split
  · exact h
  · exact List.mem_append_left _ h

end Dict

namespace CommandLine.Files

variable {files changed : Files} {names found parts : List String} {path place text : String}

theorem hasDirectory_insert (place text : String) (h : files.hasDirectory names = true) :
    hasDirectory ⟨files.texts.insert place text⟩ names = true := by
  simp only [hasDirectory, Bool.or_eq_true, List.any_eq_true] at h ⊢
  exact h.imp_right fun ⟨key, hkey, hbelow⟩ => ⟨key, Dict.mem_keys_insert hkey, hbelow⟩

/-- A path that leads somewhere leads there when there is one more file, too. -/
theorem follow_insert (place text : String) (h : files.follow names parts = .ok found) :
    follow ⟨files.texts.insert place text⟩ names parts = .ok found := by
  have hstays {names : List String} (hdirectory : ¬ (!files.hasDirectory names) = true) :
      ¬ (!hasDirectory ⟨files.texts.insert place text⟩ names) = true := by
    rw [Bool.not_eq_true, Bool.not_eq_false'] at hdirectory ⊢
    exact hasDirectory_insert place text hdirectory
  fun_induction files.follow names parts with
  | case1 => exact h
  | case2 => cases h
  | case3 names part rest hdirectory hhere ih =>
    rw [follow, if_neg (hstays hdirectory), if_pos hhere]
    exact ih h
  | case4 names rest hdirectory hhere ih =>
    rw [follow, if_neg (hstays hdirectory), if_neg hhere, if_pos rfl]
    exact ih h
  | case5 => cases h
  | case6 names part rest hdirectory hhere habove hsize ih =>
    rw [follow, if_neg (hstays hdirectory), if_neg hhere, if_neg habove, if_neg hsize]
    exact ih h

/-- A path with a point at its end leads to a directory. -/
theorem hasDirectory_of_follow (h : files.follow names (parts ++ ["."]) = .ok found) :
    files.hasDirectory found = true := by
  induction parts generalizing names with
  | nil =>
    rw [List.nil_append, follow] at h
    split at h
    case isTrue => cases h
    case isFalse hdirectory =>
      rw [if_pos (by decide)] at h
      obtain rfl : names = found := Except.ok.inj h
      simpa using hdirectory
  | cons part rest ih =>
    rw [List.cons_append, follow] at h
    split_ifs at h <;> exact ih h

theorem resolve_insert (place text : String) (h : files.resolve path parts = .ok found) :
    resolve ⟨files.texts.insert place text⟩ path parts = .ok found := by
  unfold resolve at h ⊢
  split_ifs at h ⊢ <;> exact follow_insert place text h

/-- A path that can be written to leads to a place that is no directory, and is read there. -/
theorem resolve_of_destination (h : files.destination path = .ok place) :
    ∃ names, files.resolve path (pathParts path) = .ok names ∧ place = pathOf names := by
  unfold destination at h
  cases hresolve : files.resolve path (partsToWrite path) with
  | error fault =>
    rw [hresolve] at h
    cases h
  | ok names =>
    rw [hresolve] at h
    change (if files.hasDirectory names then _ else _) = _ at h
    split_ifs at h with hdirectory
    refine ⟨names, ?_, (Except.ok.inj h).symm⟩
    -- A path that ends in a slash is written to as if it ended in a point.
    unfold partsToWrite at hresolve
    dsimp only at hresolve
    split_ifs at hresolve with hslash
    · refine absurd ?_ hdirectory
      unfold resolve at hresolve
      split_ifs at hresolve <;> exact hasDirectory_of_follow hresolve
    · exact hresolve

theorem write_eq_ok_iff :
    files.write path text = .ok changed ↔
      ∃ place, files.destination path = .ok place ∧
        changed = ⟨files.texts.insert place text⟩ := by
  unfold write
  cases files.destination path with
  | error fault => exact ⟨nofun, nofun⟩
  | ok place =>
    constructor
    · intro h
      exact ⟨place, rfl, (Except.ok.inj h).symm⟩
    · rintro ⟨other, hplace, rfl⟩
      cases hplace
      rfl

/-- What was written is read back. -/
theorem read_of_write (h : files.write path text = .ok changed) : changed.read path = .ok text := by
  obtain ⟨place, hplace, rfl⟩ := write_eq_ok_iff.mp h
  obtain ⟨names, hnames, rfl⟩ := resolve_of_destination hplace
  unfold read
  rw [resolve_insert _ text hnames]
  dsimp only [Bind.bind, Except.bind]
  rw [Dict.get?_insert]
  rfl

/-- No file is changed but the one that is written. -/
theorem destination_of_get?_ne (h : files.write path text = .ok changed)
    (hne : changed.texts.get? place ≠ files.texts.get? place) :
    files.destination path = .ok place := by
  obtain ⟨written, hwritten, rfl⟩ := write_eq_ok_iff.mp h
  by_cases hplace : place = written
  · rw [hplace]
    exact hwritten
  · exact absurd (Dict.get?_insert_of_ne _ _ (Ne.symm hplace)) hne

end CommandLine.Files

end Doctest
