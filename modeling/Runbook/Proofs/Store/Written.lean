import Mathlib.Tactic.Common
import Runbook.Store.Basic

/-!
# A file that was written is there

Writing gives one path an entry, where no folder was, and a folder stays one
(`find?_of_folder`), so a path that goes through folders goes through the same ones as
before (`foldlM_follow_of_folders`) and leads to what was written (`entry_write`).
-/

namespace Runbook.Store

variable {s s' : Store} {p : Path} {names : List String} {bytes : List UInt8}

theorem lookup_setEntry_self (entries : List (List String × Entry)) (names : List String) (e : Entry) :
    (setEntry entries names e).lookup names = some e := by
  induction entries with
  | nil => simp [setEntry]
  | cons d rest ih =>
      obtain ⟨key, old⟩ := d
      rw [setEntry]
      split
      case isTrue h => rw [h, List.lookup_cons_self]
      case isFalse h => rw [List.lookup_cons, beq_eq_false_iff_ne.mpr (Ne.symm h), ih]

theorem lookup_setEntry_ne (entries : List (List String × Entry)) {other : List String} (h : other ≠ names)
    (e : Entry) : (setEntry entries names e).lookup other = entries.lookup other := by
  induction entries with
  | nil => rw [setEntry, List.lookup_cons, beq_eq_false_iff_ne.mpr h]
  | cons d rest ih =>
      obtain ⟨key, old⟩ := d
      rw [setEntry]
      split
      case isTrue hkey => rw [List.lookup_cons, List.lookup_cons, hkey, beq_eq_false_iff_ne.mpr h]
      case isFalse => rw [List.lookup_cons, List.lookup_cons, ih]

/-- What was a folder still is one, if the entry is given to what was none. -/
theorem find?_of_folder (hnames : s.find? names ≠ some .folder) {other : List String} {e : Entry}
    (h : s.find? other = some .folder) : (⟨setEntry s.entries names e⟩ : Store).find? other = some .folder := by
  cases other with
  | nil => rfl
  | cons name more =>
      have hother : name :: more ≠ names := by
        rintro rfl
        exact hnames h
      exact (lookup_setEntry_ne s.entries hother e).trans h

/-- A step that leads somewhere starts in a folder. -/
theorem find?_of_follow {next : String} {after : List String} (h : s.follow names next = .ok after) :
    s.find? names = some .folder := by
  unfold follow at h
  split at h
  · cases h
  · cases h
  · assumption

theorem follow_congr {next : String} (h : s.find? names = some .folder) (h' : s'.find? names = some .folder) :
    s'.follow names next = s.follow names next := by
  rw [follow, follow, h, h']

/-- Steps lead to the same names in a store that has all the folders. -/
theorem foldlM_follow_of_folders (hfolders : ∀ names, s.find? names = some .folder → s'.find? names = some .folder)
    (steps : List String) : ∀ {names after : List String}, steps.foldlM s.follow names = .ok after →
      steps.foldlM s'.follow names = .ok after := by
  induction steps with
  | nil => exact id
  | cons next rest ih =>
      intro names after h
      rw [List.foldlM_cons] at h ⊢
      cases hnext : s.follow names next with
      | error f =>
          rw [hnext] at h
          cases h
      | ok between =>
          have hfolder := find?_of_follow hnext
          rw [follow_congr hfolder (hfolders _ hfolder), hnext]
          rw [hnext] at h
          exact ih h

/-- A path that is not that of a folder, in a folder that is there. -/
def Writable (s : Store) (p : Path) : Prop := ∃ names, s.locate p = .ok names ∧ s.find? names ≠ some .folder

theorem exists_write (h : s.Writable p) (bytes : List UInt8) : ∃ s', s.write p bytes = .ok s' := by
  obtain ⟨names, hlocate, hnames⟩ := h
  rw [write, hlocate]
  dsimp only
  split
  · exact absurd ‹_› hnames
  · exact ⟨_, rfl⟩

/-- What was written to a path is what it leads to. -/
theorem entry_write (h : s.write p bytes = .ok s') : s'.entry p = .ok (.file bytes) := by
  unfold write at h
  split at h
  case h_1 => cases h
  case h_2 names hlocate =>
  split at h
  case h_1 => cases h
  case h_2 hnames =>
  obtain rfl := Except.ok.inj h
  have hlocate' : Store.locate ⟨setEntry s.entries names (.file bytes)⟩ p = .ok names :=
    foldlM_follow_of_folders (fun _ hfolder => find?_of_folder (fun h => hnames h) hfolder) p.steps hlocate
  have hfind : Store.find? ⟨setEntry s.entries names (.file bytes)⟩ names = some (.file bytes) := by
    cases names with
    | nil => exact absurd rfl hnames
    | cons name more => exact lookup_setEntry_self s.entries _ _
  rw [entry, hlocate']
  dsimp only
  rw [hfind]

theorem holds_write (h : s.write p bytes = .ok s') : s'.holds p = .ok true := by
  rw [holds, entry_write h]

/-- What was written is read. -/
theorem read_write (h : s.write p bytes = .ok s') : s'.read p = .ok bytes := by
  rw [read, entry_write h]

end Runbook.Store
