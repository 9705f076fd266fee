import Runbook.Proofs.Store.Written

/-!
# Files that are kept

Making folders changes no file (`sameFiles_makeFolders`), and writing changes none but the one that the path
leads to afterwards (`exists_locate_write`).
-/

namespace Runbook.Store

variable {s s' s'' : Store} {p : Path} {names : List String} {bytes : List UInt8}

/-- The bytes of the file that names without steps up lead to, if they lead to one. -/
def file? (s : Store) (names : List String) : Option (List UInt8) :=
  match s.find? names with
  | some (.file bytes) => some bytes
  | _ => none

/-- The files of two stores are the same, byte for byte. -/
def SameFiles (s s' : Store) : Prop := ∀ names, s'.file? names = s.file? names

theorem SameFiles.refl (s : Store) : s.SameFiles s := fun _ => rfl

theorem SameFiles.trans (h : s.SameFiles s') (h' : s'.SameFiles s'') : s.SameFiles s'' :=
  fun names => (h' names).trans (h names)

theorem find?_setEntry_ne {other : List String} (h : other ≠ names) (e : Entry) :
    (⟨setEntry s.entries names e⟩ : Store).find? other = s.find? other := by
  cases other with
  | nil => rfl
  | cons name more => exact lookup_setEntry_ne s.entries h e

theorem find?_setEntry_self (hnames : names ≠ []) (e : Entry) :
    (⟨setEntry s.entries names e⟩ : Store).find? names = some e := by
  cases names with
  | nil => exact absurd rfl hnames
  | cons name more => exact lookup_setEntry_self s.entries _ e

/-! ## Folders -/

/-- A folder is made where nothing was. -/
theorem sameFiles_makeFolder (h : s.makeFolder p = .ok s') : s.SameFiles s' := by
  unfold makeFolder at h
  split at h
  case h_1 => cases h
  case h_2 made hlocate =>
  split at h
  case h_1 => cases h
  case h_2 hnone =>
  obtain rfl := Except.ok.inj h
  intro names
  by_cases heq : names = made
  · have hmade : made ≠ [] := by
      rintro rfl
      cases hnone
    rw [heq, file?, file?, find?_setEntry_self hmade, hnone]
  · rw [file?, file?, find?_setEntry_ne heq]

theorem sameFiles_makeFolderOnce (h : s.makeFolderOnce p = .ok s') : s.SameFiles s' := by
  unfold makeFolderOnce at h
  split at h
  case h_1 made hmade =>
    obtain rfl := Except.ok.inj h
    exact sameFiles_makeFolder hmade
  case h_2 =>
    split at h
    case isTrue =>
      obtain rfl := Except.ok.inj h
      exact .refl _
    case isFalse => cases h

theorem sameFiles_makeFoldersFrom (fuel : Nat) : ∀ {s s' : Store} {p : Path},
    makeFoldersFrom fuel s p = .ok s' → s.SameFiles s' := by
  induction fuel with
  | zero =>
      intro s s' p h
      unfold makeFoldersFrom at h
      split at h
      case h_1 => omega
      case h_2 => exact sameFiles_makeFolderOnce h
  | succ fuel ih =>
      intro s s' p h
      unfold makeFoldersFrom at h
      split at h
      case h_1 n _ heq =>
        obtain rfl : fuel = n := by omega
        cases hparent : makeFoldersFrom fuel s p.parent with
        | error f =>
            rw [hparent] at h
            cases h
        | ok between =>
            rw [hparent] at h
            exact (ih hparent).trans (sameFiles_makeFolderOnce h)
      case h_2 => exact sameFiles_makeFolderOnce h

theorem sameFiles_makeFolders (h : s.makeFolders p = .ok s') : s.SameFiles s' :=
  sameFiles_makeFoldersFrom _ h

/-! ## Files -/

/-- **One file is written**: the one that the path leads to, then and before. -/
theorem exists_locate_write (h : s.write p bytes = .ok s') :
    ∃ names, s'.locate p = .ok names ∧ ∀ other, other ≠ names → s'.file? other = s.file? other := by
  unfold write at h
  split at h
  case h_1 => cases h
  case h_2 names hlocate =>
  split at h
  case h_1 => cases h
  case h_2 hnames =>
  obtain rfl := Except.ok.inj h
  have hfolders : ∀ other, s.find? other = some .folder →
      (⟨setEntry s.entries names (.file bytes)⟩ : Store).find? other = some .folder :=
    fun _ hfolder => find?_of_folder (fun h => hnames h) hfolder
  refine ⟨names, foldlM_follow_of_folders hfolders p.steps hlocate, fun other hother => ?_⟩
  rw [file?, file?, find?_setEntry_ne hother]

end Runbook.Store
