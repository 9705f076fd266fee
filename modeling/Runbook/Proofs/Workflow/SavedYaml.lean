import Runbook.Proofs.Workflow.Saved
import Runbook.Proofs.Yaml.Nodes

/-!
# Files of YAML read back

For YAML, a workflow is read back from its file if all of its texts are kept
(`Workflow.keepsTexts`): no text between single quotes holds the line end U+0085, no text
between double quotes is folded twice at one place, which takes an indentation of eighty
blanks, and no key grows longer by its escapes than a key may be. Main statement:
`Workflow.load_save_yaml`.
-/

namespace Runbook.Workflow

variable {w : Workflow} {s : Store} {p : Path}

/-- Every text in the YAML of a workflow is read back as it was. -/
def keepsTexts (w : Workflow) : Bool := Yaml.keepsEntries 0 (fieldEntries w.fields)

/-- The data of a workflow is a map with something in it. -/
theorem exists_entries (hjson : w.HasJsonSettings) (hplaces : w.HasFinitePlaces) : ∃ e rest,
    w.toValue = .map (e :: rest) ∧ w.keepsTexts = Yaml.keepsEntries 0 (e :: rest) ∧
      Value.entriesAreJson (e :: rest) = true := by
  obtain ⟨e, rest, hentries⟩ : ∃ e rest, fieldEntries w.fields = e :: rest := ⟨_, _, rfl⟩
  have hvalue : w.toValue = .map (e :: rest) := (ofFields_eq w.fields).trans (congrArg Value.map hentries)
  have hdata := isJson_toValue hjson hplaces
  rw [hvalue, Value.isJson] at hdata
  exact ⟨e, rest, hvalue, congrArg (Yaml.keepsEntries 0) hentries, hdata⟩

/-- What is in a file of YAML is read back, if its texts are kept. -/
theorem parse_print_yaml (hp : p.isYaml = true) (hjson : w.HasJsonSettings) (hplaces : w.HasFinitePlaces)
    (hshallow : w.isShallow = true) (hshort : w.toValue.hasShortIntegers = true) (hkeeps : w.keepsTexts = true) :
    p.parse (p.print w.toValue).toList = .ok w.toValue := by
  have hdepth : w.toValue.depth ≤ Yaml.Node.depthLimit := Nat.le_trans (depth_toValue hjson hshallow) (by decide)
  obtain ⟨e, rest, hvalue, heq, hdata⟩ := exists_entries hjson hplaces
  rw [hvalue] at hshort hdepth ⊢
  have hread := Yaml.read_write hdata hshort hdepth (heq ▸ hkeeps)
  simp only [Path.parse, Path.print, hp, if_true, hread, Except.mapError]

theorem not_mem_print_yaml (hp : p.isYaml = true) (hjson : w.HasJsonSettings) (hplaces : w.HasFinitePlaces) :
    '\r' ∉ (p.print w.toValue).toList := by
  obtain ⟨e, rest, hvalue, -, hdata⟩ := exists_entries hjson hplaces
  rw [Path.print, hp, if_pos rfl, hvalue]
  exact fun h => absurd (Yaml.isWritten_write hdata _ h) (by decide)

/-- **What is saved as YAML is read back**, if all of its texts are kept. A workflow is refused exactly if
its settings nest too deep or an integer in it is too long to be written. -/
theorem load_save_yaml (hp : p.isYaml = true) (hwritable : s.Writable p) (hjson : w.HasJsonSettings)
    (hplaces : w.HasFinitePlaces) :
    (w.isShallow = true → w.toValue.hasShortIntegers = true → ∃ s', w.save s p = .ok s' ∧
      (w.keepsTexts = true → ∀ now, load s' now p = .ok w)) ∧
    (w.isShallow = false → w.save s p = .error (.notEncoded .tooDeep)) ∧
    (w.isShallow = true → w.toValue.hasShortIntegers = false → w.save s p = .error .tooManyDigits) := by
  refine ⟨fun hshallow hshort => ?_, fun hdeep => save_of_deep hdeep s p,
    fun hshallow hlong => save_of_long hshallow hlong s p⟩
  obtain ⟨s', hs'⟩ := Store.exists_write hwritable (Text.utf8Bytes (p.print w.toValue))
  refine ⟨s', ?_, fun hkeeps => ?_⟩
  · rw [save, save_eq hshallow hshort, Store.writeText, hs']
    rfl
  · exact load_of_parse hjson (not_mem_print_yaml hp hjson hplaces)
      (parse_print_yaml hp hjson hplaces hshallow hshort hkeeps) hs'

/-- A new workflow, saved in the current folder. -/
theorem load_save_yaml_created :
    let w := (create ⟨5, 0⟩ "Release" none).1
    let p : Path := ⟨false, ["release.YML"]⟩
    w.keepsTexts = true ∧ ∃ s', w.save .empty p = .ok s' ∧ ∀ now, load s' now p = .ok w := by
  have hsettings : (create ⟨5, 0⟩ "Release" none).1.HasJsonSettings := by
    intro n hn
    obtain rfl := List.mem_singleton.mp hn
    rfl
  have hplaces : (create ⟨5, 0⟩ "Release" none).1.HasFinitePlaces := by
    intro n hn
    obtain rfl := List.mem_singleton.mp hn
    exact ⟨rfl, rfl⟩
  have hkeeps : (create ⟨5, 0⟩ "Release" none).1.keepsTexts = true := by decide +kernel
  obtain ⟨s', hsave, hload⟩ := (@load_save_yaml _ .empty ⟨false, ["release.YML"]⟩ (by decide)
    ⟨["release.YML"], rfl, by decide⟩ hsettings hplaces).1 (by decide) (by decide)
  exact ⟨hkeeps, s', hsave, hload hkeeps⟩

end Runbook.Workflow
