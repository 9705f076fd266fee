import Runbook.Proofs.Json.Faults
import Runbook.Proofs.Yaml.Faults
import Runbook.Workflow.File

/-!
# What the loading of a file comes to

A file that can be read gives a workflow or is rejected with a fault that names its path, unless
what is wrong with its text is not a matter of form. Such a fault is passed on as it is
(`Path.Escapes`), and it is to be seen in the text: in YAML a scalar that stands for no value of
its type, a character or a version with a number out of bounds, or too many nested collections;
in JSON an integer with too many digits or too many nested arrays and objects. Main statement:
`Workflow.load_of_read`.
-/

namespace Runbook

/-- A fault of a file that is not turned into one that names the path, and what its text shows of it. -/
inductive Path.Escapes (p : Path) (text : List Char) : FileFault → Prop
  | yaml {f : Yaml.Fault} (hp : p.isYaml = true) (hread : Yaml.read text = .error f) (hf : f ≠ .malformed)
      (hblames : Yaml.Blames (Yaml.Token.scan (Text.unifyLines text)) f) : Escapes p text (.badScalar f)
  | json {f : Json.Fault} (hp : p.isYaml = false) (hread : Json.read text = .error f)
      (hf : ∀ problem position, f ≠ .malformed problem position) (hblames : Json.Blames Json.depthLimit text f) :
      Escapes p text (.badNumber text f)

/-- A fault names the source of what it is about. -/
def FileFault.Names (source : String) (fault : FileFault) : Prop := ∃ problem, fault = .rejected ⟨source, problem⟩

section Texts

variable {p : Path} {text : List Char} {fault : FileFault}

theorem Path.names_or_escapes_of_parse (h : p.parse text = .error fault) :
    fault.Names p.text ∨ p.Escapes text fault := by
  unfold parse at h
  split at h
  case isTrue hp =>
    cases hread : Yaml.read text with
    | ok v => simp [hread, Except.mapError] at h
    | error f =>
        simp only [hread, Except.mapError, Except.error.injEq] at h
        subst h
        cases f with
        | malformed => exact .inl ⟨_, rfl⟩
        | _ => exact .inr (.yaml hp hread Yaml.Fault.noConfusion (Yaml.blames_of_read hread))
  case isFalse hp =>
    cases hread : Json.read text with
    | ok v => simp [hread, Except.mapError] at h
    | error f =>
        simp only [hread, Except.mapError, Except.error.injEq] at h
        subst h
        cases f with
        | malformed problem position => exact .inl ⟨_, rfl⟩
        | _ =>
            have hblames := Json.blames_of_read hread
            exact .inr (.json (Bool.eq_false_iff.mpr hp) hread (fun _ _ => Json.Fault.noConfusion) hblames)

theorem Store.holds_of_read {s : Store} {bytes : List UInt8} (h : s.read p = .ok bytes) : s.holds p = .ok true := by
  unfold read at h
  unfold holds
  cases hentry : s.entry p with
  | ok e => rfl
  | error f =>
      rw [hentry] at h
      cases h

theorem Store.readText_of_read {s : Store} {bytes : List UInt8} (h : s.read p = .ok bytes) :
    (∃ problem, s.readText p = .error (.rejected ⟨p.text, problem⟩)) ∨
      ∃ text, Text.decodeUtf8 bytes = .ok text ∧ s.readText p = .ok (Text.unifyLines text) := by
  unfold readText
  simp only [h]
  cases hdecode : Text.decodeUtf8 bytes with
  | error f => exact .inl ⟨_, rfl⟩
  | ok text => exact .inr ⟨text, rfl, rfl⟩

theorem Workflow.source_of_ofData {now : Int} {source : String} {v : Value} {f : LoadFault}
    (h : Workflow.ofData now source v = .error f) : f.source = source := by
  unfold ofData at h
  split at h
  · split at h <;> cases h
    rfl
  · cases h
    rfl

end Texts

namespace Workflow

variable {s : Store} {p : Path} {bytes : List UInt8}

/-- **A file that can be read gives a workflow, or a fault that names its path, or one that is to be seen in the
file's text.** -/
theorem load_of_read (h : s.read p = .ok bytes) (now : Int) :
    (∃ w, load s now p = .ok w) ∨ (∃ fault, load s now p = .error fault ∧ fault.Names p.text) ∨
      ∃ text fault, Text.decodeUtf8 bytes = .ok text ∧ load s now p = .error fault ∧
        p.Escapes (Text.unifyLines text) fault := by
  have hload : load s now p = (do
      let text ← s.readText p
      let v ← p.parse text
      (ofData now p.text v).mapError .rejected) := by
    unfold load
    rw [Store.holds_of_read h]
  rw [hload]
  obtain ⟨problem, htext⟩ | ⟨text, hdecode, htext⟩ := Store.readText_of_read h
  · exact .inr (.inl ⟨_, by rw [htext]; rfl, problem, rfl⟩)
  · rw [htext]
    simp only [bind, Except.bind]
    cases hparse : p.parse (Text.unifyLines text) with
    | error fault =>
        obtain hnames | hescapes := Path.names_or_escapes_of_parse hparse
        · exact .inr (.inl ⟨fault, rfl, hnames⟩)
        · exact .inr (.inr ⟨text, fault, hdecode, rfl, hescapes⟩)
    | ok v =>
        dsimp only
        cases hdata : ofData now p.text v with
        | ok w => exact .inl ⟨w, rfl⟩
        | error f =>
            obtain ⟨source, problem⟩ := f
            obtain rfl : source = p.text := source_of_ofData hdata
            exact .inr (.inl ⟨_, rfl, problem, rfl⟩)

/-- The scalar that the file of a path is at fault for. -/
def scalarFault? (s : Store) (p : Path) : Option Yaml.Fault :=
  match load s 0 p with
  | .error (.badScalar f) => some f
  | _ => none

theorem load_of_scalarFault? {f : Yaml.Fault} (h : scalarFault? s p = some f) : load s 0 p = .error (.badScalar f) := by
  unfold scalarFault? at h
  split at h
  case h_1 g hload => rw [hload, Option.some.inj h]
  case h_2 => cases h

def monthText : List UInt8 := Text.utf8Bytes "id: 2024-13-01\n"

/-- One file, whose text has the form of a time with a month that there is not. -/
def monthStore : Store := ⟨[(["w.yaml"], .file monthText)]⟩

def monthPath : Path := ⟨false, ["w.yaml"]⟩

theorem load_of_read_month : monthStore.read monthPath = .ok monthText ∧
    load monthStore 0 monthPath = .error (.badScalar (.outOfRange .month)) ∧
      ∃ text, Text.decodeUtf8 monthText = .ok text ∧
        monthPath.Escapes (Text.unifyLines text) (.badScalar (.outOfRange .month)) := by
  have hread : monthStore.read monthPath = .ok monthText := rfl
  have hload : load monthStore 0 monthPath = .error (.badScalar (.outOfRange .month)) :=
    load_of_scalarFault? (by decide +kernel)
  refine ⟨hread, hload, ?_⟩
  obtain ⟨w, h⟩ | ⟨fault, h, problem, rfl⟩ | ⟨text, fault, hdecode, h, hescapes⟩ := load_of_read hread 0
  · rw [hload] at h
    cases h
  · rw [hload] at h
    cases h
  · rw [hload] at h
    cases h
    exact ⟨text, hdecode, hescapes⟩

end Workflow

end Runbook
