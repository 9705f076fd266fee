import Runbook.Proofs.Json.Reread
import Runbook.Proofs.Store.Written
import Runbook.Proofs.Text.Utf8
import Runbook.Proofs.Workflow.RoundTrip

/-!
# Files of workflows read back

A file that was written holds the text that was written (`Store.readText_writeText`), so a
workflow is read back from its file when its data is read back from its text. For JSON that
is the case for every workflow that can be written at all, if no two halves of surrogate pairs
in its texts make one character (`Workflow.load_save_json`): the data nests less deep than the
reader allows, for settings do (`Workflow.depth_toValue`).
-/

namespace Runbook

/-! ## How deep the data of a workflow nests -/

theorem Value.itemsDepth_le {items : List Value} {d : Nat} (h : ∀ v ∈ items, v.depth ≤ d) : itemsDepth items ≤ d := by
  induction items with
  | nil => exact Nat.zero_le d
  | cons v rest ih =>
      obtain ⟨hv, hrest⟩ := List.forall_mem_cons.mp h
      exact Nat.max_le.mpr ⟨hv, ih hrest⟩

theorem Value.entriesDepth_le {entries : Entries} {d : Nat} (h : ∀ e ∈ entries, e.2.depth ≤ d) :
    entriesDepth entries ≤ d := by
  induction entries with
  | nil => exact Nat.zero_le d
  | cons e rest ih =>
      obtain ⟨he, hrest⟩ := List.forall_mem_cons.mp h
      exact Nat.max_le.mpr ⟨he, ih hrest⟩

/-- A map of fields nests one deeper than their values. -/
theorem depth_ofFields {fields : List FieldValue} {d : Nat} (h : ∀ f ∈ fields, ∀ x, f.2 = some x → x.depth ≤ d) :
    (Value.ofFields fields).depth ≤ d + 1 := by
  rw [ofFields_eq, Value.depth]
  refine Nat.succ_le_succ (Value.entriesDepth_le fun e he => ?_)
  obtain ⟨f, hf, -, hx⟩ := exists_of_mem_fieldEntries he
  exact h f hf e.2 hx

variable {limit : Nat}

theorem Settings.depth_toValue {s : Settings} (h : s.nestsWithin limit = true) : s.toValue.depth ≤ limit + 1 := by
  rw [toValue, Value.record, Value.depth]
  refine Nat.succ_le_succ (Value.entriesDepth_le fun e he => ?_)
  obtain ⟨f, hf, rfl⟩ := List.mem_map.mp he
  simpa using List.all_eq_true.mp h f hf

theorem Detail.depth_field {d : Detail} (h : d.settings.nestsWithin limit = true) :
    ∀ f ∈ d.fields, ∀ x, f.2 = some x → x.depth ≤ limit + 1 := by
  cases d with
  | action | output => simp [fields]
  | prompt | decision | subagent => simp [fields, Value.depth]
  | loop => simp [fields, Value.depth]
  | trigger type config =>
      have hconfig : config.toValue.depth ≤ limit + 1 := Settings.depth_toValue h
      simp [fields, Value.depth, hconfig]
  | mcpCall server tool args =>
      have hargs : args.toValue.depth ≤ limit + 1 := Settings.depth_toValue h
      simp [fields, Value.depth, hargs]

theorem Payload.depth_toValue {p : Payload} (hjson : p.detail.settings.IsJson)
    (h : p.detail.settings.nestsWithin limit = true) : p.toValue.depth ≤ limit + 2 := by
  rw [Payload.toValue, Payload.map_plain_fields hjson]
  refine depth_ofFields fun f hf => ?_
  obtain hf | hf := List.mem_append.mp hf
  · simp only [List.mem_cons, List.not_mem_nil, or_false] at hf
    obtain rfl | rfl | rfl | rfl := hf <;> simp [Value.depth]
  · exact Detail.depth_field h f hf

theorem Node.depth_toValue {n : Node} (hjson : n.payload.detail.settings.IsJson)
    (h : n.payload.detail.settings.nestsWithin limit = true) : n.toValue.depth ≤ limit + 3 := by
  have hplace : n.position.toValue.depth ≤ 1 + 1 := depth_ofFields (by simp [Position.fields, Value.depth])
  have hpayload := Payload.depth_toValue hjson h
  refine depth_ofFields ?_
  simp [fields, Value.depth, hpayload, Nat.le_trans hplace (Nat.le_add_left _ _)]

/-- The data of a workflow nests hardly deeper than the settings in it. -/
theorem Workflow.depth_toValue {w : Workflow} (hjson : w.HasJsonSettings) (h : w.nestsWithin limit = true) :
    w.toValue.depth ≤ limit + 5 := by
  have hnodes : Value.itemsDepth (w.nodes.map Node.toValue) ≤ limit + 3 := by
    refine Value.itemsDepth_le (List.forall_mem_map.mpr fun n hn => ?_)
    exact Node.depth_toValue (hjson n hn) (List.all_eq_true.mp h n hn)
  have hedges : Value.itemsDepth (w.edges.map Edge.toValue) ≤ limit + 3 := by
    refine Value.itemsDepth_le (List.forall_mem_map.mpr fun e _ => ?_)
    have hedge : e.toValue.depth ≤ 1 + 1 := depth_ofFields (by simp [Edge.fields, Value.depth])
    exact Nat.le_trans hedge (Nat.le_add_left _ _)
  refine depth_ofFields ?_
  simp [fields, Value.depth, hnodes, hedges]

/-! ## From text to file and back -/

/-- A file has the text that was written to it, where no line of that ends with a carriage return. -/
theorem Store.readText_writeText {s s' : Store} {p : Path} {text : String} (htext : '\r' ∉ text.toList)
    (h : s.writeText p text = .ok s') : s'.readText p = .ok text.toList := by
  rw [readText, read_write h]
  dsimp only
  rw [Text.decodeUtf8_utf8Bytes]
  dsimp only
  rw [Text.unifyLines_of_not_mem htext]

namespace Workflow

variable {w : Workflow} {s s' : Store} {p : Path} {limit : Nat}

theorem ofData_of_decode {now : Int} {entries : Entries} (h : decode now (.map entries) = .ok w) (source : String) :
    ofData now source (.map entries) = .ok w := by
  have hread : ofEntries now entries = .ok w := h
  unfold ofData
  simp only [hread]

theorem ofData_toValue (hjson : w.HasJsonSettings) (now : Int) (source : String) :
    ofData now source w.toValue = .ok w := by
  have hvalue : w.toValue = .map (fieldEntries w.fields) := ofFields_eq w.fields
  have hdecode := decode_toValue hjson now
  rw [hvalue] at hdecode ⊢
  exact ofData_of_decode hdecode source

/-- A workflow is read from a file in which its data is read back from the text. -/
theorem load_of_parse {text : String} (hjson : w.HasJsonSettings) (htext : '\r' ∉ text.toList)
    (hparse : p.parse text.toList = .ok w.toValue) (h : s.writeText p text = .ok s') (now : Int) :
    load s' now p = .ok w := by
  rw [load, Store.holds_write h]
  simp only [Store.readText_writeText htext h, hparse, ofData_toValue hjson, bind, Except.bind, Except.mapError]

theorem fileText_eq (hlimit : w.nestsWithin limit = true) (hshort : w.toValue.hasShortIntegers = true) (p : Path) :
    w.fileTextWithin limit p = .ok (p.print w.toValue) := by
  simp only [fileTextWithin, encodeWithin, hlimit, hshort, if_true, bind, Except.bind, Except.mapError, pure,
    Except.pure]

theorem save_eq (hlimit : w.nestsWithin limit = true) (hshort : w.toValue.hasShortIntegers = true) (s : Store)
    (p : Path) : w.saveWithin limit s p = (s.writeText p (p.print w.toValue)).mapError .unwritable := by
  simp only [saveWithin, fileText_eq hlimit hshort, bind, Except.bind]

theorem save_of_deep (h : w.nestsWithin limit = false) (s : Store) (p : Path) :
    w.saveWithin limit s p = .error (.notEncoded .tooDeep) := by
  simp only [saveWithin, fileTextWithin, encodeWithin, h, Bool.false_eq_true, if_false, bind, Except.bind,
    Except.mapError]

theorem save_of_long (hlimit : w.nestsWithin limit = true) (h : w.toValue.hasShortIntegers = false) (s : Store)
    (p : Path) : w.saveWithin limit s p = .error .tooManyDigits := by
  simp only [saveWithin, fileTextWithin, encodeWithin, hlimit, h, Bool.false_eq_true, if_true, if_false, bind,
    Except.bind, Except.mapError, throw, throwThe, MonadExceptOf.throw]

/-- What is in a file of JSON is read back. -/
theorem parse_print_json (hp : p.isYaml = false) (hjson : w.HasJsonSettings) (hplaces : w.HasFinitePlaces)
    (htexts : ∀ t ∈ w.toValue.allTexts, Json.isUnpaired t = true) (hdepth : w.toValue.depth ≤ Json.depthLimit)
    (hshort : w.toValue.hasShortIntegers = true) : p.parse (p.print w.toValue).toList = .ok w.toValue := by
  have hread := Json.read_text (isJson_toValue hjson hplaces) htexts hshort hdepth
  simp only [Path.parse, Path.print, hp, Bool.false_eq_true, if_false, hread, Except.mapError]

/-- **What is saved as JSON is read back**, if in no text of it the halves of a surrogate pair stand in a row,
for these are one character to the reader. A workflow is refused exactly if its settings nest deeper than the
serializer allows or an integer in it is too long to be written. What the serializer allows may be anything
that the reader takes, which is five levels more. -/
theorem load_save_json (limit : Nat) (hp : p.isYaml = false) (hwritable : s.Writable p) (hjson : w.HasJsonSettings)
    (hplaces : w.HasFinitePlaces) (htexts : ∀ t ∈ w.toValue.allTexts, Json.isUnpaired t = true)
    (hreader : limit + 5 ≤ Json.depthLimit) :
    (w.nestsWithin limit = true → w.toValue.hasShortIntegers = true →
      ∃ s', w.saveWithin limit s p = .ok s' ∧ ∀ now, load s' now p = .ok w) ∧
    (w.nestsWithin limit = false → w.saveWithin limit s p = .error (.notEncoded .tooDeep)) ∧
    (w.nestsWithin limit = true → w.toValue.hasShortIntegers = false →
      w.saveWithin limit s p = .error .tooManyDigits) := by
  refine ⟨fun hlimit hshort => ?_, fun hdeep => ?_, fun hlimit hlong => ?_⟩
  · obtain ⟨s', hs'⟩ := Store.exists_write hwritable (Text.utf8Bytes (p.print w.toValue))
    have htext : '\r' ∉ (p.print w.toValue).toList := by
      rw [Path.print, hp, if_neg Bool.false_ne_true]
      exact Json.not_mem_text (isJson_toValue hjson hplaces)
    have hdepth : w.toValue.depth ≤ Json.depthLimit := Nat.le_trans (depth_toValue hjson hlimit) hreader
    refine ⟨s', ?_, load_of_parse hjson htext (parse_print_json hp hjson hplaces htexts hdepth hshort) hs'⟩
    rw [save_eq hlimit hshort, Store.writeText, hs']
    rfl
  · exact save_of_deep hdeep s p
  · exact save_of_long hlimit hlong s p

/-- A new workflow, saved in the current folder. -/
theorem load_save_json_created :
    let w := (create ⟨5, 0⟩ "Release" none).1
    let p : Path := ⟨false, ["release.json"]⟩
    ∃ s', w.save .empty p = .ok s' ∧ ∀ now, load s' now p = .ok w := by
  have hsettings : (create ⟨5, 0⟩ "Release" none).1.HasJsonSettings := by
    intro n hn
    obtain rfl := List.mem_singleton.mp hn
    rfl
  have hplaces : (create ⟨5, 0⟩ "Release" none).1.HasFinitePlaces := by
    intro n hn
    obtain rfl := List.mem_singleton.mp hn
    exact ⟨rfl, rfl⟩
  exact (load_save_json Settings.depthLimit (by decide) ⟨["release.json"], rfl, by decide⟩ hsettings hplaces
    (by decide +kernel) (by decide)).1 (by decide) (by decide)

end Workflow

end Runbook
