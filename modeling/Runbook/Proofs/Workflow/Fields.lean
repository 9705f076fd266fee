import Runbook.Proofs.Value.Json
import Runbook.Proofs.Workflow.Decoded
import Runbook.Workflow.Encode

/-!
# Fields that were written

A field of a map that was written from a list of fields is found under its first
spelling, with the value that it was given, so long as no two of the fields share a
spelling (`Field.find?_fieldEntries`). So each way of reading a field gives back what
was written.
-/

namespace Runbook

open Decoded

/-- The entries of the fields that have a value. -/
def fieldEntries (fields : List FieldValue) : Entries :=
  (fields.filterMap fun (f, v) => v.map fun v => (f.camel, v)).map fun (k, v) => (.str k, v)

theorem ofFields_eq (fields : List FieldValue) : Value.ofFields fields = .map (fieldEntries fields) := rfl

theorem exists_of_mem_fieldEntries {fields : List FieldValue} {e : Value × Value} (h : e ∈ fieldEntries fields) :
    ∃ p ∈ fields, e.1 = .str p.1.camel ∧ p.2 = some e.2 := by
  obtain ⟨d, hd, rfl⟩ := List.mem_map.mp h
  obtain ⟨p, hp, hdone⟩ := List.mem_filterMap.mp hd
  obtain ⟨x, hx, rfl⟩ := Option.map_eq_some_iff.mp hdone
  exact ⟨p, hp, rfl, hx⟩

/-- A field is not found where another one was written. -/
def Field.Apart (f g : Field) : Prop := f.camel ≠ g.camel ∧ f.snake ≠ g.camel

instance (f g : Field) : Decidable (f.Apart g) := inferInstanceAs (Decidable (_ ∧ _))

/-- Fields that are not taken for one another. -/
def FieldsApart (fields : List Field) : Prop := fields.Pairwise fun f g => f.Apart g ∧ g.Apart f

instance (fields : List Field) : Decidable (FieldsApart fields) :=
  inferInstanceAs (Decidable (fields.Pairwise _))

section Lookup

variable {fields : List FieldValue} {f : Field} {v : Option Value} {key : String}

theorem text?_fieldEntries_cons (p : FieldValue) (fields : List FieldValue) (key : String) :
    (fieldEntries (p :: fields)).text? key =
      if p.1.camel = key then p.2.or ((fieldEntries fields).text? key) else (fieldEntries fields).text? key := by
  obtain ⟨f, v⟩ := p
  cases v with
  | none => simp [fieldEntries]
  | some x =>
      change (if (Value.str f.camel).sameKey (.str key) then some x else _) = _
      simp [fieldEntries, Entries.text?]

theorem text?_eq_none (h : ∀ p ∈ fields, p.1.camel ≠ key) : (fieldEntries fields).text? key = none := by
  induction fields with
  | nil => rfl
  | cons p rest ih =>
      obtain ⟨hp, hrest⟩ := List.forall_mem_cons.mp h
      rw [text?_fieldEntries_cons, if_neg hp, ih hrest]

theorem text?_of_mem (hapart : FieldsApart (fields.map Prod.fst)) (hf : (f, v) ∈ fields) :
    (fieldEntries fields).text? f.camel = v := by
  induction fields with
  | nil => cases hf
  | cons p rest ih =>
      obtain ⟨hp, hrest⟩ := List.pairwise_cons.mp hapart
      rw [text?_fieldEntries_cons]
      obtain rfl | hf := List.mem_cons.mp hf
      · have hnone : (fieldEntries rest).text? f.camel = none := text?_eq_none fun q hq =>
          Ne.symm (hp q.1 (List.mem_map_of_mem hq)).1.1
        rw [if_pos rfl, hnone, Option.or_none]
      · rw [if_neg (hp f (List.mem_map_of_mem hf)).1.1, ih hrest hf]

/-- Of a field without a value the second spelling is missing too. -/
theorem text?_snake_of_mem (hapart : FieldsApart (fields.map Prod.fst)) (hf : (f, none) ∈ fields) :
    (fieldEntries fields).text? f.snake = none := by
  induction fields with
  | nil => cases hf
  | cons p rest ih =>
      obtain ⟨hp, hrest⟩ := List.pairwise_cons.mp hapart
      rw [text?_fieldEntries_cons]
      obtain rfl | hf := List.mem_cons.mp hf
      · have hnone : (fieldEntries rest).text? f.snake = none := text?_eq_none fun q hq =>
          Ne.symm (hp q.1 (List.mem_map_of_mem hq)).1.2
        rw [hnone, Option.or_none, ite_self]
      · rw [if_neg (Ne.symm (hp f (List.mem_map_of_mem hf)).2.2), ih hrest hf]

/-- A field that was written is found with its value, under its first spelling. -/
theorem Field.find?_fieldEntries (hapart : FieldsApart (fields.map Prod.fst)) (hf : (f, v) ∈ fields) :
    f.find? (fieldEntries fields) = v.map (Prod.mk f.camel) := by
  rw [Field.find?, text?_of_mem hapart hf]
  cases v with
  | some x => rfl
  | none =>
      rw [text?_snake_of_mem hapart hf]
      rfl

/-! ## Reading back -/

variable {α : Type} {read : Value → Decoded α} {default a : α} {x : Value}

theorem Field.required_fieldEntries (hapart : FieldsApart (fields.map Prod.fst))
    (hf : (f, some x) ∈ fields) (hread : read x = .ok a) :
    f.required read (fieldEntries fields) = .ok a := by
  simp only [Field.required, Field.find?_fieldEntries hapart hf, Option.map_some, hread, within_ok]

theorem Field.withDefault_fieldEntries (hapart : FieldsApart (fields.map Prod.fst))
    (hf : (f, some x) ∈ fields) (hread : read x = .ok a) :
    f.withDefault default read (fieldEntries fields) = .ok a := by
  simp only [Field.withDefault, Field.find?_fieldEntries hapart hf, Option.map_some, hread, within_ok]

/-- A value that may be missing is read back, as long as it is not written as null. -/
theorem Field.withDefault_none_fieldEntries {β : Type} {read : Value → Decoded (Option β)}
    {write : β → Value} (hapart : FieldsApart (fields.map Prod.fst)) {b : Option β}
    (hf : (f, b.map write) ∈ fields) (hread : ∀ b, read (write b) = .ok (some b)) :
    f.withDefault none read (fieldEntries fields) = .ok b := by
  cases b with
  | some b => exact Field.withDefault_fieldEntries hapart hf (hread b)
  | none => simp only [Field.withDefault, Field.find?_fieldEntries hapart hf, Option.map_none]

theorem Field.optionalText_fieldEntries (hapart : FieldsApart (fields.map Prod.fst))
    {t : Option String} (hf : (f, t.map .str) ∈ fields) :
    f.optionalText (fieldEntries fields) = .ok t :=
  Field.withDefault_none_fieldEntries hapart hf fun _ => rfl

end Lookup

/-- A list is read back if each of its items is. -/
theorem allFrom_map {α : Type} {read : Value → Decoded α} {write : α → Value} {items : List α}
    (h : ∀ a ∈ items, read (write a) = .ok a) : ∀ i : Nat,
    Decoded.allFrom i ((items.map write).map read) = .ok items := by
  induction items with
  | nil => exact fun _ => rfl
  | cons a rest ih =>
      intro i
      obtain ⟨ha, hrest⟩ := List.forall_mem_cons.mp h
      rw [List.map_cons, List.map_cons, Decoded.allFrom, ha, ih hrest]
      rfl

theorem settings_record (s : Settings) : Lenient.settings (.record s) = .ok s := by
  induction s with
  | nil => rfl
  | cons e rest ih =>
      simp only [Lenient.settings, Value.record] at ih ⊢
      rw [List.map_cons, List.foldr_cons, ih]
      rfl

theorem eq_str_of_text {v : Value} {s : String} (h : Lenient.text v = .ok s) : v = .str s := by
  cases v with
  | str t => exact congrArg Value.str (Decoded.ok.inj h)
  | _ => cases h

/-- What settings are read from is the map of them. -/
theorem eq_record_of_settings {v : Value} {s : Settings} (h : Lenient.settings v = .ok s) :
    v = .record s := by
  cases v with
  | map entries =>
      induction entries generalizing s with
      | nil =>
          obtain rfl := Decoded.ok.inj h
          rfl
      | cons e rest ih =>
          change _ <*> Lenient.settings (.map rest) = _ at h
          obtain ⟨_, more, hfirst, hmore, rfl⟩ := seq_eq_ok_iff.mp h
          obtain ⟨entry, hentry, rfl⟩ := map_eq_ok_iff.mp hfirst
          obtain ⟨k, hk, rfl⟩ := map_eq_ok_iff.mp (within_eq_ok_iff.mp (within_eq_ok_iff.mp hentry))
          obtain rfl : rest = more.map fun (k, v) => (.str k, v) := Value.map.inj (ih hmore)
          obtain ⟨key, v⟩ := e
          obtain rfl : key = .str k := eq_str_of_text hk
          rfl
  | _ => cases h

end Runbook
