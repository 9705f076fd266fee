import Mathlib.Tactic.Common
import Runbook.Value.Basic

/-!
# JSON data

The values that a JSON text can write: numbers are finite, and the keys of a map are
texts, each of which comes once (`Value.isJson`). Such a value is its own stored form
(`Value.plain_eq_self`). What its texts hold is a matter of its own (`Value.allTexts`).
-/

namespace Runbook

/-! ## Entries -/

namespace Entries

variable {entries : Entries} {key v : Value}

/-- No entry has a key. -/
def lacks (entries : Entries) (key : Value) : Bool := entries.all fun e => !e.1.sameKey key

theorem lacks_cons {e : Value × Value} :
    Entries.lacks (e :: entries) key = true ↔ e.1.sameKey key = false ∧ entries.lacks key = true := by
  simp [lacks]

theorem insert_of_lacks (h : entries.lacks key = true) (v : Value) :
    entries.insert key v = entries ++ [(key, v)] := by
  induction entries with
  | nil => rfl
  | cons e rest ih =>
      obtain ⟨hne, hrest⟩ := lacks_cons.mp h
      rw [insert, if_neg (by simp [hne]), ih hrest, List.cons_append]

theorem lacks_append (more : Entries) :
    lacks (entries ++ more) key = true ↔ entries.lacks key = true ∧ lacks more key = true := by
  simp [lacks, List.all_append]

theorem mem_of_get? (h : entries.get? key = some v) : ∃ e ∈ entries, e.2 = v := by
  induction entries with
  | nil => cases h
  | cons e rest ih =>
      rw [get?] at h
      split at h
      · exact ⟨e, List.mem_cons_self, Option.some.inj h⟩
      · obtain ⟨e', he', hv⟩ := ih h
        exact ⟨e', List.mem_cons_of_mem _ he', hv⟩

/-- What is inserted stands in place of what had its key, if anything did. -/
theorem mem_insert {e : Value × Value} (h : e ∈ entries.insert key v) : e ∈ entries ∨ e.2 = v := by
  induction entries with
  | nil => exact .inr (congrArg Prod.snd (List.mem_singleton.mp h))
  | cons d rest ih =>
      rw [insert] at h
      split at h
      · obtain rfl | h := List.mem_cons.mp h
        · exact .inr rfl
        · exact .inl (List.mem_cons_of_mem _ h)
      · obtain rfl | h := List.mem_cons.mp h
        · exact .inl List.mem_cons_self
        · exact (ih h).imp_left (List.mem_cons_of_mem _)

end Entries

@[simp] theorem Value.sameKey_str (a b : String) : (Value.str a).sameKey (.str b) = (a == b) := rfl

/-! ## JSON data -/

mutual

/-- A value that JSON can write. -/
def Value.isJson : Value → Bool
  | .null | .bool _ | .int _ | .str _ => true
  | .float x => x.isFinite
  | .day _ | .moment _ => false
  | .list items => Value.itemsAreJson items
  | .map entries => Value.entriesAreJson entries

def Value.itemsAreJson : List Value → Bool
  | [] => true
  | v :: rest => v.isJson && Value.itemsAreJson rest

/-- Entries whose keys are texts, none of which comes again. -/
def Value.entriesAreJson : List (Value × Value) → Bool
  | [] => true
  | (.str k, v) :: rest => v.isJson && Entries.lacks rest (.str k) && Value.entriesAreJson rest
  | _ => false

end

mutual

/-- The texts in a value, among them the keys of its maps. -/
def Value.allTexts : Value → List String
  | .str s => [s]
  | .list items => Value.itemsAllTexts items
  | .map entries => Value.entriesAllTexts entries
  | _ => []

def Value.itemsAllTexts : List Value → List String
  | [] => []
  | v :: rest => v.allTexts ++ Value.itemsAllTexts rest

def Value.entriesAllTexts : List (Value × Value) → List String
  | [] => []
  | (k, v) :: rest => k.allTexts ++ (v.allTexts ++ Value.entriesAllTexts rest)

end

namespace Value

theorem isJson_of_mem {items : List Value} (h : (Value.list items).isJson = true) {v : Value}
    (hv : v ∈ items) : v.isJson = true := by
  rw [isJson] at h
  induction items with
  | nil => cases hv
  | cons u rest ih =>
      rw [itemsAreJson, Bool.and_eq_true] at h
      obtain rfl | hv := List.mem_cons.mp hv
      · exact h.1
      · exact ih h.2 hv

/-- The first entry of JSON data has a text for its key, which does not come again. -/
theorem entriesAreJson_cons {e : Value × Value} {rest : Entries}
    (h : entriesAreJson (e :: rest) = true) : ∃ k v, e = (.str k, v) ∧ v.isJson = true ∧
      Entries.lacks rest (.str k) = true ∧ entriesAreJson rest = true := by
  obtain ⟨k, v⟩ := e
  cases k with
  | str k =>
      rw [entriesAreJson, Bool.and_eq_true, Bool.and_eq_true] at h
      exact ⟨k, v, rfl, h.1.1, h.1.2, h.2⟩
  | _ => cases h

theorem isJson_of_mem_entries {entries : Entries} (h : (Value.map entries).isJson = true)
    {e : Value × Value} (he : e ∈ entries) : e.2.isJson = true := by
  rw [isJson] at h
  induction entries with
  | nil => cases he
  | cons d rest ih =>
      obtain ⟨k, v, rfl, hv, -, hrest⟩ := entriesAreJson_cons h
      obtain rfl | he := List.mem_cons.mp he
      · exact hv
      · exact ih hrest he

/-- Pairs with different keys are the entries that they leave. -/
theorem foldl_insert_eq_append {pairs : Entries} (h : entriesAreJson pairs = true) : ∀ before : Entries,
    (∀ e ∈ pairs, before.lacks e.1 = true) →
    pairs.foldl (fun entries (k, v) => entries.insert k v) before = before ++ pairs := by
  induction pairs with
  | nil => exact fun before _ => (List.append_nil before).symm
  | cons e rest ih =>
      intro before hnew
      obtain ⟨k, v, rfl, -, hlacks, hrest⟩ := entriesAreJson_cons h
      obtain ⟨hk, hnew⟩ := List.forall_mem_cons.mp hnew
      simp only [List.foldl_cons]
      rw [Entries.insert_of_lacks hk, ih hrest, List.append_assoc]
      · rfl
      · intro d hd
        -- keys are compared both ways round, which for texts is the same
        have hne : d.1.sameKey (.str k) = false := by
          simpa using List.all_eq_true.mp hlacks d hd
        have hsym : (Value.str k).sameKey d.1 = false := by
          obtain ⟨key, value⟩ := d
          cases key with
          | str j =>
              rw [sameKey_str, beq_eq_false_iff_ne] at hne ⊢
              exact hne.symm
          | float x => cases x <;> rfl
          | _ => rfl
        exact (Entries.lacks_append _).mpr
          ⟨hnew d hd, by simp [Entries.lacks, hsym]⟩

mutual

/-- JSON data is its own stored form. -/
theorem plain_eq_self : ∀ v : Value, v.isJson = true → v.plain = v
  | .null, _ | .bool _, _ | .int _, _ | .str _, _ => by rw [plain]; all_goals simp
  | .float x, h => by
      rw [isJson] at h
      rw [plain, if_pos h]
  | .day _, h | .moment _, h => by cases h
  | .list items, h => by
      rw [isJson] at h
      rw [plain, plainItems_eq_self items h]
  | .map entries, h => by
      rw [isJson] at h
      rw [plain, plainEntries_eq_self entries h, Entries.ofPairs, foldl_insert_eq_append h]
      · rfl
      · exact fun _ _ => rfl

theorem plainItems_eq_self : ∀ items : List Value, itemsAreJson items = true → plainItems items = items
  | [], _ => rfl
  | v :: rest, h => by
      rw [itemsAreJson, Bool.and_eq_true] at h
      rw [plainItems, plain_eq_self v h.1, plainItems_eq_self rest h.2]

theorem plainEntries_eq_self : ∀ entries : Entries, entriesAreJson entries = true →
    plainEntries entries = entries
  | [], _ => rfl
  | (.str k, v) :: rest, h => by
      rw [entriesAreJson, Bool.and_eq_true, Bool.and_eq_true] at h
      rw [plainEntries, plain_eq_self v h.1.1, plainEntries_eq_self rest h.2]
      rfl

end

end Value

end Runbook
