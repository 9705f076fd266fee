import Mathlib.Data.List.Nodup
import Runbook.Run.Tracker

/-!
# Slots of a record

A record read as a total function `slot` from ids to slots. What changes a slot
changes nothing else, and since the ids of a record are distinct, looking a slot
up and going through the list of slots agree.
-/

namespace Runbook.Run

/-- Whether a node has left its first state: an unfinished loop is pending again,
but counts its rounds. -/
def Slot.Begun (s : Slot) : Prop := s.status ≠ .pending ∨ 0 < s.iterations

@[simp] theorem Slot.not_begun_initial : ¬ Slot.initial.Begun := by
  simp [Slot.Begun, Slot.initial]

attribute [ext] Record

namespace Record

/-- The ids that have a slot. -/
def ids (r : Record) : List String := r.slots.map Prod.fst

/-! ## Looking a slot up -/

theorem slot_congr {r r' : Record} (h : r.slots = r'.slots) (id : String) :
    r.slot id = r'.slot id := by
  rw [slot, slot, slot?, slot?, h]

theorem ids_congr {r r' : Record} (h : r.slots = r'.slots) : r.ids = r'.ids := by
  rw [ids, ids, h]

/-- Looking up a key in a list of pairs finds nothing iff no pair has it. -/
theorem slot?_eq_none_iff {r : Record} {id : String} : r.slot? id = none ↔ id ∉ r.ids := by
  simp only [slot?, Option.map_eq_none_iff, List.find?_eq_none, ids, List.mem_map]
  constructor
  · rintro h ⟨entry, hentry, rfl⟩
    exact h entry hentry (by simp)
  · rintro h entry hentry heq
    exact h ⟨entry, hentry, by simpa using heq⟩

theorem slot?_of_mem {r : Record} {id : String} (h : id ∈ r.ids) :
    r.slot? id = some (r.slot id) := by
  cases hslot : r.slot? id with
  | none => exact absurd h (slot?_eq_none_iff.mp hslot)
  | some s => simp [slot, hslot]

theorem slot_of_not_mem {r : Record} {id : String} (h : id ∉ r.ids) : r.slot id = .initial := by
  rw [slot, slot?_eq_none_iff.mpr h]
  rfl

/-- An id with a slot that differs from the first one is in the record. -/
theorem mem_ids_of_begun {r : Record} {id : String} (h : (r.slot id).Begun) : id ∈ r.ids := by
  by_contra hout
  rw [slot_of_not_mem hout] at h
  exact Slot.not_begun_initial h

theorem mem_ids_of_status {r : Record} {id : String} (h : (r.slot id).status ≠ .pending) :
    id ∈ r.ids := mem_ids_of_begun (.inl h)

/-- With distinct ids, the entry in the list is what the look-up finds. -/
theorem slot_eq_of_mem {r : Record} (hnodup : r.ids.Nodup) {entry : String × Slot}
    (h : entry ∈ r.slots) : r.slot entry.1 = entry.2 := by
  have hmem : entry.1 ∈ r.ids := List.mem_map.mpr ⟨entry, h, rfl⟩
  have hfound := slot?_of_mem hmem
  rw [slot?, Option.map_eq_some_iff] at hfound
  obtain ⟨other, hother, heq⟩ := hfound
  have hkey : other.1 = entry.1 := by simpa using List.find?_some hother
  -- the look-up stops at the first entry with the id, and there is only one
  have hsame : other = entry :=
    List.inj_on_of_nodup_map hnodup (List.mem_of_find?_eq_some hother) h hkey
  rw [← heq, hsame]

theorem runningNode_eq_none_iff {r : Record} (hnodup : r.ids.Nodup) :
    r.runningNode = none ↔ ∀ id, (r.slot id).status ≠ .running := by
  simp only [runningNode, Option.map_eq_none_iff, List.find?_eq_none]
  constructor
  · intro h id hrunning
    have hmem : id ∈ r.ids := mem_ids_of_status (by rw [hrunning]; decide)
    obtain ⟨entry, hentry, rfl⟩ := List.mem_map.mp hmem
    rw [slot_eq_of_mem hnodup hentry] at hrunning
    exact h entry hentry (by simpa using hrunning)
  · intro h entry hentry hrunning
    refine h entry.1 ?_
    rw [slot_eq_of_mem hnodup hentry]
    simpa using hrunning

/-! ## Changing a slot -/

@[simp] theorem ids_updateSlot (r : Record) (id : String) (f : Slot → Slot) :
    (r.updateSlot id f).ids = r.ids := by
  simp only [ids, updateSlot, List.map_map]
  refine List.map_congr_left fun entry _ => ?_
  simp only [Function.comp_apply]
  split <;> rfl

theorem find?_updateSlot (slots : List (String × Slot)) (id other : String) (f : Slot → Slot) :
    (slots.map fun (key, s) => if key == id then (key, f s) else (key, s)).find? (·.1 == other) =
      (slots.find? (·.1 == other)).map fun (key, s) => if key == id then (key, f s) else (key, s) := by
  induction slots with
  | nil => rfl
  | cons entry rest ih =>
      obtain ⟨key, s⟩ := entry
      have hkey : (if key == id then (key, f s) else (key, s)).1 = key := by split <;> rfl
      simp only [List.map_cons, List.find?_cons, hkey]
      cases hother : key == other with
      | true => rfl
      | false => exact ih

/-- **The frame of a change**: it reaches one slot and no other. -/
theorem slot_updateSlot {r : Record} {id : String} (hid : id ∈ r.ids) (f : Slot → Slot)
    (other : String) :
    (r.updateSlot id f).slot other = if other = id then f (r.slot id) else r.slot other := by
  simp only [slot, slot?, updateSlot, find?_updateSlot, Option.map_map]
  cases hfind : r.slots.find? (·.1 == other) with
  | none =>
      have hout : other ∉ r.ids := slot?_eq_none_iff.mp (by simp [slot?, hfind])
      have hne : other ≠ id := fun heq => hout (heq ▸ hid)
      simp [hne]
  | some entry =>
      obtain ⟨key, s⟩ := entry
      have hkey : key = other := by simpa using List.find?_some hfind
      subst hkey
      by_cases heq : key = id
      · subst heq
        simp [hfind]
      · simp [heq]

/-- What holds of the new slot, and of the old ones of all others, holds of every slot. -/
theorem forall_slot_of_update {r r' : Record} {id : String} {s : Slot} {P : String → Slot → Prop}
    (hslot : ∀ other, r'.slot other = if other = id then s else r.slot other) (hself : P id s)
    (hother : ∀ other, other ≠ id → P other (r.slot other)) (other : String) : P other (r'.slot other) := by
  rw [hslot]
  split
  case isTrue heq => exact heq ▸ hself
  case isFalse hne => exact hother other hne

/-- At most one slot stays of a kind, if the new one is of it only when no other one is. -/
theorem slot_unique_of_update {r r' : Record} {id : String} {s : Slot} {P : Slot → Prop}
    (hslot : ∀ other, r'.slot other = if other = id then s else r.slot other)
    (hself : P s → ∀ other, other ≠ id → ¬ P (r.slot other))
    (hunique : ∀ a b, P (r.slot a) → P (r.slot b) → a = b) (a b : String) (ha : P (r'.slot a))
    (hb : P (r'.slot b)) : a = b := by
  rw [hslot] at ha hb
  split at ha
  case isTrue hia =>
    split at hb
    case isTrue hib => exact hia.trans hib.symm
    case isFalse hib => exact absurd hb (hself ha b hib)
  case isFalse hia =>
    split at hb
    case isTrue => exact absurd ha (hself hb a hia)
    case isFalse => exact hunique a b ha hb

theorem updateSlot_updateSlot (r : Record) (id : String) (f g : Slot → Slot) :
    (r.updateSlot id f).updateSlot id g = r.updateSlot id fun s => g (f s) := by
  simp only [updateSlot, List.map_map]
  congr 1
  refine List.map_congr_left fun entry _ => ?_
  simp only [Function.comp_apply]
  by_cases h : entry.1 == id <;> simp [h]

end Record

/-! ## Begins -/

/-- The node that an event notes to begin. -/
def Event.begins? (e : Event) : Option String :=
  match e.change with
  | .node id _ .running => some id
  | _ => none

/-- The nodes that began, in order, one entry for each time. -/
def Record.begins (r : Record) : List String := r.events.filterMap Event.begins?

theorem Record.begins_append {r r' : Record} {events : List Event}
    (h : r'.events = r.events ++ events) :
    r'.begins = r.begins ++ events.filterMap Event.begins? := by
  rw [begins, begins, h, List.filterMap_append]

end Runbook.Run
