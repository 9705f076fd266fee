import Mathlib.Data.List.Forall2
import Mathlib.Tactic.Common
import Runbook.Workflow.Edit

/-!
# What reading gives

Readings are joined field by field, and a joint reading gives a value iff each part
does. So what is read of a kind's fields is of that kind.
-/

namespace Runbook

/-! ## Results -/

section Results

variable {ε α β : Type} {x : Except ε α}

theorem except_map_eq_ok_iff {f : α → β} {b : β} : x.map f = .ok b ↔ ∃ a, x = .ok a ∧ f a = b := by
  cases x <;> simp [Except.map]

theorem except_bind_eq_ok_iff {f : α → Except ε β} {b : β} :
    x >>= f = .ok b ↔ ∃ a, x = .ok a ∧ f a = .ok b := by
  cases x <;> simp [bind, Except.bind]

/-- A list that is read as a whole is read item by item. -/
theorem forall₂_of_mapM_eq_ok {read : α → Except ε β} {items : List α} {results : List β}
    (h : items.mapM read = .ok results) : List.Forall₂ (fun a b => read a = .ok b) items results := by
  induction items generalizing results with
  | nil =>
      obtain rfl : [] = results := by simpa [pure, Except.pure] using h
      exact .nil
  | cons a rest ih =>
      rw [List.mapM_cons] at h
      obtain ⟨b, hb, h⟩ := except_bind_eq_ok_iff.mp h
      obtain ⟨more, hmore, h⟩ := except_bind_eq_ok_iff.mp h
      obtain rfl : b :: more = results := Except.ok.inj h
      exact .cons hb (ih hmore)

theorem exists_of_mem_mapM {read : α → Except ε β} {items : List α} {results : List β}
    (h : items.mapM read = .ok results) {b : β} (hb : b ∈ results) : ∃ a ∈ items, read a = .ok b := by
  have hboth := forall₂_of_mapM_eq_ok h
  clear h
  induction hboth with
  | nil => cases hb
  | cons hfirst _ ih =>
      obtain rfl | hb := List.mem_cons.mp hb
      · exact ⟨_, List.mem_cons_self, hfirst⟩
      · obtain ⟨a, ha, hread⟩ := ih hb
        exact ⟨a, List.mem_cons_of_mem _ ha, hread⟩

section Items

variable {read : α → Except ε β} {items : List α} {results : List β} {e : ε}

theorem mapM_eq_ok_iff :
    items.mapM read = .ok results ↔ List.Forall₂ (fun a b => read a = .ok b) items results := by
  refine ⟨forall₂_of_mapM_eq_ok, fun h => ?_⟩
  induction h with
  | nil => rfl
  | cons hfirst _ ih =>
      rw [List.mapM_cons, hfirst, ih]
      rfl

theorem exists_of_mapM_eq_error (h : items.mapM read = .error e) : ∃ a ∈ items, read a = .error e := by
  induction items with
  | nil => cases h
  | cons a rest ih =>
      rw [List.mapM_cons] at h
      cases hfirst : read a with
      | error e' =>
          rw [hfirst] at h
          obtain rfl : e' = e := Except.error.inj h
          exact ⟨a, List.mem_cons_self, hfirst⟩
      | ok b =>
          cases hrest : rest.mapM read with
          | error e' =>
              rw [hfirst, hrest] at h
              obtain rfl : e' = e := Except.error.inj h
              obtain ⟨c, hc, hread⟩ := ih hrest
              exact ⟨c, List.mem_cons_of_mem _ hc, hread⟩
          | ok more =>
              rw [hfirst, hrest] at h
              cases h

theorem exists_mapM_iff :
    (∃ results, items.mapM read = .ok results) ↔ ∀ a ∈ items, ∃ b, read a = .ok b := by
  constructor
  · rintro ⟨results, h⟩
    replace h := mapM_eq_ok_iff.mp h
    induction h with
    | nil => exact fun _ ha => (by cases ha)
    | cons hfirst _ ih => exact List.forall_mem_cons.mpr ⟨⟨_, hfirst⟩, ih⟩
  · intro h
    cases hread : items.mapM read with
    | ok results => exact ⟨results, rfl⟩
    | error e =>
        obtain ⟨a, ha, he⟩ := exists_of_mapM_eq_error hread
        obtain ⟨b, hb⟩ := h a ha
        exact absurd (he.symm.trans hb) (by simp)

end Items

end Results

/-! ## Readings -/

namespace Decoded

variable {α β : Type} {f : α → β} {g : Decoded (α → β)} {x : Decoded α} {a : α} {b : β}

@[simp] theorem map_ok (f : α → β) (a : α) : f <$> Decoded.ok a = .ok (f a) := rfl

@[simp] theorem seq_ok (f : α → β) (a : α) : Decoded.ok f <*> Decoded.ok a = .ok (f a) := rfl

@[simp] theorem within_ok (step : Step) (a : α) : (Decoded.ok a).within step = .ok a := rfl

theorem map_eq_ok_iff : f <$> x = .ok b ↔ ∃ a, x = .ok a ∧ f a = b := by
  cases x with
  | ok a => simp
  | faulty faults =>
      constructor
      · intro h
        cases h
      · rintro ⟨a, h, -⟩
        cases h

theorem seq_eq_ok_iff : g <*> x = .ok b ↔ ∃ f a, g = .ok f ∧ x = .ok a ∧ f a = b := by
  constructor
  · intro h
    cases g <;> cases x <;> first | exact ⟨_, _, rfl, rfl, ok.inj h⟩ | cases h
  · rintro ⟨f, a, rfl, rfl, rfl⟩
    rfl

theorem within_eq_ok_iff {step : Step} : x.within step = .ok a ↔ x = .ok a := by
  cases x <;> simp [within]

theorem orRefuse_eq_ok_iff {title : String} : x.orRefuse title = .ok a ↔ x = .ok a := by
  cases x <;> simp [orRefuse]

end Decoded

/-- The fields of a kind give what is particular to that kind. -/
theorem Detail.kind_of_decode {kind : NodeKind} {entries : Entries} {d : Detail}
    (h : Detail.decode kind entries = .ok d) : d.kind = kind := by
  cases kind with
  | action | output =>
      obtain rfl := Decoded.ok.inj h
      rfl
  | prompt | decision | loop =>
      obtain ⟨_, -, rfl⟩ := Decoded.map_eq_ok_iff.mp h
      rfl
  | trigger | subagent =>
      obtain ⟨_, _, htwo, -, rfl⟩ := Decoded.seq_eq_ok_iff.mp h
      obtain ⟨_, -, rfl⟩ := Decoded.map_eq_ok_iff.mp htwo
      rfl
  | mcpCall =>
      obtain ⟨_, _, hthree, -, rfl⟩ := Decoded.seq_eq_ok_iff.mp h
      obtain ⟨_, _, htwo, -, rfl⟩ := Decoded.seq_eq_ok_iff.mp hthree
      obtain ⟨_, -, rfl⟩ := Decoded.map_eq_ok_iff.mp htwo
      rfl

theorem Payload.kind_of_ofEntries {kind : NodeKind} {entries : Entries} {p : Payload}
    (h : Payload.ofEntries kind entries = .ok p) : p.detail.kind = kind := by
  obtain ⟨_, d, hshared, hd, rfl⟩ := Decoded.seq_eq_ok_iff.mp h
  obtain ⟨_, _, hfour, -, rfl⟩ := Decoded.seq_eq_ok_iff.mp hshared
  obtain ⟨_, _, hthree, -, rfl⟩ := Decoded.seq_eq_ok_iff.mp hfour
  obtain ⟨_, _, htwo, -, rfl⟩ := Decoded.seq_eq_ok_iff.mp hthree
  obtain ⟨_, -, rfl⟩ := Decoded.map_eq_ok_iff.mp htwo
  exact Detail.kind_of_decode hd

/-- An update does not change the kind of a node. -/
theorem Payload.kind_of_update {p q : Payload} {changes : Settings}
    (h : p.update changes = .ok q) : q.detail.kind = p.detail.kind :=
  Payload.kind_of_ofEntries (Decoded.orRefuse_eq_ok_iff.mp h)

end Runbook
