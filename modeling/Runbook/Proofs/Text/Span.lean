import Mathlib.Data.List.TakeWhile

/-!
# Runs and parts of a text

A run of characters of a class, followed by one that is not of it or by nothing, is what
`takeWhile` takes and what `dropWhile` leaves out. What the parts of a text and the
separators between them are made of, it is made of. What is said of its characters is decided
character by character.
-/

namespace Runbook.Text

/-- Decided over the text. It comes before the instances that go over all characters there are. -/
instance (priority := 1100) decidableForallMem (P : Char → Prop) [DecidablePred P] (cs : List Char) :
    Decidable (∀ c ∈ cs, P c) :=
  List.decidableBAll P cs

variable {α : Type} {p : α → Bool} {xs ys : List α}

/-- The first item, if there is one, is not of a class. -/
def Stops (p : α → Bool) (ys : List α) : Prop := ∀ y, ys.head? = some y → p y = false

theorem stops_nil (p : α → Bool) : Stops p [] := fun _ h => by cases h

theorem stops_cons {y : α} (h : p y = false) (ys : List α) : Stops p (y :: ys) := fun _ hy => by
  obtain rfl := Option.some.inj hy
  exact h

theorem takeWhile_of_stops (h : Stops p ys) : ys.takeWhile p = [] := by
  cases ys with
  | nil => rfl
  | cons y ys => rw [List.takeWhile_cons_of_neg (by simp [h y rfl])]

/-- A run of a class is taken, and nothing after it. -/
theorem takeWhile_append (hxs : ∀ x ∈ xs, p x = true) (hys : Stops p ys) : (xs ++ ys).takeWhile p = xs := by
  rw [List.takeWhile_append_of_pos hxs, takeWhile_of_stops hys, List.append_nil]

theorem dropWhile_append (hxs : ∀ x ∈ xs, p x = true) (hys : Stops p ys) : (xs ++ ys).dropWhile p = ys := by
  have := List.takeWhile_append_dropWhile (p := p) (l := xs ++ ys)
  rw [takeWhile_append hxs hys] at this
  exact List.append_cancel_left this

theorem forall_mem_intercalate {P : α → Prop} {separator : List α} (hseparator : ∀ x ∈ separator, P x)
    {parts : List (List α)} (h : ∀ part ∈ parts, ∀ x ∈ part, P x) : ∀ x ∈ separator.intercalate parts, P x := by
  induction parts with
  | nil => exact fun _ hx => absurd hx List.not_mem_nil
  | cons part more ih =>
      obtain ⟨hpart, hmore⟩ := List.forall_mem_cons.mp h
      cases more with
      | nil => rwa [List.intercalate_singleton]
      | cons next more =>
          rw [List.intercalate_cons_cons]
          exact List.forall_mem_append.mpr ⟨List.forall_mem_append.mpr ⟨hpart, hseparator⟩, ih hmore⟩

end Runbook.Text
