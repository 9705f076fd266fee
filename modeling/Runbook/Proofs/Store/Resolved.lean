import Runbook.Proofs.Store.Written
import Runbook.Proofs.Workflow.Decoded

/-!
# Paths without their steps up

To resolve a path is to take away each step up with the name before it, whether that name leads
to a folder or not. A path that can be followed leads where its resolved form leads
(`Store.locate_resolved`), and so the two are the same to a reader (`Store.entry_resolved`).
-/

namespace Runbook

namespace Path

theorem ne_empty_of_mem_ofText {text name : String} (h : name ∈ (ofText text).names) : name ≠ "" := by
  obtain ⟨cs, hcs, rfl⟩ := List.mem_map.mp h
  rintro hempty
  obtain rfl : cs = [] := by simpa using congrArg String.toList hempty
  simp [isName] at hcs

/-- What a name does to the names before it. -/
def resolve (names : List String) (n : String) : List String := if n = ".." then names.dropLast else names ++ [n]

end Path

namespace Store

variable {s : Store} {names names' after base : List String} {next : String} {p : Path}

/-- One step down. -/
theorem follow_down (hnext : next ≠ "..") (h : s.follow names next = .ok after) : after = names ++ [next] := by
  rw [follow, find?_of_follow h] at h
  simp only [if_neg hnext] at h
  split at h
  · cases h
  · exact (Except.ok.inj h).symm

/-- One step up. -/
theorem follow_up (h : s.follow names ".." = .ok after) : after = if names = [""] then names else names.dropLast := by
  rw [follow, find?_of_follow h] at h
  exact (Except.ok.inj h).symm

/-- Names that were followed to their end can be followed without the last one. -/
theorem foldlM_follow_dropLast (hdown : ".." ∉ names) (h : names.foldlM s.follow base = .ok (base ++ names)) :
    names.dropLast.foldlM s.follow base = .ok (base ++ names.dropLast) := by
  rcases List.eq_nil_or_concat' names with rfl | ⟨init, last, rfl⟩
  · exact h
  · rw [List.foldlM_append] at h
    obtain ⟨between, hbetween, hlast⟩ := except_bind_eq_ok_iff.mp h
    have hne : last ≠ ".." := fun heq => hdown (by simp [heq])
    have hfollow : s.follow between last = .ok (base ++ (init ++ [last])) := by
      simpa [List.foldlM_cons] using hlast
    have heq : base ++ init = between := by
      have := follow_down hne hfollow
      rw [← List.append_assoc] at this
      exact List.append_inj_left' this rfl
    rw [List.dropLast_concat, hbetween, heq]

/-- Names lead where they lead without their steps up, from the root or from the current folder. -/
theorem foldlM_follow_resolve (hbase : base = [] ∨ base = [""]) (hnames : ∀ n ∈ names, n ≠ "")
    (hsofar : ".." ∉ names' ∧ "" ∉ names') (hstart : names'.foldlM s.follow base = .ok (base ++ names'))
    (h : names.foldlM s.follow (base ++ names') = .ok after) :
    (names.foldl Path.resolve names').foldlM s.follow base = .ok after ∧
      base ++ names.foldl Path.resolve names' = after := by
  induction names generalizing names' with
  | nil =>
      obtain rfl : base ++ names' = after := Except.ok.inj h
      exact ⟨hstart, rfl⟩
  | cons n rest ih =>
      obtain ⟨hn, hrest⟩ := List.forall_mem_cons.mp hnames
      rw [List.foldlM_cons] at h
      obtain ⟨between, hnext, hafter⟩ := except_bind_eq_ok_iff.mp h
      rw [List.foldl_cons]
      by_cases hup : n = ".."
      · subst hup
        have hbetween : between = base ++ names'.dropLast := by
          rw [follow_up hnext]
          rcases List.eq_nil_or_concat' names' with rfl | ⟨init, last, rfl⟩
          · rcases hbase with rfl | rfl <;> simp
          · have hne : base ++ (init ++ [last]) ≠ [""] := by
              intro heq
              have hlast : last ∈ [""] := heq ▸ (by simp)
              exact hsofar.2 (by simp [List.mem_singleton.mp hlast])
            rw [if_neg hne, ← List.append_assoc, List.dropLast_concat, List.dropLast_concat]
        rw [Path.resolve, if_pos rfl]
        exact ih hrest ⟨fun hmem => hsofar.1 (List.dropLast_subset _ hmem),
          fun hmem => hsofar.2 (List.dropLast_subset _ hmem)⟩
          (foldlM_follow_dropLast hsofar.1 hstart) (hbetween ▸ hafter)
      · obtain rfl := follow_down hup hnext
        rw [Path.resolve, if_neg hup]
        rw [List.append_assoc] at hafter
        refine ih hrest ?_ ?_ hafter
        · simp [hsofar.1, hsofar.2, Ne.symm hup, Ne.symm hn]
        · rw [List.foldlM_append, hstart, ← List.append_assoc]
          exact except_bind_eq_ok_iff.mpr ⟨_, rfl, except_bind_eq_ok_iff.mpr ⟨_, hnext, rfl⟩⟩

/-- **A path that can be followed leads where its resolved form leads.** -/
theorem locate_resolved (hnames : ∀ n ∈ p.names, n ≠ "") (h : s.locate p = .ok after) :
    s.locate p.resolved = .ok after := by
  rw [locate, Path.steps] at h ⊢
  have hresolved : p.resolved = { p with names := p.names.foldl Path.resolve [] } := rfl
  rw [hresolved]
  cases hroot : p.absolute with
  | false =>
      rw [hroot, if_neg Bool.false_ne_true] at h
      rw [if_neg Bool.false_ne_true]
      exact (foldlM_follow_resolve (.inl rfl) hnames (by simp) rfl h).1
  | true =>
      rw [hroot, if_pos rfl, List.foldlM_cons] at h
      rw [if_pos rfl, List.foldlM_cons]
      obtain ⟨root, hfirst, h⟩ := except_bind_eq_ok_iff.mp h
      obtain rfl : root = [""] := follow_down (by decide) hfirst
      exact except_bind_eq_ok_iff.mpr ⟨_, hfirst, (foldlM_follow_resolve (.inr rfl) hnames (by simp) rfl h).1⟩

theorem entry_resolved (hnames : ∀ n ∈ p.names, n ≠ "") (h : s.locate p = .ok after) :
    s.entry p.resolved = s.entry p := by
  rw [entry, entry, h, locate_resolved hnames h]

end Store

end Runbook
