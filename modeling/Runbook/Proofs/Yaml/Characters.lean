import Runbook.Proofs.Json.Quoted
import Runbook.Proofs.Yaml.Kept

/-!
# Characters of written texts

Whatever the style of a text, its written form holds printable ASCII characters, characters
of the text that are not escaped, and line feeds where lines are folded or the text has line
ends of its own (`forall_mem_writeText`).
-/

namespace Runbook.Yaml

/-- A printable character of ASCII. -/
def isAscii (c : Char) : Bool := 0x20 ≤ c.toNat && c.toNat ≤ 0x7e

variable {P : Char → Prop} {run cs pending : List Char} {texts : List (List Char)} {c : Char} {folds isFirst : Bool}
  {indent column : Nat}

theorem isAscii_escapeText (c : Char) : ∀ d ∈ escapeText c, isAscii d = true := by
  have hdigit : ∀ i : Fin 16, isAscii i.val.digitChar.toUpper = true := by decide
  have hhex : ∀ width n : Nat, ∀ d ∈ capitalHex width n, isAscii d = true := by
    intro width n d hd
    obtain ⟨e, he, rfl⟩ := List.mem_map.mp hd
    obtain ⟨i, rfl⟩ := Json.exists_of_mem_hexDigits he
    exact hdigit i
  have hletter : ∀ p ∈ escapeLetters, isAscii p.2 = true := by decide
  unfold escapeText
  split
  · next letter h =>
    obtain ⟨before, after, heq, -⟩ := List.lookup_eq_some_iff.mp h
    have := hletter (c, letter) (heq ▸ List.mem_append_right before List.mem_cons_self)
    exact List.forall_mem_cons.mpr ⟨rfl, by simpa using this⟩
  · repeat' split
    all_goals exact List.forall_mem_append.mpr ⟨by decide, hhex _ _⟩

/-- What is not escaped is no special character. -/
theorem isSpecial_eq_false (h : needsEscape c = false) : Style.isSpecial c = false := by
  have hmark : c.toNat ≠ 0xfeff := fun hc => by
    have : c = '\ufeff' := Char.toNat_inj.mp hc
    rw [this] at h
    cases h
  simp only [needsEscape, Bool.or_eq_false_iff, Bool.not_eq_false', Bool.or_eq_true, Bool.and_eq_true,
    decide_eq_true_eq] at h
  simp only [Style.isSpecial, Bool.not_eq_false', Bool.or_eq_true, Bool.and_eq_true, decide_eq_true_eq, bne_iff_ne]
  tauto

section Ascii

variable (hascii : ∀ c, isAscii c = true → P c)

include hascii

theorem forall_mem_newLine (hline : P '\n') (indent : Nat) : ∀ c ∈ newLine indent, P c := by
  refine List.forall_mem_cons.mpr ⟨hline, fun c hc => ?_⟩
  rw [List.eq_of_mem_replicate hc]
  exact hascii ' ' rfl

theorem forall_mem_writePlain (hfolds : folds = true → P '\n') :
    ∀ (texts : List (List Char)) (column : Nat), (∀ run ∈ texts, ∀ c ∈ run, P c) →
      ∀ c ∈ writePlain folds indent column texts, P c
  | [], _, _ => by simp [writePlain]
  | run :: rest, column, htexts => by
      obtain ⟨hrun, hrest⟩ := List.forall_mem_cons.mp htexts
      have ih := fun column => forall_mem_writePlain hfolds rest column hrest
      rw [writePlain]
      split
      · next h =>
        simp only [Bool.and_eq_true] at h
        exact List.forall_mem_append.mpr ⟨forall_mem_newLine hascii (hfolds h.1.1) indent, ih _⟩
      · exact List.forall_mem_append.mpr ⟨hrun, ih _⟩

theorem forall_mem_doubleQuotes (hrun : ∀ c ∈ run, P c) : ∀ c ∈ doubleQuotes run, P c := by
  induction run with
  | nil => simp [doubleQuotes]
  | cons c rest ih =>
      obtain ⟨hc, hrest⟩ := List.forall_mem_cons.mp hrun
      rw [doubleQuotes]
      split
      · exact List.forall_mem_cons.mpr ⟨hascii _ rfl, List.forall_mem_cons.mpr ⟨hascii _ rfl, ih hrest⟩⟩
      · exact List.forall_mem_cons.mpr ⟨hc, ih hrest⟩

theorem forall_mem_writeSingle (hfolds : folds = true → P '\n') :
    ∀ (texts : List (List Char)) (isFirst : Bool) (column : Nat), (∀ run ∈ texts, ∀ c ∈ run, P c) →
      ((∃ run ∈ texts, ∃ c ∈ run, isBreak c = true) → P '\n') →
      ∀ c ∈ writeSingle folds indent isFirst column texts, P c
  | [], _, _, _, _ => by simp [writeSingle]
  | run :: rest, isFirst, column, htexts, hbreaks => by
      obtain ⟨hrun, hrest⟩ := List.forall_mem_cons.mp htexts
      have hbreaks' : (∃ run ∈ rest, ∃ c ∈ run, isBreak c = true) → P '\n' := by
        rintro ⟨run, hrun, h⟩
        exact hbreaks ⟨run, List.mem_cons_of_mem _ hrun, h⟩
      have ih := fun isFirst column => forall_mem_writeSingle hfolds rest isFirst column hrest hbreaks'
      rw [writeSingle]
      split
      · next h =>
        have hline : P '\n' := by
          cases run with
          | nil => cases h
          | cons c more => exact hbreaks ⟨_, List.mem_cons_self, c, List.mem_cons_self, h⟩
        have hwritten := forall_mem_newLine hascii hline indent
        refine List.forall_mem_append.mpr ⟨?_, ih _ _⟩
        refine List.forall_mem_append.mpr ⟨List.forall_mem_append.mpr ⟨?_, hrun⟩, (List.forall_mem_cons.mp hwritten).2⟩
        split <;> simp [hline]
      · split
        · next h =>
          simp only [Bool.and_eq_true] at h
          exact List.forall_mem_append.mpr ⟨forall_mem_newLine hascii (hfolds h.1.1.1.1) indent, ih _ _⟩
        · exact List.forall_mem_append.mpr ⟨forall_mem_doubleQuotes hascii hrun, ih _ _⟩

theorem forall_mem_continuation (hline : P '\n') (indent : Nat) (rest : List Char) :
    ∀ c ∈ continuation indent rest, P c := by
  refine List.forall_mem_append.mpr ⟨List.forall_mem_append.mpr ⟨?_, forall_mem_newLine hascii hline indent⟩, ?_⟩
  · exact List.forall_mem_singleton.mpr (hascii _ rfl)
  · split
    · exact List.forall_mem_singleton.mpr (hascii _ rfl)
    · simp

theorem forall_mem_writeDouble (hfolds : folds = true → P '\n') :
    ∀ (cs : List Char) (isFirst : Bool) (column : Nat) (pending : List Char), (∀ c ∈ pending, P c) →
      (∀ c ∈ cs, needsEscape c = false → P c) → ∀ c ∈ writeDouble folds indent isFirst column pending cs, P c
  | [], _, _, pending, hpending, _ => by
      rw [writeDouble]
      exact fun c hc => hpending c (List.mem_reverse.mp hc)
  | c :: rest, isFirst, column, pending, hpending, hcs => by
      obtain ⟨hc, hrest⟩ := List.forall_mem_cons.mp hcs
      have hreverse : ∀ c ∈ pending.reverse, P c := fun c hc => hpending c (List.mem_reverse.mp hc)
      have hescape : ∀ d ∈ escapeText c, P d := fun d hd => hascii d (isAscii_escapeText c d hd)
      have ih := fun isFirst column pending hpending =>
        forall_mem_writeDouble hfolds rest isFirst column pending hpending hrest
      have hnone : ∀ c ∈ ([] : List Char), P c := fun _ h => absurd h List.not_mem_nil
      rw [writeDouble]
      split
      · have htext := List.forall_mem_append.mpr ⟨hreverse, hescape⟩
        dsimp only
        split
        · next h =>
          simp only [Bool.and_eq_true] at h
          have hline := forall_mem_continuation hascii (hfolds h.1.1.1) indent rest
          exact List.forall_mem_append.mpr ⟨List.forall_mem_append.mpr ⟨htext, hline⟩, ih _ _ _ hnone⟩
        · exact List.forall_mem_append.mpr ⟨htext, ih _ _ _ hnone⟩
      · next hraw =>
        have hc := hc (by simpa using hraw)
        split
        · next h =>
          simp only [Bool.and_eq_true] at h
          have hline := forall_mem_continuation hascii (hfolds h.1.1.1.1) indent (c :: rest)
          exact List.forall_mem_append.mpr ⟨List.forall_mem_append.mpr ⟨hreverse, hline⟩,
            ih _ _ _ (List.forall_mem_singleton.mpr hc)⟩
        · exact ih _ _ _ (List.forall_mem_cons.mpr ⟨hc, hpending⟩)

/-- The characters of a text that is written. -/
theorem forall_mem_writeText {isKey : Bool} {text : String}
    (hchars : ∀ c ∈ text.toList, Style.isSpecial c = false → P c)
    (hline : isKey = false ∨ (∃ c ∈ text.toList, isBreak c = true) → P '\n') :
    ∀ c ∈ writeText isKey indent column text, P c := by
  have hfolds : (!isKey) = true → P '\n' := fun h => hline (.inl (by simpa using h))
  rw [writeText]
  obtain ⟨hplain, hstyle⟩ | ⟨-, ⟨hallows, hstyle⟩ | hstyle⟩ := ofText_cases isKey text <;> rw [hstyle]
  · refine forall_mem_writePlain hascii hfolds _ _ fun run hrun c hc => ?_
    exact hchars c (mem_of_mem_runs hrun hc) ((standsPlain hplain).ordinary c (mem_of_mem_runs hrun hc))
  · simp only [Style.allowsSingle, Bool.and_eq_true, Bool.not_eq_true', List.any_eq_false, Bool.not_eq_true] at hallows
    refine List.forall_mem_append.mpr ⟨List.forall_mem_append.mpr ⟨List.forall_mem_singleton.mpr (hascii _ rfl), ?_⟩,
      List.forall_mem_singleton.mpr (hascii _ rfl)⟩
    refine forall_mem_writeSingle hascii hfolds _ _ _ (fun run hrun c hc => ?_) fun hbreaks => ?_
    · exact hchars c (mem_of_mem_runs hrun hc) (hallows.1.1 c (mem_of_mem_runs hrun hc))
    · obtain ⟨run, hrun, c, hc, hbreak⟩ := hbreaks
      exact hline (.inr ⟨c, mem_of_mem_runs hrun hc, hbreak⟩)
  · refine List.forall_mem_append.mpr ⟨List.forall_mem_append.mpr ⟨List.forall_mem_singleton.mpr (hascii _ rfl), ?_⟩,
      List.forall_mem_singleton.mpr (hascii _ rfl)⟩
    exact forall_mem_writeDouble hascii hfolds _ _ _ _ (by simp) fun c hc hraw => hchars c hc (isSpecial_eq_false hraw)

end Ascii

theorem isInline_of_isAscii (h : isAscii c = true) : isInline c = true := by
  have hne : ∀ d, isAscii d = false → c ≠ d := fun d hd => by
    rintro rfl
    rw [h] at hd
    cases hd
  simp [isInline, isBreak, hne '\n' rfl, hne '\x85' rfl, hne '\u2028' rfl, hne '\u2029' rfl, hne '\ufeff' rfl]

/-- A key that stands before its colon is on one line. -/
theorem isInline_key {key : String} (h : Style.isShortKey key = true) :
    ∀ c ∈ writeText true indent column key, isInline c = true := by
  simp only [Style.isShortKey, Bool.and_eq_true, Bool.not_eq_true', List.any_eq_false, Bool.not_eq_true] at h
  refine forall_mem_writeText (fun _ => isInline_of_isAscii) (fun c hc hspecial => ?_) fun hline => ?_
  · have := isFluent_of_not_isSpecial (h.2 c hc) hspecial
    simp only [isFluent, Bool.and_eq_true] at this
    exact this.2
  · obtain hline | ⟨c, hc, hbreak⟩ := hline
    · cases hline
    · rw [h.2 c hc] at hbreak
      cases hbreak

/-- A character that documents may hold, and that no reading of lines changes. -/
def isWritten (c : Char) : Bool := isAllowed c && c != '\r'

theorem isWritten_of_not_isSpecial (h : Style.isSpecial c = false) : isWritten c = true := by
  have hreturn : c ≠ '\r' := by
    rintro rfl
    cases h
  simp only [Style.isSpecial, Bool.not_eq_false', Bool.or_eq_true, Bool.and_eq_true, decide_eq_true_eq, beq_iff_eq,
    bne_iff_ne] at h
  simp only [isWritten, isAllowed, Bool.or_eq_true, Bool.and_eq_true, decide_eq_true_eq, beq_iff_eq, bne_iff_ne]
  refine ⟨?_, hreturn⟩
  obtain (((rfl | h) | h) | h) | h := h
  · exact .inl (.inl (.inl (.inl (.inr rfl))))
  · exact .inl (.inl (.inr h))
  · exact .inl (.inr h)
  · exact .inr (by omega)
  · exact .inr (by omega)

theorem isWritten_of_isAscii (h : isAscii c = true) : isWritten c = true :=
  isWritten_of_not_isSpecial (by
    simp only [isAscii, Bool.and_eq_true, decide_eq_true_eq] at h
    simp [Style.isSpecial, h])

theorem isWritten_writeText (isKey : Bool) (text : String) :
    ∀ c ∈ writeText isKey indent column text, isWritten c = true :=
  forall_mem_writeText (fun _ => isWritten_of_isAscii) (fun _ _ => isWritten_of_not_isSpecial) fun _ => rfl

end Runbook.Yaml
