import Runbook.Proofs.Yaml.Scalar
import Runbook.Proofs.Yaml.Spelling
import Runbook.Yaml.Style

/-!
# Texts that are kept

Two kinds of texts are not read back as they were: one between single quotes that holds the
line end U+0085, which is folded like any other, and one between double quotes whose lines are so
short that a continuation comes at once behind another one. All others are written as a
scalar that stands for them (`isScalar_writeText`), and so is every key that stands before
its colon (`isScalar_key`), though that may be too long to be read.
-/

namespace Runbook.Yaml

/-- A text, written on lines that are indented by some blanks, is read back as it was. -/
def keepsText (indent : Nat) (text : String) : Bool :=
  match Style.ofText false text with
  | .plain => true
  | .single => !text.toList.contains '\x85'
  | .double => indent < lineWidth || !Style.hasNeighbours needsEscape (· == ' ') text.toList.tail.dropLast

/-- The token of a text. -/
def textToken (text : String) : Token := .scalar (Style.allowsPlain text) text

variable {text : String} {cs : List Char} {c : Char} {folds : Bool} {indent column least : Nat}

theorem flatten_runs (cs : List Char) : (runs cs).flatten = cs := List.flatten_splitBy _ _

theorem mem_of_mem_runs {run : List Char} (hrun : run ∈ runs cs) (hc : c ∈ run) : c ∈ cs := by
  rw [← flatten_runs cs]
  exact List.mem_flatten.mpr ⟨run, hrun, hc⟩

/-- A text that starts with no gap starts with a word. -/
theorem exists_word_runs (hblank : c ≠ ' ') (hbreak : isBreak c = false) (rest : List Char) :
    ∃ word, (runs (c :: rest)).head? = some word ∧ IsWord word := by
  have hflatten := flatten_runs (c :: rest)
  have hne : runs (c :: rest) ≠ [] := fun h => by
    rw [h] at hflatten
    cases hflatten
  obtain ⟨word, more, h⟩ := List.exists_cons_of_ne_nil hne
  have hmem : word ∈ runs (c :: rest) := h ▸ List.mem_cons_self
  refine ⟨word, by rw [h]; rfl, (run_cases hmem).resolve_left fun hgap => ?_⟩
  have hne : word ≠ [] := hgap.elim (·.1) (·.1)
  obtain ⟨d, word, rfl⟩ := List.exists_cons_of_ne_nil hne
  rw [h, List.flatten_cons, List.cons_append] at hflatten
  obtain ⟨rfl, -⟩ := List.cons.inj hflatten
  obtain hgap | hgap := hgap
  · exact hblank (hgap.2 d List.mem_cons_self)
  · rw [hgap.2 d List.mem_cons_self] at hbreak
    cases hbreak

/-! ## Plain text -/

theorem isFluent_of_not_isSpecial (hbreak : isBreak c = false) (h : Style.isSpecial c = false) : isFluent c = true := by
  have hne : ∀ d, Style.isSpecial d = true → c ≠ d := fun d hd => by
    rintro rfl
    rw [h] at hd
    cases hd
  simp [isFluent, isInline, hbreak, hne '\t' rfl, hne '\ufeff' rfl]

/-- What it takes to stand without quotes. -/
structure StandsPlain (text : String) : Prop where
  kind : Schema.kindOf text = .str
  line : ∀ c ∈ text.toList, isBreak c = false
  ordinary : ∀ c ∈ text.toList, Style.isSpecial c = false
  first : text.toList.head? ≠ some ' '
  last : text.toList.getLast? ≠ some ' '
  start : Style.startsLikeMark text.toList = false
  marks : HasNoMarks text.toList

theorem standsPlain (h : Style.allowsPlain text = true) : StandsPlain text := by
  simp only [Style.allowsPlain, Bool.and_eq_true, beq_iff_eq, Bool.not_eq_true', List.any_eq_false, bne_iff_ne,
    Bool.or_eq_true, not_or, Bool.not_eq_true] at h
  obtain ⟨⟨⟨⟨⟨hkind, hchars⟩, hfirst⟩, hlast⟩, hstart⟩, hmarks⟩ := h
  exact ⟨hkind, fun c hc => (hchars c hc).1, fun c hc => (hchars c hc).2, hfirst, hlast, hstart,
    hasNoMarks hstart hmarks⟩

theorem StandsPlain.fluent (h : StandsPlain text) : ∀ c ∈ text.toList, isFluent c = true :=
  fun c hc => isFluent_of_not_isSpecial (h.line c hc) (h.ordinary c hc)

theorem StandsPlain.flows (h : StandsPlain text) (hindent : 0 < indent) (hleast : least ≤ indent) (column : Nat) :
    Flows least (writePlain folds indent column (runs text.toList)) text.toList := by
  have hwoven : Woven (runs text.toList) := by
    refine woven_runs (hasNeighbours_eq_false fun c hc d hd => ?_) (hasNeighbours_eq_false fun c hc d hd => ?_)
    · rw [h.line c hc, Bool.false_and]
    · rw [h.line d hd, Bool.and_false]
  have hword : ∃ word, (runs text.toList).head? = some word ∧ IsWord word := by
    cases hcs : text.toList with
    | nil =>
        have hempty : text = "" := String.toList_inj.mp hcs
        have hkind := h.kind
        rw [hempty] at hkind
        exact absurd hkind (by decide)
    | cons c rest =>
        have hc : c ∈ text.toList := hcs ▸ List.mem_cons_self
        exact exists_word_runs (fun hblank => h.first (by rw [hcs, hblank]; rfl)) (h.line c hc) rest
  have := @flows_writePlain folds indent least hindent hleast (runs text.toList) column hwoven
    (fun run hrun c hc => h.fluent c (mem_of_mem_runs hrun hc)) hword (by rw [flatten_runs]; exact h.last)
    (by rw [flatten_runs]; exact h.marks)
  rwa [flatten_runs] at this

/-! ## Quoted text -/

theorem spells_single (hallows : Style.allowsSingle cs = true) (hkept : '\x85' ∉ cs) (hindent : 0 < indent)
    (column : Nat) : Spells false (writeSingle folds indent true column (runs cs)) cs := by
  simp only [Style.allowsSingle, Bool.and_eq_true, Bool.not_eq_true', List.any_eq_false, Bool.not_eq_true] at hallows
  obtain ⟨⟨hspecial, hbreak⟩, hblank⟩ := hallows
  have hchars : ∀ run ∈ runs cs, ∀ c ∈ run, isKept c = true := by
    intro run hrun c hc
    have hmem := mem_of_mem_runs hrun hc
    refine isKept_iff.mpr ⟨?_, ?_⟩
    · rintro rfl
      exact absurd (hspecial _ hmem) (by decide)
    · rintro rfl
      exact hkept hmem
  have := @spells_writeSingle folds true indent column _ hindent (woven_runs hbreak hblank) hchars
  rwa [flatten_runs] at this

theorem ofText_cases (oneLine : Bool) (text : String) :
    Style.allowsPlain text = true ∧ Style.ofText oneLine text = .plain ∨
      Style.allowsPlain text = false ∧
        (Style.allowsSingle text.toList = true ∧ Style.ofText oneLine text = .single ∨
          Style.ofText oneLine text = .double) := by
  unfold Style.ofText
  split
  · next h => exact .inl ⟨h, rfl⟩
  · next h =>
    refine .inr ⟨by simpa using h, ?_⟩
    dsimp only
    split
    · next h =>
      simp only [Bool.and_eq_true] at h
      exact .inl ⟨h.1, rfl⟩
    · exact .inr rfl

/-- In each style a text is written as a scalar that stands for it, but for two kinds of texts. -/
theorem isScalar_of_style {isKey : Bool} (hindent : 0 < indent) (hleast : least ≤ indent)
    (hsingle : Style.ofText isKey text = .single → '\x85' ∉ text.toList)
    (hdouble : Style.ofText isKey text = .double → Fits (!isKey) indent text.toList.tail) :
    IsScalar least (writeText isKey indent column text) (textToken text) := by
  have hquoted : Style.allowsPlain text = false →
      textToken text = .scalar false (String.ofList text.toList) := fun h => by
    rw [textToken, h, String.ofList_toList]
  rw [writeText]
  obtain ⟨hplain, hstyle⟩ | ⟨hplain, ⟨hallows, hstyle⟩ | hstyle⟩ := ofText_cases isKey text <;> rw [hstyle]
  · have hstands := standsPlain hplain
    have := IsScalar.plain (@StandsPlain.flows text (!isKey) indent least hstands hindent hleast column) hstands.start
    rwa [String.ofList_toList, ← hplain] at this
  · rw [hquoted hplain]
    exact .quoted (spells_single hallows (hsingle hstyle) hindent (column + 1))
  · rw [hquoted hplain]
    exact .quoted (spells_writeDouble hindent text.toList true (column + 1) [] (by simp) (hdouble hstyle))

/-- What is kept is written as a scalar that stands for it. -/
theorem isScalar_writeText (h : keepsText indent text = true) (hindent : 0 < indent) (hleast : least ≤ indent) :
    IsScalar least (writeText false indent column text) (textToken text) := by
  rw [keepsText] at h
  refine isScalar_of_style hindent hleast (fun hstyle => ?_) fun hstyle _ => ?_
  · simpa [hstyle] using h
  · simpa [hstyle] using h

/-! ## Keys -/

/-- A key that stands before its colon is written as a scalar that stands for it. -/
theorem isScalar_key (h : Style.isShortKey text = true) (hindent : 0 < indent) (hleast : least ≤ indent) :
    IsScalar least (writeText true indent column text) (textToken text) := by
  simp only [Style.isShortKey, Bool.and_eq_true, Bool.not_eq_true', List.any_eq_false] at h
  refine isScalar_of_style hindent hleast (fun _ hmem => ?_) fun _ hfolds => by cases hfolds
  exact absurd (h.2 _ hmem) (by decide)

end Runbook.Yaml
