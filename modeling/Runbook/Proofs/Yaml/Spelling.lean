import Runbook.Proofs.Json.Quoted
import Runbook.Proofs.Yaml.Plain

/-!
# How texts are written

A text that is written between quotes is spelled, on however many lines: between single
quotes if no blank stands beside a line end (`spells_writeSingle`), and between double quotes
whatever it holds, unless the lines are so short that nothing but continuations fits on them
(`spells_writeDouble`). Plain text flows (`flows_writePlain`).
-/

namespace Runbook.Yaml

variable {run text cs : List Char} {c : Char} {n : Nat} {double : Bool}

theorem startsSolid_nil : StartsSolid [] := Text.stops_nil _

/-- Blanks before what starts solid. -/
theorem StartsSolid.keepsBlanks_append (h : StartsSolid text) (n : Nat) :
    KeepsBlanks (List.replicate n ' ' ++ text) := by
  have hblanks : ∀ c ∈ List.replicate n ' ', (c == ' ') = true := fun c hc => by
    obtain rfl := List.eq_of_mem_replicate hc
    rfl
  have hstops : Text.Stops (fun c => c == ' ') text := fun c hc => by
    simpa using (isGap_iff.mp (h c hc)).1
  rw [KeepsBlanks, Text.dropWhile_append hblanks hstops]
  intro c hc
  obtain ⟨-, htab, hbreak⟩ := isGap_iff.mp (h c hc)
  simp [htab, hbreak]

theorem Spells.blanks (h : StartsSolid text) (hspells : Spells double text cs) (n : Nat) :
    Spells double (List.replicate n ' ' ++ text) (List.replicate n ' ' ++ cs) := by
  induction n with
  | zero => exact hspells
  | succ n ih =>
      rw [List.replicate_succ, List.cons_append, List.cons_append]
      exact .blank (h.keepsBlanks_append n) ih

/-! ## Single quotes -/

/-- A character that single quotes keep: no tab, and no line end that becomes another one. -/
def isKept (c : Char) : Bool := c != '\t' && c != '\x85'

theorem isKept_iff : isKept c = true ↔ c ≠ '\t' ∧ c ≠ '\x85' := by simp [isKept]

theorem isGap_of_isWord (hrun : IsWord run) (hkept : ∀ c ∈ run, isKept c = true) : ∀ c ∈ run, isGap c = false :=
  fun c hc => isGap_iff.mpr ⟨(hrun.2 c hc).1, (isKept_iff.mp (hkept c hc)).1, (hrun.2 c hc).2⟩

theorem doubleQuotes_of_not_mem (h : '\'' ∉ run) : doubleQuotes run = run := by
  induction run with
  | nil => rfl
  | cons c rest ih =>
      rw [List.mem_cons, not_or] at h
      rw [doubleQuotes, if_neg (Ne.symm h.1), ih h.2]

theorem spells_doubleQuotes (hrun : ∀ c ∈ run, isGap c = false) (h : Spells false text cs) :
    Spells false (doubleQuotes run ++ text) (run ++ cs) := by
  induction run with
  | nil => exact h
  | cons c rest ih =>
      obtain ⟨hc, hrest⟩ := List.forall_mem_cons.mp hrun
      rw [doubleQuotes]
      split
      · next hquote =>
        subst hquote
        exact .twice rfl (ih hrest)
      · next hquote => exact .literal (by simp [isLiteral, hc, hquote]) (ih hrest)

theorem startsSolid_doubleQuotes (hne : run ≠ []) (hrun : ∀ c ∈ run, isGap c = false) (text : List Char) :
    StartsSolid (doubleQuotes run ++ text) := by
  obtain ⟨c, rest, rfl⟩ := List.exists_cons_of_ne_nil hne
  rw [doubleQuotes]
  split
  · exact startsSolid_cons rfl _
  · exact startsSolid_cons (hrun c List.mem_cons_self) _

theorem breakChar_eq_self (h : isKept c = true) : breakChar c = c := by
  rw [breakChar, if_neg (by simpa using (isKept_iff.mp h).2)]

theorem map_breakChar (h : ∀ c ∈ run, isKept c = true) : run.map breakChar = run :=
  (List.map_congr_left fun c hc => breakChar_eq_self (h c hc)).trans (List.map_id' run)

/-- A run of line ends, on lines of their own. -/
theorem spells_writeBreaks (hrun : IsBreaks run) (hkept : ∀ c ∈ run, isKept c = true) (hn : 0 < n)
    (hsolid : StartsSolid text) (h : Spells false text cs) :
    Spells false (writeBreaks n run ++ text) (run ++ cs) := by
  obtain ⟨hne, hbreaks⟩ := hrun
  have hmap := map_breakChar hkept
  by_cases hfirst : run.head? = some '\n'
  · have hfold : Lexeme.folded '\n' (run.map breakChar) = run := by
      rw [hmap, Lexeme.folded, if_neg (by decide), if_neg (by simpa using hne)]
    have htext : writeBreaks n run ++ text = '\n' :: (run ++ (List.replicate n ' ' ++ text)) := by
      simp [writeBreaks, hfirst, blanks]
    rw [htext]
    conv_rhs => rw [← hfold]
    exact .folded rfl hbreaks hn hsolid h
  · obtain ⟨b, more, rfl⟩ := List.exists_cons_of_ne_nil hne
    obtain ⟨hb, hmore⟩ := List.forall_mem_cons.mp hbreaks
    obtain ⟨hkeptb, hkeptmore⟩ := List.forall_mem_cons.mp hkept
    have hb' : b ≠ '\n' := fun h => hfirst (by rw [h]; rfl)
    have hfold : Lexeme.folded b (more.map breakChar) = b :: more := by
      rw [map_breakChar hkeptmore, Lexeme.folded, breakChar_eq_self hkeptb, if_pos (by simpa using hb')]
    have htext : writeBreaks n (b :: more) ++ text = b :: (more ++ (List.replicate n ' ' ++ text)) := by
      simp [writeBreaks, hb', blanks]
    rw [htext, ← hfold]
    exact .folded hb hmore hn hsolid h

section Single

variable {folds isFirst : Bool} {indent column : Nat} {texts : List (List Char)}

theorem startsSolid_writeSingle (hwords : ∀ next, texts.head? = some next → IsWord next)
    (hkept : ∀ run ∈ texts, ∀ c ∈ run, isKept c = true) :
    StartsSolid (writeSingle folds indent isFirst column texts) := by
  cases texts with
  | nil => exact startsSolid_nil
  | cons run rest =>
      have hword := hwords run rfl
      have hgap := isGap_of_isWord hword (hkept run List.mem_cons_self)
      obtain ⟨c, more, rfl⟩ := List.exists_cons_of_ne_nil hword.1
      have hc := hword.2 c List.mem_cons_self
      rw [writeSingle, if_neg (by simp [hc.2]), if_neg (by simp [hc.1])]
      exact startsSolid_doubleQuotes (List.cons_ne_nil _ _) hgap _

/-- Between single quotes a text in which a word follows each gap is spelled. -/
theorem spells_writeSingle (hindent : 0 < indent) (hwoven : Woven texts)
    (hkept : ∀ run ∈ texts, ∀ c ∈ run, isKept c = true) :
    Spells false (writeSingle folds indent isFirst column texts) texts.flatten := by
  induction texts generalizing isFirst column with
  | nil => exact .nil
  | cons run rest ih =>
      obtain ⟨hrun, hrest⟩ := hwoven
      obtain ⟨hkeptrun, hkeptrest⟩ := List.forall_mem_cons.mp hkept
      obtain ⟨hword, -⟩ | ⟨hblanks | hbreaks, hnext⟩ := hrun
      · obtain ⟨c, more, rfl⟩ := List.exists_cons_of_ne_nil hword.1
        have hc := hword.2 c List.mem_cons_self
        rw [writeSingle, if_neg (by simp [hc.2]), if_neg (by simp [hc.1]), List.flatten_cons]
        exact spells_doubleQuotes (isGap_of_isWord hword hkeptrun) (ih hrest hkeptrest)
      · have hrun : run = List.replicate run.length ' ' := List.eq_replicate_of_mem hblanks.2
        have hsolid : ∀ isFirst column, StartsSolid (writeSingle folds indent isFirst column rest) :=
          fun _ _ => startsSolid_writeSingle hnext hkeptrest
        have hhead : (run.head?.any isBreak) = false := by
          obtain ⟨c, more, rfl⟩ := List.exists_cons_of_ne_nil hblanks.1
          rw [hblanks.2 c List.mem_cons_self]
          rfl
        rw [writeSingle, hhead, if_neg Bool.false_ne_true, List.flatten_cons]
        split
        · next hfold =>
          have hone : run = [' '] := by
            simp only [Bool.and_eq_true, beq_iff_eq] at hfold
            exact hfold.1.1.1.2
          rw [hone]
          exact .folded rfl (fun _ hc => absurd hc List.not_mem_nil) hindent (hsolid _ _) (ih hrest hkeptrest)
        · have hquote : '\'' ∉ run := fun h => absurd (hblanks.2 _ h) (by decide)
          dsimp only
          rw [doubleQuotes_of_not_mem hquote, hrun]
          exact Spells.blanks (hsolid _ _) (ih hrest hkeptrest) _
      · have hhead : (run.head?.any isBreak) = true := by
          obtain ⟨c, more, rfl⟩ := List.exists_cons_of_ne_nil hbreaks.1
          exact hbreaks.2 c List.mem_cons_self
        rw [writeSingle, hhead, if_pos rfl, List.flatten_cons]
        exact spells_writeBreaks hbreaks hkeptrun hindent (startsSolid_writeSingle hnext hkeptrest)
          (ih hrest hkeptrest)

end Single

/-! ## Escapes -/

theorem lookup_namedEscapes {letter : Char} (h : escapeLetters.lookup c = some letter) :
    Lexeme.namedEscapes.lookup letter = some c := by
  have hall : ∀ p ∈ escapeLetters, Lexeme.namedEscapes.lookup p.2 = some p.1 := by decide
  obtain ⟨before, after, heq, -⟩ := List.lookup_eq_some_iff.mp h
  exact hall (c, letter) (heq ▸ List.mem_append_right before List.mem_cons_self)

theorem escapes_letter {letter : Char} (h : Lexeme.namedEscapes.lookup letter = some c) : Escapes [letter] c := by
  intro s tail hrest
  rw [List.singleton_append] at hrest
  unfold Lexeme.escape
  rw [hrest]
  simp only [h, Place.next_eq_skip, List.length_singleton]

theorem escapes_code {letter : Char} {width code : Nat} (hletter : Lexeme.namedEscapes.lookup letter = none)
    (hwidth : Lexeme.codeWidth? letter = some width) (hpos : 0 < width) (hcode : code < 16 ^ width)
    (hc : Lexeme.charOfCode code = .ok c) : Escapes (letter :: capitalHex width code) c := by
  intro s tail hrest
  have hlength : (capitalHex width code).length = width := by
    rw [capitalHex, List.length_map, Json.length_hexDigits hpos hcode]
  have hnumber : Json.hexNumber? (capitalHex width code) = some code :=
    Json.hexNumber?_hexDigits Json.writesHex_toUpper width code
  have hnext : (s.skip 1).rest = capitalHex width code ++ tail := Place.rest_skip_one hrest
  have hread : Lexeme.codeEscape width (s.skip 1) = .ok ([c], (s.skip 1).skip width) := by
    rw [Lexeme.codeEscape, hnext, List.take_left' hlength]
    simp only [hlength, Nat.lt_irrefl, if_false, hnumber, hc, Except.map]
  unfold Lexeme.escape
  rw [hrest]
  simp only [List.cons_append, hletter, hwidth, Place.next_eq_skip, hread, Place.skip_skip, List.length_cons, hlength]
  rw [Nat.add_comm 1]

theorem charOfCode_toNat (c : Char) : Lexeme.charOfCode c.toNat = .ok c := by
  have hvalid := Json.isValidChar c
  rw [Lexeme.charOfCode, if_pos (by omega), Json.unitChar_toNat]

theorem charOfCode_half {half : Nat} (h : Text.half? c = some half) : Lexeme.charOfCode half = .ok c := by
  obtain ⟨-, -, hhigh⟩ := Text.half?_eq_some h
  rw [Lexeme.charOfCode, if_pos (by omega), Json.unitChar_half h]

/-- The escape of a character stands for it. -/
theorem exists_escapeText (c : Char) : ∃ letters, escapeText c = '\\' :: letters ∧ Escapes letters c := by
  have hvalid := Json.isValidChar c
  have hcode := charOfCode_toNat c
  simp only [escapeText, List.cons_append, List.nil_append]
  split
  · next letter h => exact ⟨_, rfl, escapes_letter (lookup_namedEscapes h)⟩
  · split
    · next h => exact ⟨_, rfl, escapes_code rfl rfl (by decide) (by omega) hcode⟩
    · split
      · next h => exact ⟨_, rfl, escapes_code rfl rfl (by decide) (by omega) hcode⟩
      · split
        · next half h =>
            obtain ⟨-, -, hhigh⟩ := Text.half?_eq_some h
            exact ⟨_, rfl, escapes_code rfl rfl (by decide) (by omega) (charOfCode_half h)⟩
        · exact ⟨_, rfl, escapes_code rfl rfl (by decide) (by omega) hcode⟩

/-! ## Double quotes -/

theorem isLiteral_of_not_needsEscape (h : needsEscape c = false) (hblank : c ≠ ' ') : isLiteral true c = true := by
  have hne : ∀ d, needsEscape d = true → c ≠ d := fun d hd => by
    rintro rfl
    rw [h] at hd
    cases hd
  simp [isLiteral, isGap, isBreak, hblank, hne '\t' rfl, hne '\n' rfl, hne '\x85' rfl, hne '\u2028' rfl,
    hne '\u2029' rfl, hne '"' rfl, hne '\\' rfl]

theorem isGap_of_not_needsEscape (h : needsEscape c = false) (hblank : c ≠ ' ') : isGap c = false := by
  have := isLiteral_of_not_needsEscape h hblank
  simp only [isLiteral, Bool.and_eq_true, Bool.not_eq_true'] at this
  exact this.1

/-- Blanks among characters that are not escaped come before no line end. -/
theorem keepsBlanks_raw (hraw : ∀ c ∈ run, needsEscape c = false) (htext : StartsSolid text) :
    KeepsBlanks (run ++ text) := by
  induction run with
  | nil => exact htext.keepsBlanks
  | cons c rest ih =>
      obtain ⟨hc, hrest⟩ := List.forall_mem_cons.mp hraw
      by_cases hblank : c = ' '
      · subst hblank
        exact ih hrest
      · exact (startsSolid_cons (isGap_of_not_needsEscape hc hblank) _).keepsBlanks

theorem Spells.raw (hraw : ∀ c ∈ run, needsEscape c = false) (htext : StartsSolid text)
    (h : Spells true text cs) : Spells true (run ++ text) (run ++ cs) := by
  induction run with
  | nil => exact h
  | cons c rest ih =>
      obtain ⟨hc, hrest⟩ := List.forall_mem_cons.mp hraw
      by_cases hblank : c = ' '
      · subst hblank
        exact .blank (keepsBlanks_raw hrest htext) (ih hrest)
      · exact .literal (isLiteral_of_not_needsEscape hc hblank) (ih hrest)

/-- A blank at the start may be escaped. -/
theorem Spells.escapeBlank (h : Spells true (' ' :: text) (' ' :: cs)) :
    Spells true ('\\' :: ' ' :: text) (' ' :: cs) := by
  have hrest : Spells true text cs := by
    cases h with
    | literal hc _ => cases hc
    | blank _ h => exact h
    | folded hb => cases hb
  have hblank : Escapes [' '] ' ' := escapes_letter rfl
  exact .escaped rfl hblank hrest

section Double

variable {folds isFirst : Bool} {indent column : Nat} {pending : List Char}

/-- What is pending comes first. -/
theorem exists_writeDouble : ∀ (cs : List Char) (isFirst : Bool) (column : Nat) (pending : List Char),
    ∃ more, writeDouble folds indent isFirst column pending cs = pending.reverse ++ more
  | [], _, _, pending => ⟨[], by rw [writeDouble, List.append_nil]⟩
  | c :: rest, isFirst, column, pending => by
      rw [writeDouble]
      split
      · dsimp only
        split
        · exact ⟨_, by rw [List.append_assoc, List.append_assoc]⟩
        · exact ⟨_, by rw [List.append_assoc]⟩
      · split
        · exact ⟨_, by rw [List.append_assoc]⟩
        · obtain ⟨more, hmore⟩ := exists_writeDouble rest false column (c :: pending)
          exact ⟨c :: more, by rw [hmore, List.reverse_cons, List.append_assoc]; rfl⟩

/-- A continuation, and the next line. -/
theorem Spells.continuation (hindent : 0 < indent) {line : List Char} (hline : Spells true line cs)
    (hblank : cs.head? = some ' ' → line.head? = some ' ') (hsolid : cs.head? ≠ some ' ' → StartsSolid line) :
    Spells true (continuation indent cs ++ line) cs := by
  rw [Yaml.continuation]
  by_cases h : cs.head? = some ' '
  · obtain ⟨more, rfl⟩ := List.head?_eq_some_iff.mp (hblank h)
    obtain ⟨rest, rfl⟩ := List.head?_eq_some_iff.mp h
    have hnext : Spells true ('\\' :: ' ' :: more) (' ' :: rest) := hline.escapeBlank
    have := Spells.continued rfl hindent (startsSolid_cons rfl _) hnext
    simpa [newLine, Yaml.blanks] using this
  · have := Spells.continued rfl hindent (hsolid h) hline
    simpa [newLine, Yaml.blanks, h] using this

/-- No continuation comes at once behind another one: lines are not that short, or no blank stands behind
an escape. -/
def Fits (folds : Bool) (indent : Nat) (cs : List Char) : Prop :=
  folds = true → indent < lineWidth ∨ Style.hasNeighbours needsEscape (· == ' ') cs.dropLast = false

theorem Fits.tail (h : Fits folds indent (c :: cs)) : Fits folds indent cs := fun hfolds => by
  refine (h hfolds).imp_right fun h => ?_
  cases cs with
  | nil => rfl
  | cons d rest =>
      rw [List.dropLast_cons_cons] at h
      exact (neighbours_append (show Style.hasNeighbours _ _ ([c] ++ (d :: rest).dropLast) = false from h)).1

/-- Where the next line of a text starts. -/
theorem head?_writeDouble (hc : needsEscape c = true) (hfits : Fits folds indent (c :: ' ' :: cs)) :
    (writeDouble folds indent false (columnAfter indent (' ' :: cs)) [] (' ' :: cs)).head? = some ' ' := by
  have hnarrow : ¬ (folds && !false && !cs.isEmpty && (' ' == ' ' || [].isEmpty (α := Char)) &&
      decide (lineWidth < columnAfter indent (' ' :: cs) + [].length (α := Char))) = true := by
    cases cs with
    | nil => simp
    | cons d rest =>
        intro hbreaks
        simp only [Bool.and_eq_true, decide_eq_true_eq] at hbreaks
        have hcolumn : columnAfter indent (' ' :: d :: rest) = indent + 1 := rfl
        obtain hshort | hnone := hfits hbreaks.1.1.1.1
        · rw [hcolumn, List.length_nil] at hbreaks
          omega
        · rw [List.dropLast_cons_cons, List.dropLast_cons_cons, hasNeighbours_cons_cons, hc] at hnone
          cases hnone
  obtain ⟨more, hmore⟩ := @exists_writeDouble folds indent cs false
    (columnAfter indent (' ' :: cs)) [' ']
  rw [writeDouble, if_neg (by decide), if_neg hnarrow, hmore]
  rfl

theorem startsSolid_writeDouble (h : cs.head? ≠ some ' ') :
    StartsSolid (writeDouble folds indent isFirst column [] cs) := by
  cases cs with
  | nil => exact startsSolid_nil
  | cons c rest =>
      have hc : c ≠ ' ' := fun hc => h (by rw [hc]; rfl)
      obtain ⟨letters, hletters, -⟩ := exists_escapeText c
      obtain ⟨more, hmore⟩ := @exists_writeDouble folds indent rest false column [c]
      rw [writeDouble]
      split
      · rw [hletters]
        dsimp only
        split <;> exact startsSolid_cons rfl _
      · next hraw =>
        split
        · exact startsSolid_cons rfl _
        · rw [hmore]
          exact startsSolid_cons (isGap_of_not_needsEscape (by simpa using hraw) hc) more

/-- Between double quotes a text is spelled. -/
theorem spells_writeDouble (hindent : 0 < indent) :
    ∀ (cs : List Char) (isFirst : Bool) (column : Nat) (pending : List Char),
    (∀ c ∈ pending, needsEscape c = false) → Fits folds indent (if isFirst then cs.tail else cs) →
      Spells true (writeDouble folds indent isFirst column pending cs) (pending.reverse ++ cs)
  | [], _, _, pending, hraw, _ => by
      have hreverse : ∀ c ∈ pending.reverse, needsEscape c = false := fun c hc => hraw c (List.mem_reverse.mp hc)
      have := Spells.raw hreverse startsSolid_nil .nil
      rw [writeDouble]
      simpa using this
  | c :: rest, isFirst, column, pending, hraw, hfits => by
      have hreverse : ∀ c ∈ pending.reverse, needsEscape c = false := fun c hc => hraw c (List.mem_reverse.mp hc)
      have hrest : Fits folds indent rest := by
        cases isFirst with
        | true => exact hfits
        | false => exact hfits.tail
      rw [writeDouble]
      split
      · next hc =>
        obtain ⟨letters, hletters, hescapes⟩ := exists_escapeText c
        have hnext := spells_writeDouble hindent rest false
        dsimp only
        rw [hletters]
        split
        · next hbreak =>
          -- a line ends behind the escape; if a blank comes next, `Fits` says that it is not moved on once more
          have hfirst : isFirst = false := by
            simp only [Bool.and_eq_true, Bool.not_eq_true'] at hbreak
            exact hbreak.1.1.2
          subst hfirst
          have hline := (hnext (columnAfter indent rest) [] (by simp) hrest).continuation hindent
            (fun h => by
              obtain ⟨more, rfl⟩ := List.head?_eq_some_iff.mp h
              exact head?_writeDouble hc hfits) startsSolid_writeDouble
          have := Spells.raw hreverse (startsSolid_cons rfl _) (.escaped rfl hescapes hline)
          simpa using this
        · have := Spells.raw hreverse (startsSolid_cons rfl _)
            (.escaped rfl hescapes (hnext (column + (pending.reverse ++ '\\' :: letters).length) [] (by simp) hrest))
          simpa using this
      · next hc =>
        have hc : needsEscape c = false := by simpa using hc
        have hsingle : ∀ d ∈ [c], needsEscape d = false := by simpa using hc
        split
        · -- a line ends before the character, which starts the next one
          obtain ⟨more, hmore⟩ := @exists_writeDouble folds indent rest false
            (columnAfter indent (c :: rest)) [c]
          have hspells := spells_writeDouble hindent rest false (columnAfter indent (c :: rest)) [c] hsingle hrest
          have hline := hspells.continuation
            hindent (fun h => by rw [hmore]; exact h)
            (fun h => by
              rw [hmore]
              exact startsSolid_cons (isGap_of_not_needsEscape hc fun hblank => h (by rw [hblank]; rfl)) more)
          rw [List.append_assoc]
          exact Spells.raw hreverse (startsSolid_cons rfl _) hline
        · have := spells_writeDouble hindent rest false column (c :: pending)
            (List.forall_mem_cons.mpr ⟨hc, hraw⟩) hrest
          simpa using this

end Double

/-! ## Plain text -/

/-- No key ends and no comment starts inside a text. -/
structure HasNoMarks (cs : List Char) : Prop where
  colon : ∀ before after, cs = before ++ ':' :: after → endsWord after = false
  comment : ∀ before after, cs ≠ before ++ ' ' :: '#' :: after

theorem HasNoMarks.of_append {before : List Char} (h : HasNoMarks (before ++ cs)) : HasNoMarks cs where
  colon before' after heq := h.colon (before ++ before') after (by rw [heq, List.append_assoc])
  comment before' after heq := h.comment (before ++ before') after (by rw [heq, List.append_assoc])

theorem holdsMark_of_append {before : List Char} (h : Style.holdsMark (before ++ cs) = false) :
    Style.holdsMark cs = false := by
  induction before with
  | nil => exact h
  | cons c before ih =>
      rw [List.cons_append] at h
      unfold Style.holdsMark at h
      exact ih (Bool.or_eq_false_iff.mp h).2

theorem hasNoMarks (hstart : Style.startsLikeMark cs = false) (h : Style.holdsMark cs = false) : HasNoMarks cs where
  colon before after heq := by
    obtain rfl | ⟨before, c, rfl⟩ := List.eq_nil_or_concat' before
    · subst heq
      simp [Style.startsLikeMark] at hstart
      exact hstart.2
    · rw [heq, List.append_assoc] at h
      have := holdsMark_of_append h
      rw [List.singleton_append, Style.holdsMark, Bool.or_eq_false_iff] at this
      exact this.1
  comment before after heq := by
    rw [heq] at h
    have := holdsMark_of_append h
    simp [Style.holdsMark, Style.isSpace] at this

/-- A character that plain text may hold. -/
def isFluent (c : Char) : Bool := c != '\t' && isInline c

theorem isPlainChar_of_isFluent (h : isFluent c = true) (hblank : c ≠ ' ') : isPlainChar c = true := by
  simp only [isFluent, Bool.and_eq_true, bne_iff_ne] at h
  have := (isInline_iff.mp h.2).1
  simp [isPlainChar, isGap, h, hblank, this]

section Plain

variable {folds : Bool} {indent column least : Nat} {texts : List (List Char)}

theorem writePlain_word (hword : IsWord run) :
    writePlain folds indent column (run :: texts) = run ++ writePlain folds indent (column + run.length) texts := by
  have hne : (run == [' ']) = false := by
    rw [beq_eq_false_iff_ne]
    rintro rfl
    exact (hword.2 ' ' List.mem_cons_self).1 rfl
  rw [writePlain, hne, Bool.and_false, Bool.false_and, if_neg Bool.false_ne_true]

theorem isPlainWord (hword : IsWord run) (hfluent : ∀ c ∈ run, isFluent c = true) {after : List Char}
    (hmarks : HasNoMarks (run ++ after)) (hafter : endsWord after = true) : IsPlainWord run where
  ne_nil := hword.1
  plain c hc := isPlainChar_of_isFluent (hfluent c hc) (hword.2 c hc).1
  colon h := by
    obtain ⟨before, rfl⟩ := List.getLast?_eq_some_iff.mp h
    rw [List.append_assoc] at hmarks
    exact absurd hafter (by rw [hmarks.colon before after rfl]; exact Bool.false_ne_true)

theorem IsBlanks.endsWord_append (hgap : IsBlanks run) (after : List Char) : endsWord (run ++ after) = true := by
  obtain ⟨c, more, rfl⟩ := List.exists_cons_of_ne_nil hgap.1
  rw [hgap.2 c List.mem_cons_self]
  rfl

/-- No comment starts where a word stands behind blanks. -/
theorem head?_writePlain_ne {word gap next : List Char} (hgap : IsBlanks gap) (hnext : IsWord next)
    (hmarks : HasNoMarks (word ++ (gap ++ (next :: texts).flatten))) (column : Nat) :
    (writePlain folds indent column (next :: texts)).head? ≠ some '#' := by
  intro h
  rw [writePlain_word hnext, List.head?_append_of_ne_nil _ hnext.1] at h
  obtain ⟨tail, rfl⟩ := List.head?_eq_some_iff.mp h
  obtain ⟨before, rfl⟩ := hgap.exists_concat
  exact hmarks.comment (word ++ before) (tail ++ texts.flatten) (by simp)

/-- Plain text flows, on however many lines. -/
theorem flows_writePlain (hindent : 0 < indent) (hleast : least ≤ indent) : ∀ (texts : List (List Char)) (column : Nat),
    Woven texts → (∀ run ∈ texts, ∀ c ∈ run, isFluent c = true) → (∃ word, texts.head? = some word ∧ IsWord word) →
    texts.flatten.getLast? ≠ some ' ' → HasNoMarks texts.flatten →
      Flows least (writePlain folds indent column texts) texts.flatten
  | [], _, _, _, hhead, _, _ => by
      obtain ⟨_, h, -⟩ := hhead
      cases h
  | [word], column, hwoven, hfluent, hhead, hlast, hmarks => by
      obtain ⟨_, h, hword⟩ := hhead
      obtain rfl := Option.some.inj h
      rw [writePlain_word hword, writePlain, List.append_nil, List.flatten_singleton]
      rw [List.flatten_singleton, ← List.append_nil word] at hmarks
      exact .word (isPlainWord hword (hfluent _ List.mem_cons_self) hmarks rfl)
  | word :: gap :: rest, column, hwoven, hfluent, hhead, hlast, hmarks => by
      obtain ⟨_, h, hword⟩ := hhead
      obtain rfl := Option.some.inj h
      obtain ⟨hfluentWord, hfluent⟩ := List.forall_mem_cons.mp hfluent
      obtain ⟨hfluentGap, hfluentRest⟩ := List.forall_mem_cons.mp hfluent
      obtain ⟨hgap, hnext, hrest⟩ := hwoven.of_word hword fun c hc => by
        have := hfluentGap c hc
        simp only [isFluent, Bool.and_eq_true] at this
        exact (isInline_iff.mp this.2).1
      rw [List.flatten_cons, List.flatten_cons] at hlast hmarks ⊢
      have hplain := isPlainWord hword hfluentWord hmarks (hgap.endsWord_append _)
      cases rest with
      | nil =>
          -- the last run is a word
          obtain ⟨before, rfl⟩ := hgap.exists_concat
          simp at hlast
      | cons next more =>
          have hnext := hnext next rfl
          have hne : (next :: more).flatten ≠ [] := by simp [hnext.1]
          have hlast' : (next :: more).flatten.getLast? ≠ some ' ' := by
            rwa [List.getLast?_append_of_ne_nil _ (by simp [hnext.1]), List.getLast?_append_of_ne_nil _ hne] at hlast
          have hflows := fun column => flows_writePlain hindent hleast (next :: more) column hrest hfluentRest
            ⟨next, rfl, hnext⟩ hlast' hmarks.of_append.of_append
          have hhash := @head?_writePlain_ne folds indent more _ _ _ hgap hnext hmarks
          rw [writePlain_word hword, writePlain]
          split
          · next hfold =>
            -- only a single blank becomes a line end
            have hone : gap = [' '] := by
              simp only [Bool.and_eq_true, beq_iff_eq] at hfold
              exact hfold.1.2
            rw [hone]
            exact .folded hplain hindent hleast (hhash _) (hflows _)
          · rw [hgap.eq_replicate]
            exact .blanks hplain (List.length_pos_iff.mpr hgap.1) (hhash _) (hflows _)

end Plain

end Runbook.Yaml
