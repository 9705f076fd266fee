import Runbook.Proofs.Yaml.Place
import Runbook.Yaml.Lexeme.Quoted

/-!
# What stands between quotes

How the text between two quotes spells another text, piece by piece (`Spells`): most
characters stand for themselves, a quote is doubled between single quotes, there are escapes
between double quotes, and line ends with blanks behind them are folded. A text that is
spelled is read back up to the closing quote (`Spells.quotedFrom_eq`).
-/

namespace Runbook.Yaml

open Lexeme

/-! ## Blanks and line ends -/

/-- A character that may be lost beside a line end. -/
def isGap (c : Char) : Bool := c == ' ' || c == '\t' || isBreak c

/-- A text starts with a character that is never lost. -/
def StartsSolid (text : List Char) : Prop := Text.Stops isGap text

/-- The blanks that come next, if there are any, do not come before a line end. -/
def KeepsBlanks (text : List Char) : Prop :=
  Text.Stops (fun c => c == '\t' || isBreak c) (text.dropWhile (· == ' '))

theorem isGap_iff {c : Char} : isGap c = false ↔ c ≠ ' ' ∧ c ≠ '\t' ∧ isBreak c = false := by
  simp [isGap, and_assoc]

theorem stops_of_isBreak {c : Char} (h : isBreak c = true) (rest : List Char) :
    Text.Stops (fun c => c == ' ' || c == '\t') (c :: rest) := by
  simp only [isBreak, Bool.or_eq_true, beq_iff_eq] at h
  refine Text.stops_cons ?_ rest
  obtain ((rfl | rfl) | rfl) | rfl := h <;> rfl

theorem blanks_eq {n : Nat} : ∀ c ∈ List.replicate n ' ', (c == ' ' || c == '\t') = true := fun c hc => by
  obtain rfl := List.eq_of_mem_replicate hc
  rfl

theorem startsSolid_cons {c : Char} (h : isGap c = false) (rest : List Char) : StartsSolid (c :: rest) :=
  Text.stops_cons h rest

theorem StartsSolid.append {text rest : List Char} (h : StartsSolid text) (hrest : StartsSolid rest) :
    StartsSolid (text ++ rest) := by
  cases text with
  | nil => exact hrest
  | cons c text => exact startsSolid_cons (h c rfl) _

theorem StartsSolid.stops_blank {text : List Char} (h : StartsSolid text) :
    Text.Stops (fun c => c == ' ' || c == '\t') text := fun c hc => by
  obtain ⟨hblank, htab, -⟩ := isGap_iff.mp (h c hc)
  simp [hblank, htab]

theorem StartsSolid.keepsBlanks {text : List Char} (h : StartsSolid text) : KeepsBlanks text := by
  cases text with
  | nil => exact Text.stops_nil _
  | cons c rest =>
      obtain ⟨hblank, htab, hbreak⟩ := isGap_iff.mp (h c rfl)
      rw [KeepsBlanks, List.dropWhile_cons_of_neg (by simpa using hblank)]
      exact Text.stops_cons (by simp [htab, hbreak]) rest

/-- A separator of documents starts with one of two characters. -/
theorem Place.atSeparator_of_head {s : Place} {c : Char} {rest : List Char} (h : s.rest = c :: rest) (hdash : c ≠ '-')
    (hdot : c ≠ '.') : s.atSeparator = false := by
  simp [atSeparator, startsMark, h, List.isPrefixOf, Ne.symm hdash, Ne.symm hdot]

namespace Lexeme

variable {s : Place} {tail : List Char} {n : Nat}

/-- Line ends, and the blanks behind them. -/
theorem foldedBreaks_eq {more : List Char} (hmore : ∀ c ∈ more, isBreak c = true) (hn : 0 < n)
    (htail : StartsSolid tail) : ∀ {s : Place} {fuel : Nat}, s.rest = more ++ (List.replicate n ' ' ++ tail) →
    more.length < fuel → foldedBreaks fuel s = .ok (more.map breakChar, s.skip (more.length + n)) := by
  induction more with
  | nil =>
      rintro s (_ | fuel) hrest hfuel
      · cases hfuel
      rw [List.nil_append] at hrest
      have hskip := Place.skipWhile_append hrest blanks_eq htail.stops_blank
      have hsep : s.atSeparator = false := by
        obtain ⟨m, rfl⟩ := Nat.exists_eq_add_of_lt hn
        rw [Nat.zero_add, List.replicate_succ] at hrest
        exact Place.atSeparator_of_head hrest (by decide) (by decide)
      have hafter := Place.rest_skip_of_append hrest
      rw [List.length_replicate] at hskip hafter
      rw [foldedBreaks, hsep, if_neg Bool.false_ne_true, hskip]
      dsimp only
      rw [List.length_nil, Nat.zero_add, hafter]
      cases tail with
      | nil => rfl
      | cons c rest =>
          obtain ⟨-, -, hbreak⟩ := isGap_iff.mp (htail c rfl)
          simp only [hbreak, Bool.false_eq_true, if_false, List.map_nil]
  | cons b more ih =>
      rintro s (_ | fuel) hrest hfuel
      · cases hfuel
      obtain ⟨hb, hmore⟩ := List.forall_mem_cons.mp hmore
      have hsep : s.atSeparator = false :=
        Place.atSeparator_of_head hrest (by rintro rfl; cases hb) (by rintro rfl; cases hb)
      have hskip : s.skipWhile (fun c => c == ' ' || c == '\t') = s :=
        Place.skipWhile_of_stops (hrest ▸ stops_of_isBreak hb _)
      have hnext := ih hmore (Place.rest_skip_one hrest) (Nat.lt_of_succ_lt_succ hfuel)
      rw [foldedBreaks, hsep, if_neg Bool.false_ne_true, hskip]
      dsimp only
      rw [hrest]
      simp only [List.cons_append, hb, if_true, Place.next_eq_skip, hnext, Except.map, Place.skip_skip, List.map_cons,
        List.length_cons]
      rw [Nat.add_comm 1, Nat.add_right_comm]

/-- A line end with others and blanks behind it. -/
theorem foldLine_eq {b : Char} {more : List Char} (hmore : ∀ c ∈ more, isBreak c = true) (hn : 0 < n)
    (htail : StartsSolid tail) (hrest : s.rest = b :: (more ++ (List.replicate n ' ' ++ tail))) :
    foldLine s b = .ok (folded b (more.map breakChar), s.skip (1 + (more.length + n))) := by
  have hbreaks := @foldedBreaks_eq tail n more hmore hn htail (s.skip 1) (s.rest.length + 1)
    (Place.rest_skip_one hrest) (by rw [hrest]; simp only [List.length_cons, List.length_append]; omega)
  rw [foldLine, Place.next_eq_skip, hbreaks]
  simp only [Except.map, Place.skip_skip]

theorem inlineSpace_break {b : Char} {more : List Char} (hb : isBreak b = true)
    (hmore : ∀ c ∈ more, isBreak c = true) (hn : 0 < n) (htail : StartsSolid tail)
    (hrest : s.rest = b :: (more ++ (List.replicate n ' ' ++ tail))) :
    inlineSpace s = .ok (folded b (more.map breakChar), s.skip (1 + (more.length + n))) := by
  have hspan : s.span (fun c => c == ' ' || c == '\t') = ([], s) :=
    Place.span_append (List.nil_append _).symm (fun _ hc => absurd hc List.not_mem_nil)
      (hrest ▸ stops_of_isBreak hb _)
  rw [inlineSpace, hspan]
  dsimp only
  rw [← foldLine_eq hmore hn htail hrest, hrest]
  simp only [hb, if_true]

/-- Blanks that do not come before a line end are kept. -/
theorem inlineSpace_blanks {c : Char} (htail : isGap c = false)
    (hrest : s.rest = List.replicate n ' ' ++ c :: tail) :
    inlineSpace s = .ok (List.replicate n ' ', s.skip n) := by
  obtain ⟨hblank, htab, hbreak⟩ := isGap_iff.mp htail
  have hspan := Place.span_append hrest blanks_eq (Text.stops_cons (by simp [hblank, htab]) _)
  have hafter := Place.rest_skip_of_append hrest
  rw [List.length_replicate] at hspan hafter
  rw [inlineSpace, hspan]
  dsimp only
  rw [hafter]
  simp only [hbreak, Bool.false_eq_true, if_false]

variable {double : Bool} {c : Char} {fuel : Nat} {read : List Char}

/-- A run of blanks is one piece. -/
theorem quotedFrom_blanks (htail : isGap c = false) (hrest : s.rest = List.replicate (n + 1) ' ' ++ c :: tail) :
    quotedFrom double (fuel + 1) s read =
      quotedFrom double fuel (s.skip (n + 1)) (List.replicate (n + 1) ' ' ++ read) := by
  have hspace := inlineSpace_blanks htail hrest
  have hpiece : quotedPiece double s = .ok (some (List.replicate (n + 1) ' ', s.skip (n + 1))) := by
    rw [List.replicate_succ, List.cons_append] at hrest
    unfold quotedPiece
    rw [hrest]
    simp [hspace, Except.map]
  rw [quotedFrom, hpiece]
  dsimp only
  rw [List.reverse_replicate]

/-- To take a run of blanks at once is to take the first one and then the others. -/
theorem quotedFrom_blank (htail : isGap c = false) (hrest : s.rest = List.replicate (n + 1) ' ' ++ c :: tail) :
    quotedFrom double (fuel + 1) s read =
      quotedFrom double (if n = 0 then fuel else fuel + 1) (s.skip 1) (' ' :: read) := by
  rw [quotedFrom_blanks htail hrest]
  cases n with
  | zero => rfl
  | succ n =>
      rw [List.replicate_succ, List.cons_append] at hrest
      rw [if_neg (Nat.succ_ne_zero n), quotedFrom_blanks htail (Place.rest_skip_one hrest), Place.skip_skip,
        List.replicate_succ', List.append_assoc, Nat.add_comm 1]
      rfl

end Lexeme

/-- Blanks that do not come before a line end come before something else. -/
theorem KeepsBlanks.exists_eq {text : List Char} (h : KeepsBlanks text) {c : Char} (hc : isGap c = false)
    (tail : List Char) : ∃ n d more, text ++ c :: tail = List.replicate n ' ' ++ d :: more ∧ isGap d = false := by
  induction text with
  | nil => exact ⟨0, c, tail, rfl, hc⟩
  | cons d rest ih =>
      by_cases hd : d = ' '
      · subst hd
        obtain ⟨n, e, more, heq, he⟩ := ih h
        exact ⟨n + 1, e, more, by rw [List.cons_append, heq, List.replicate_succ, List.cons_append], he⟩
      · rw [KeepsBlanks, List.dropWhile_cons_of_neg (by simpa using hd)] at h
        have hgap : (d == '\t' || isBreak d) = false := h d rfl
        refine ⟨0, d, rest ++ c :: tail, rfl, isGap_iff.mpr ⟨hd, ?_⟩⟩
        simpa using hgap

/-! ## Pieces -/

/-- The mark at either end. -/
def quoteMark (double : Bool) : Char := if double then '"' else '\''

/-- A character that stands for itself. -/
def isLiteral (double : Bool) (c : Char) : Bool :=
  !isGap c && if double then c != '"' && c != '\\' else c != '\''

/-- What follows a backslash and stands for a character. -/
def Escapes (letters : List Char) (c : Char) : Prop :=
  ∀ (s : Place) (tail : List Char), s.rest = letters ++ tail → Lexeme.escape s = .ok ([c], s.skip letters.length)

/-- What is written between quotes, and what it stands for. -/
inductive Spells (double : Bool) : List Char → List Char → Prop where
  | nil : Spells double [] []
  | literal {c text cs} : isLiteral double c = true → Spells double text cs → Spells double (c :: text) (c :: cs)
  | blank {text cs} : KeepsBlanks text → Spells double text cs → Spells double (' ' :: text) (' ' :: cs)
  | twice {text cs} : double = false → Spells double text cs →
      Spells double ('\'' :: '\'' :: text) ('\'' :: cs)
  | escaped {letters c text cs} : double = true → Escapes letters c → Spells double text cs →
      Spells double ('\\' :: (letters ++ text)) (c :: cs)
  | continued {n text cs} : double = true → 0 < n → StartsSolid text → Spells double text cs →
      Spells double ('\\' :: '\n' :: (List.replicate n ' ' ++ text)) cs
  | folded {b more n text cs} : isBreak b = true → (∀ c ∈ more, isBreak c = true) → 0 < n → StartsSolid text →
      Spells double text cs →
      Spells double (b :: (more ++ (List.replicate n ' ' ++ text))) (Lexeme.folded b (more.map breakChar) ++ cs)

namespace Lexeme

variable {s : Place} {double : Bool} {c : Char} {fuel : Nat} {read tail : List Char}

theorem quotedPiece_literal (hc : isLiteral double c = true) (hrest : s.rest = c :: tail) :
    quotedPiece double s = .ok (some ([c], s.skip 1)) := by
  simp only [isLiteral, Bool.and_eq_true, Bool.not_eq_true'] at hc
  have hgap : (c == ' ' || c == '\t' || isBreak c) = false := hc.1
  unfold quotedPiece
  rw [hrest]
  split
  · next heq => cases heq
  · next heq =>
    obtain rfl := (List.cons.inj heq).1
    cases double with
    | true => simp at hc
    | false => rfl
  · next heq =>
    obtain rfl := (List.cons.inj heq).1
    cases double with
    | true => rfl
    | false => simp at hc
  · next heq =>
    obtain rfl := (List.cons.inj heq).1
    cases double with
    | true => rfl
    | false => simp at hc
  · next heq =>
    obtain rfl := (List.cons.inj heq).1
    cases double with
    | true => simp at hc
    | false => rfl
  · next heq =>
    obtain rfl := (List.cons.inj heq).1
    simp only [hgap, Bool.false_eq_true, if_false, Place.next_eq_skip]

theorem quotedPiece_twice (hrest : s.rest = '\'' :: '\'' :: tail) :
    quotedPiece false s = .ok (some (['\''], s.skip 2)) := by
  unfold quotedPiece
  rw [hrest]
  rfl

theorem quotedPiece_escape (hrest : s.rest = '\\' :: tail) {piece : List Char} {n : Nat}
    (h : escape (s.skip 1) = .ok (piece, s.skip n)) : quotedPiece true s = .ok (some (piece, s.skip n)) := by
  unfold quotedPiece
  rw [hrest]
  simp [h, Except.map]

theorem quotedPiece_break {b : Char} {more : List Char} {n : Nat} (hb : isBreak b = true)
    (hmore : ∀ c ∈ more, isBreak c = true) (hn : 0 < n) (htail : StartsSolid tail)
    (hrest : s.rest = b :: (more ++ (List.replicate n ' ' ++ tail))) :
    quotedPiece double s = .ok (some (folded b (more.map breakChar), s.skip (1 + (more.length + n)))) := by
  have hspace := inlineSpace_break hb hmore hn htail hrest
  unfold quotedPiece
  rw [hrest]
  simp only [isBreak, Bool.or_eq_true, beq_iff_eq] at hb
  obtain ((rfl | rfl) | rfl) | rfl := hb <;> simp [hspace, Except.map, isBreak]

theorem escape_break {n : Nat} (hn : 0 < n) (htail : StartsSolid tail)
    (hrest : s.rest = '\n' :: (List.replicate n ' ' ++ tail)) : escape s = .ok ([], s.skip (1 + n)) := by
  have hbreaks := @foldedBreaks_eq tail n [] (fun _ hc => absurd hc List.not_mem_nil) hn htail (s.skip 1)
    (s.rest.length + 1) (Place.rest_skip_one hrest) (Nat.succ_pos _)
  have hletter : namedEscapes.lookup '\n' = none := rfl
  have hwidth : codeWidth? '\n' = none := rfl
  have hbreak : isBreak '\n' = true := rfl
  rw [List.length_nil, Nat.zero_add, Place.skip_skip] at hbreaks
  unfold escape
  rw [Place.next_eq_skip, hbreaks, hrest]
  simp only [hletter, hwidth, hbreak, if_true, List.map_nil]

theorem quotedPiece_escaped {letters : List Char} (hletters : Escapes letters c)
    (hrest : s.rest = '\\' :: (letters ++ tail)) :
    quotedPiece true s = .ok (some ([c], s.skip (1 + letters.length))) := by
  have hescape := hletters (s.skip 1) _ (Place.rest_skip_one hrest)
  rw [Place.skip_skip] at hescape
  exact quotedPiece_escape hrest hescape

theorem quotedPiece_continued {n : Nat} (hn : 0 < n) (htail : StartsSolid tail)
    (hrest : s.rest = '\\' :: '\n' :: (List.replicate n ' ' ++ tail)) :
    quotedPiece true s = .ok (some ([], s.skip (1 + (1 + n)))) := by
  have hescape := escape_break hn htail (Place.rest_skip_one hrest)
  rw [Place.skip_skip] at hescape
  exact quotedPiece_escape hrest hescape

/-- The closing quote. -/
theorem quotedFrom_close (hrest : s.rest = quoteMark double :: tail) (htail : double = false → tail.head? ≠ some '\'') :
    quotedFrom double (fuel + 1) s read = .ok (read.reverse, s.skip 1) := by
  have hpiece : quotedPiece double s = .ok none := by
    unfold quotedPiece
    rw [hrest]
    cases double with
    | true => rfl
    | false =>
        cases tail with
        | nil => rfl
        | cons d rest =>
            have hd : d ≠ '\'' := fun h => htail rfl (by rw [h]; rfl)
            simp [quoteMark, hd]
  rw [quotedFrom, hpiece]
  rfl

end Lexeme

theorem ok_skip {α ε : Type} {a b : α} {s : Place} {k m n : Nat} (h : a = b) (hn : k + m = n) :
    (.ok (a, (s.skip k).skip m) : Except ε (α × Place)) = .ok (b, s.skip n) := by rw [h, Place.skip_skip, hn]

namespace Lexeme

/-- One piece, and then what stands behind it. -/
theorem quotedFrom_append {s : Place} {double : Bool} {fuel k m n : Nat} {read piece cs : List Char}
    (hpiece : quotedPiece double s = .ok (some (piece, s.skip k)))
    (hread : quotedFrom double fuel (s.skip k) (piece.reverse ++ read) =
      .ok ((piece.reverse ++ read).reverse ++ cs, (s.skip k).skip m)) (hn : k + m = n) :
    quotedFrom double (fuel + 1) s read = .ok (read.reverse ++ (piece ++ cs), s.skip n) := by
  rw [quotedFrom, hpiece]
  dsimp only
  rw [hread]
  exact ok_skip (by rw [List.reverse_append, List.reverse_reverse, List.append_assoc]) hn

end Lexeme

/-- A text that is spelled is read up to the closing quote. -/
theorem Spells.quotedFrom_eq {double : Bool} {text cs : List Char} (h : Spells double text cs) {tail : List Char}
    (htail : double = false → tail.head? ≠ some '\'') : ∀ {s : Place} {fuel : Nat} (read : List Char),
    s.rest = text ++ quoteMark double :: tail → text.length < fuel →
      quotedFrom double fuel s read = .ok (read.reverse ++ cs, s.skip (text.length + 1)) := by
  have hmark : isGap (quoteMark double) = false := by cases double <;> rfl
  induction h with
  | nil =>
      rintro s (_ | fuel) read hrest hfuel
      · cases hfuel
      · rw [quotedFrom_close hrest htail, List.append_nil]
        rfl
  | @literal c text cs hc _ ih =>
      rintro s (_ | fuel) read hrest hfuel
      · cases hfuel
      have hread := @ih _ fuel ([c].reverse ++ read) (Place.rest_skip_one hrest) (Nat.lt_of_succ_lt_succ hfuel)
      exact quotedFrom_append (quotedPiece_literal hc hrest) hread (by rw [List.length_cons]; omega)
  | @blank text cs hkeeps _ ih =>
      rintro s (_ | fuel) read hrest hfuel
      · cases hfuel
      obtain ⟨n, d, more, heq, hd⟩ := hkeeps.exists_eq hmark tail
      have hblanks : s.rest = List.replicate (n + 1) ' ' ++ d :: more := by
        rw [hrest, List.cons_append, heq]
        rfl
      -- a run of more than one blank costs no fuel here, for the others are still to be taken
      rw [quotedFrom_blank hd hblanks,
        ih _ (Place.rest_skip_one hrest) (by rw [List.length_cons] at hfuel; split <;> omega)]
      exact ok_skip (by simp) (by simp only [List.length_cons]; omega)
  | @twice text cs hdouble _ ih =>
      rintro s (_ | fuel) read hrest hfuel
      · cases hfuel
      subst hdouble
      have hnext : (s.skip 2).rest = text ++ quoteMark false :: tail := by rw [Place.rest_skip, hrest]; rfl
      have hread := @ih _ fuel (['\''].reverse ++ read) hnext (Nat.lt_of_succ_lt (Nat.lt_of_succ_lt_succ hfuel))
      exact quotedFrom_append (quotedPiece_twice hrest) hread (by simp only [List.length_cons]; omega)
  | @escaped letters c text cs hdouble hletters _ ih =>
      rintro s (_ | fuel) read hrest hfuel
      · cases hfuel
      subst hdouble
      rw [List.cons_append, List.append_assoc] at hrest
      have hnext : (s.skip (1 + letters.length)).rest = text ++ quoteMark true :: tail := by
        rw [← Place.skip_skip]
        exact Place.rest_skip_of_append (Place.rest_skip_one hrest)
      rw [List.length_cons, List.length_append] at hfuel
      have hread := @ih _ fuel ([c].reverse ++ read) hnext (by omega)
      exact quotedFrom_append (quotedPiece_escaped hletters hrest) hread
        (by rw [List.length_cons, List.length_append]; omega)
  | @continued n text cs hdouble hn hsolid _ ih =>
      rintro s (_ | fuel) read hrest hfuel
      · cases hfuel
      subst hdouble
      rw [List.cons_append, List.cons_append, List.append_assoc] at hrest
      have hnext : (s.skip (1 + (1 + n))).rest = text ++ quoteMark true :: tail := by
        rw [Place.rest_skip, hrest, ← Nat.add_assoc, Nat.add_comm]
        exact List.drop_left' List.length_replicate
      simp only [List.length_cons, List.length_append, List.length_replicate] at hfuel
      have hread := @ih _ fuel ([].reverse ++ read) hnext (by omega)
      exact quotedFrom_append (quotedPiece_continued hn (hsolid.append (startsSolid_cons hmark tail)) hrest) hread
        (by simp only [List.length_cons, List.length_append, List.length_replicate]; omega)
  | @folded b more n text cs hb hmore hn hsolid _ ih =>
      rintro s (_ | fuel) read hrest hfuel
      · cases hfuel
      rw [List.cons_append, List.append_assoc, List.append_assoc] at hrest
      have hpiece := @quotedPiece_break s double _ b more n hb hmore hn
        (hsolid.append (startsSolid_cons hmark tail)) hrest
      have hnext : (s.skip (1 + (more.length + n))).rest = text ++ quoteMark double :: tail := by
        rw [Place.rest_skip, hrest, Nat.add_comm 1, List.drop_succ_cons, ← List.append_assoc]
        exact List.drop_left' (by rw [List.length_append, List.length_replicate])
      simp only [List.length_cons, List.length_append, List.length_replicate] at hfuel
      have hread := @ih _ fuel ((Lexeme.folded b (more.map breakChar)).reverse ++ read) hnext (by omega)
      exact quotedFrom_append hpiece hread
        (by simp only [List.length_cons, List.length_append, List.length_replicate]; omega)

end Runbook.Yaml
