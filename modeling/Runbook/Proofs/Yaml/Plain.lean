import Runbook.Proofs.Yaml.Quoted
import Runbook.Proofs.Yaml.Runs
import Runbook.Yaml.Lexeme.Plain

/-!
# Plain text

How plain text flows over lines (`Flows`): words with blanks between them, of which a single
one may have become a line end. Such text is read back up to its end (`Flows.plain_eq`),
which is a colon behind a key, or a line end with a line behind it that is not indented
enough.
-/

namespace Runbook.Yaml

open Lexeme

/-- A character of a word of plain text. -/
def isPlainChar (c : Char) : Bool := !isGap c && isInline c

/-- A word of plain text, which ends with no colon. -/
structure IsPlainWord (word : List Char) : Prop where
  ne_nil : word ≠ []
  plain : ∀ c ∈ word, isPlainChar c = true
  colon : word.getLast? ≠ some ':'

theorem isGap_of_isPlainChar {c : Char} (h : isPlainChar c = true) : isGap c = false := by
  simp only [isPlainChar, Bool.and_eq_true, Bool.not_eq_true'] at h
  exact h.1

theorem isInline_of_isPlainChar {c : Char} (h : isPlainChar c = true) : isInline c = true := by
  simp only [isPlainChar, Bool.and_eq_true] at h
  exact h.2

/-- Plain text on lines that are indented by at least some blanks, and what it stands for. A word that
follows another one starts no comment. -/
inductive Flows (least : Nat) : List Char → List Char → Prop where
  | word {word} : IsPlainWord word → Flows least word word
  | blanks {word n text cs} : IsPlainWord word → 0 < n → text.head? ≠ some '#' → Flows least text cs →
      Flows least (word ++ (List.replicate n ' ' ++ text)) (word ++ (List.replicate n ' ' ++ cs))
  | folded {word n text cs} : IsPlainWord word → 0 < n → least ≤ n → text.head? ≠ some '#' → Flows least text cs →
      Flows least (word ++ '\n' :: (List.replicate n ' ' ++ text)) (word ++ ' ' :: cs)

variable {least : Nat} {word text cs rest tail : List Char} {c : Char} {n : Nat}

theorem Flows.exists_cons (h : Flows least text cs) : ∃ c rest, text = c :: rest ∧ isPlainChar c = true := by
  have hword : ∀ {word : List Char} (rest), IsPlainWord word →
      ∃ c more, word ++ rest = c :: more ∧ isPlainChar c = true := by
    intro word rest hword
    obtain ⟨c, more, rfl⟩ := List.exists_cons_of_ne_nil hword.ne_nil
    exact ⟨c, more ++ rest, rfl, hword.plain c List.mem_cons_self⟩
  cases h with
  | word h => simpa using hword [] h
  | blanks h | folded h => exact hword _ h

/-! ## Words -/

theorem endsWord_cons (h : isGap c = false) (rest : List Char) : endsWord (c :: rest) = false := by
  obtain ⟨hblank, htab, hbreak⟩ := isGap_iff.mp h
  unfold endsWord
  split
  · next heq => exact absurd (List.cons.inj heq).1 htab
  · unfold endsField
    split
    · next heq => exact absurd (List.cons.inj heq).1 hblank
    · exact hbreak

theorem endsWord_of_isGap (h : isGap c = true) (rest : List Char) : endsWord (c :: rest) = true := by
  simp only [isGap, Bool.or_eq_true, beq_iff_eq] at h
  obtain (rfl | rfl) | hbreak := h
  · rfl
  · rfl
  · unfold endsWord
    split
    · rfl
    · unfold endsField
      split
      · rfl
      · exact hbreak

theorem isGap_of_endsWord (h : endsWord (c :: rest) = true) : isGap c = true := by
  by_contra hc
  rw [endsWord_cons (by simpa using hc)] at h
  cases h

theorem endsWord_replicate (hn : 0 < n) (rest : List Char) : endsWord (List.replicate n ' ' ++ rest) = true := by
  obtain ⟨m, rfl⟩ := Nat.exists_eq_add_of_lt hn
  rw [Nat.zero_add, List.replicate_succ]
  exact endsWord_of_isGap rfl _

/-- The first word is written as it is. -/
theorem Flows.exists_word (h : Flows least text cs) : ∃ word rest more, text = word ++ rest ∧ cs = word ++ more ∧
    IsPlainWord word ∧ endsWord rest = true ∧ endsWord more = true := by
  cases h with
  | word h => exact ⟨text, [], [], by simp, by simp, h, rfl, rfl⟩
  | @blanks word n text cs h hn => exact ⟨word, _, _, rfl, rfl, h, endsWord_replicate hn _, endsWord_replicate hn _⟩
  | @folded word n text cs h => exact ⟨word, _, _, rfl, rfl, h, endsWord_of_isGap rfl _, endsWord_of_isGap rfl _⟩

namespace Lexeme

theorem stopsPlain_of_endsWord (h : endsWord rest = true) : stopsPlain false rest = true := by
  rw [stopsPlain.eq_def, h, Bool.true_or]

theorem stopsPlain_colon (h : endsWord rest = true) : stopsPlain false (':' :: rest) = true := by
  simp [stopsPlain, h]

/-- A word is taken up to where plain text stops. -/
theorem plainWord_append (hplain : ∀ c ∈ word, isPlainChar c = true) (hcolon : word.getLast? ≠ some ':')
    (hrest : stopsPlain false rest = true) : plainWord false (word ++ rest) = word := by
  induction word with
  | nil =>
      cases rest with
      | nil => rfl
      | cons c rest => rw [List.nil_append, plainWord, if_pos hrest]
  | cons c word ih =>
      obtain ⟨hc, hword⟩ := List.forall_mem_cons.mp hplain
      have hgo : stopsPlain false (c :: (word ++ rest)) = false := by
        have hends := endsWord_cons (isGap_of_isPlainChar hc)
        cases word with
        | nil =>
            have hne : c ≠ ':' := fun h => hcolon (by rw [h]; rfl)
            simp [stopsPlain, hends, hne]
        | cons d word =>
            have hnext := endsWord_cons (isGap_of_isPlainChar (hword d List.mem_cons_self))
            simp [stopsPlain, hends, hnext]
      have hlast : word.getLast? ≠ some ':' := by
        cases word with
        | nil => simp
        | cons d word => rwa [List.getLast?_cons_cons] at hcolon
      rw [List.cons_append, plainWord, hgo, if_neg Bool.false_ne_true, ih hword hlast]

/-! ## Gaps -/

variable {s : Place}

theorem isBlank_replicate : ∀ c ∈ List.replicate n ' ', (c == ' ') = true := fun c hc => by
  obtain rfl := List.eq_of_mem_replicate hc
  rfl

theorem stops_blank_cons (h : c ≠ ' ') (rest : List Char) : Text.Stops (fun c => c == ' ') (c :: rest) :=
  Text.stops_cons (by simpa using h) rest

theorem span_blanks (h : s.rest = List.replicate n ' ' ++ tail) (htail : Text.Stops (fun c => c == ' ') tail) :
    s.span (fun c => c == ' ') = (List.replicate n ' ', s.skip n) := by
  rw [Place.span_append h isBlank_replicate htail, List.length_replicate]

/-- Blanks between two words. -/
theorem plainGap_blanks (hrest : s.rest = List.replicate n ' ' ++ c :: tail) (hc : isGap c = false) :
    plainGap s = ⟨List.replicate n ' ', false, s.skip n⟩ := by
  obtain ⟨hblank, -, hbreak⟩ := isGap_iff.mp hc
  have hafter : (s.skip n).rest = c :: tail := by
    rw [Place.rest_skip, hrest]
    exact List.drop_left' List.length_replicate
  rw [plainGap, span_blanks hrest (stops_blank_cons hblank tail)]
  dsimp only
  rw [hafter]
  simp only [hbreak, Bool.false_eq_true, if_false]

/-- The blanks of the next line, which is not empty of other characters unless the text ends. -/
theorem plainBreaks_blanks (hsep : s.atSeparator = false) (hrest : s.rest = List.replicate n ' ' ++ tail)
    (htail : StartsSolid tail) (fuel : Nat) : plainBreaks (fuel + 1) s = (some [], s.skip n) := by
  have hstops : Text.Stops (fun c => c == ' ') tail := fun c hc => by
    simpa using (isGap_iff.mp (htail c hc)).1
  have hafter : (s.skip n).rest = tail := by
    rw [Place.rest_skip, hrest]
    exact List.drop_left' List.length_replicate
  have hskip : s.skipBlanks = s.skip n := by
    rw [Place.skipBlanks, Place.skipWhile, span_blanks hrest hstops]
  rw [plainBreaks, hsep, if_neg Bool.false_ne_true, hskip]
  dsimp only
  rw [hafter]
  cases tail with
  | nil => rfl
  | cons c more =>
      obtain ⟨-, -, hbreak⟩ := isGap_iff.mp (htail c rfl)
      simp only [hbreak, Bool.false_eq_true, if_false]

/-- A line end and the blanks of the next line. -/
theorem plainGap_newLine (hrest : s.rest = '\n' :: (List.replicate n ' ' ++ tail)) (htail : StartsSolid tail)
    (hsep : (s.skip 1).atSeparator = false) : plainGap s = ⟨[' '], true, s.skip (n + 1)⟩ := by
  have hbreak : isBreak '\n' = true := rfl
  have hspan : s.span (fun c => c == ' ') = ([], s) := span_blanks (n := 0) hrest (stops_blank_cons (by decide) _)
  have hbreaks := plainBreaks_blanks hsep (Place.rest_skip_one hrest) htail s.rest.length
  rw [plainGap, hspan]
  dsimp only
  rw [Place.next_eq_skip, hbreaks, hrest]
  simp only [hbreak, if_true, Option.map_some, Option.getD_some, Place.skip_skip, Nat.add_comm 1]
  rfl

end Lexeme

/-! ## Texts -/

/-- Plain text ends before `tail`, at every place with that before it: what stands there is no further word,
and the place after it is so many characters further on. -/
structure EndsPlain (least : Nat) (tail : List Char) (broken : Bool) (taken : Nat) (s : Place) : Prop where
  stops : stopsPlain false tail = true
  gap : ∃ text, plainGap s = ⟨text, broken, s.skip taken⟩ ∧
    (text.isEmpty || startsComment (s.skip taken) || decide ((s.skip taken).column < least)) = true

/-- One word is taken, and the gap after it decides how to go on. -/
theorem plainFrom_word (hword : IsPlainWord word) {s : Place} (hrest : s.rest = word ++ rest)
    (hstops : stopsPlain false rest = true) (hhash : s.rest.head? ≠ some '#') (fuel : Nat) (t gap : List Char)
    (broken : Bool) :
    plainFrom false least (fuel + 1) ⟨t, broken, s⟩ gap =
      (let after := plainGap (s.skip word.length)
       let t : PlainText := ⟨word.reverse ++ gap ++ t, after.broken, after.place⟩
       if after.text.isEmpty || startsComment after.place || after.place.column < least then t
       else plainFrom false least fuel t after.text.reverse) := by
  have hcomment : startsComment s = false := by simpa [startsComment] using hhash
  have htaken : plainWord false s.rest = word := by
    rw [hrest, plainWord_append hword.plain hword.colon hstops]
  rw [plainFrom]
  simp only [hcomment, Bool.false_eq_true, if_false, htaken]
  obtain ⟨c, more, rfl⟩ := List.exists_cons_of_ne_nil hword.ne_nil
  simp

/-- A word is taken, and the gap after it if the text goes on behind the gap. -/
theorem plainFrom_gap (hword : IsPlainWord word) (hhash : word.head? ≠ some '#') {s : Place}
    (hrest : s.rest = word ++ rest) (hstops : stopsPlain false rest = true) {between : List Char} {broken : Bool} {k : Nat}
    (hgap : plainGap (s.skip word.length) = ⟨between, broken, s.skip k⟩) (hbetween : between ≠ [])
    (hnext : (s.skip k).rest.head? ≠ some '#') (hcolumn : least ≤ (s.skip k).column) (fuel : Nat) (t gap : List Char)
    (b : Bool) : plainFrom false least (fuel + 1) ⟨t, b, s⟩ gap =
      plainFrom false least fuel ⟨word.reverse ++ gap ++ t, broken, s.skip k⟩ between.reverse := by
  have hhead : s.rest.head? ≠ some '#' := by rwa [hrest, List.head?_append_of_ne_nil _ hword.ne_nil]
  have hcomment : startsComment (s.skip k) = false := by simpa [startsComment] using hnext
  rw [plainFrom_word hword hrest hstops hhead, hgap]
  dsimp only
  rw [if_neg (by simp [hbetween, hcomment, hcolumn])]

/-- A word and the blanks after it. -/
theorem plainFrom_blanks (hword : IsPlainWord word) (hn : 0 < n) (hhash : word.head? ≠ some '#')
    (hc : isPlainChar c = true) (hnext : c ≠ '#') {s : Place}
    (hrest : s.rest = word ++ (List.replicate n ' ' ++ c :: tail)) (hcolumn : least ≤ s.column + 1) :
    (s.skip (word.length + n)).rest = c :: tail ∧ least ≤ (s.skip (word.length + n)).column ∧
      ∀ (fuel : Nat) (t gap : List Char) (b : Bool), plainFrom false least (fuel + 1) ⟨t, b, s⟩ gap =
        plainFrom false least fuel ⟨word.reverse ++ gap ++ t, false, s.skip (word.length + n)⟩
          (List.replicate n ' ') := by
  have hinline : ∀ c ∈ word ++ List.replicate n ' ', isInline c = true := List.forall_mem_append.mpr
    ⟨fun c hc => isInline_of_isPlainChar (hword.plain c hc), fun c hc => by
      obtain rfl := List.eq_of_mem_replicate hc
      rfl⟩
  have hplace := Place.skip_of_inline (hrest.trans (List.append_assoc _ _ _).symm) hinline
  rw [List.length_append, List.length_replicate] at hplace
  have hafter : (s.skip (word.length + n)).rest = c :: tail := by rw [hplace]
  have hcolumn' : least ≤ (s.skip (word.length + n)).column := by
    rw [hplace]
    dsimp only
    omega
  have hgap := plainGap_blanks (Place.rest_skip_of_append hrest) (isGap_of_isPlainChar hc)
  rw [Place.skip_skip] at hgap
  refine ⟨hafter, hcolumn', fun fuel t gap b => ?_⟩
  rw [plainFrom_gap hword hhash hrest (stopsPlain_of_endsWord (endsWord_replicate hn _)) hgap
    (by simpa using hn.ne') (by rw [hafter]; simpa using hnext) hcolumn', List.reverse_replicate]

/-- A word, the line end after it and the blanks of the next line. -/
theorem plainFrom_folded (hword : IsPlainWord word) (hn : 0 < n) (hleast : least ≤ n) (hhash : word.head? ≠ some '#')
    (hc : isPlainChar c = true) (hnext : c ≠ '#') {s : Place}
    (hrest : s.rest = word ++ '\n' :: (List.replicate n ' ' ++ c :: tail)) :
    (s.skip (word.length + (n + 1))).rest = c :: tail ∧ least ≤ (s.skip (word.length + (n + 1))).column ∧
      ∀ (fuel : Nat) (t gap : List Char) (b : Bool), plainFrom false least (fuel + 1) ⟨t, b, s⟩ gap =
        plainFrom false least fuel ⟨word.reverse ++ gap ++ t, true, s.skip (word.length + (n + 1))⟩ [' '] := by
  have hline := Place.rest_skip_of_append hrest
  have hsep : ((s.skip word.length).skip 1).atSeparator = false := by
    obtain ⟨m, rfl⟩ := Nat.exists_eq_add_of_lt hn
    have hblank := Place.rest_skip_one hline
    rw [Nat.zero_add, List.replicate_succ, List.cons_append] at hblank
    exact Place.atSeparator_of_head hblank (by decide) (by decide)
  have hplace := Place.skip_of_newLine hline rfl
  have hgap := plainGap_newLine hline (startsSolid_cons (isGap_of_isPlainChar hc) _) hsep
  rw [Place.skip_skip] at hplace hgap
  have hafter : (s.skip (word.length + (n + 1))).rest = c :: tail := by rw [hplace]
  have hcolumn : least ≤ (s.skip (word.length + (n + 1))).column := by
    rw [hplace]
    exact hleast
  refine ⟨hafter, hcolumn, fun fuel t gap b => ?_⟩
  rw [plainFrom_gap hword hhash hrest (stopsPlain_of_endsWord (endsWord_of_isGap rfl _)) hgap
    (List.cons_ne_nil _ _) (by rw [hafter]; simpa using hnext) hcolumn]
  rfl

theorem Flows.plainFrom_eq (h : Flows least text cs) {broken : Bool} {taken : Nat} :
    ∀ {s : Place} {fuel : Nat} (t gap : List Char) (b : Bool), s.rest = text ++ tail → least ≤ s.column + 1 →
      text.length < fuel → text.head? ≠ some '#' →
      (∀ s : Place, s.rest = tail → EndsPlain least tail broken taken s) →
      plainFrom false least fuel ⟨t, b, s⟩ gap = ⟨cs.reverse ++ gap ++ t, broken, s.skip (text.length + taken)⟩ := by
  induction h with
  | @word word hword =>
      rintro s (_ | fuel) t gap b hrest hcolumn hfuel hhash hend
      · cases hfuel
      obtain ⟨hstops, text, htext, hdone⟩ := hend (s.skip word.length) (Place.rest_skip_of_append hrest)
      have hhead : s.rest.head? ≠ some '#' := by rwa [hrest, List.head?_append_of_ne_nil _ hword.ne_nil]
      rw [plainFrom_word hword hrest hstops hhead, htext]
      dsimp only
      rw [if_pos hdone, Place.skip_skip, List.append_assoc]
  | @blanks word n text cs hword hn hnext hflows ih =>
      rintro s (_ | fuel) t gap b hrest hcolumn hfuel hhash hend
      · cases hfuel
      obtain ⟨c, more, rfl, hc⟩ := hflows.exists_cons
      rw [List.append_assoc, List.append_assoc] at hrest
      rw [List.head?_append_of_ne_nil _ hword.ne_nil] at hhash
      rw [List.length_append, List.length_append, List.length_replicate] at hfuel
      obtain ⟨hafter, hcolumn', hstep⟩ := plainFrom_blanks hword hn hhash hc (by simpa using hnext) hrest hcolumn
      rw [hstep, ih _ _ _ hafter (Nat.le_succ_of_le hcolumn') (by omega) hnext hend]
      simp only [List.reverse_append, List.reverse_replicate, List.append_assoc, Place.skip_skip, List.length_append,
        List.length_replicate, Nat.add_assoc]
  | @folded word n text cs hword hn hleast hnext hflows ih =>
      rintro s (_ | fuel) t gap b hrest hcolumn hfuel hhash hend
      · cases hfuel
      obtain ⟨c, more, rfl, hc⟩ := hflows.exists_cons
      rw [List.append_assoc, List.cons_append, List.append_assoc] at hrest
      rw [List.head?_append_of_ne_nil _ hword.ne_nil] at hhash
      rw [List.length_append, List.length_cons, List.length_append, List.length_replicate] at hfuel
      obtain ⟨hafter, hcolumn', hstep⟩ := plainFrom_folded hword hn hleast hhash hc (by simpa using hnext) hrest
      rw [hstep, ih _ _ _ hafter (Nat.le_succ_of_le hcolumn') (by omega) hnext hend]
      simp only [List.reverse_append, List.reverse_cons, List.append_assoc, Place.skip_skip, List.length_append,
        List.length_replicate, List.length_cons, Nat.add_assoc]
      rw [Nat.add_left_comm 1]

/-- A line that is no mark between documents. -/
def IsContent (line : List Char) : Prop := ∀ s : Place, s.rest = line → s.atSeparator = false

/-- A key ends before its colon. -/
theorem endsPlain_colon (h : endsWord rest = true) {s : Place} (hrest : s.rest = ':' :: rest) :
    EndsPlain least (':' :: rest) false 0 s where
  stops := stopsPlain_colon h
  gap := by
    have hspan : s.span (fun c => c == ' ') = ([], s) := span_blanks (n := 0) hrest (stops_blank_cons (by decide) _)
    refine ⟨[], ?_, rfl⟩
    rw [plainGap, hspan]
    dsimp only
    rw [hrest]
    rfl

/-- A line that is not indented enough ends the text before it. -/
theorem endsPlain_newLine (htail : StartsSolid tail) (hline : IsContent (List.replicate n ' ' ++ tail)) (hn : n < least)
    {s : Place} (hrest : s.rest = '\n' :: (List.replicate n ' ' ++ tail)) :
    EndsPlain least ('\n' :: (List.replicate n ' ' ++ tail)) true (n + 1) s where
  stops := stopsPlain_of_endsWord (endsWord_of_isGap rfl _)
  gap := by
    refine ⟨[' '], plainGap_newLine hrest htail (hline _ (Place.rest_skip_one hrest)), ?_⟩
    rw [Place.skip_of_newLine hrest rfl]
    simp [hn]

/-- Plain text is read up to its end. -/
theorem Flows.plain_eq (h : Flows least text cs) {broken : Bool} {taken : Nat} {s : Place}
    (hrest : s.rest = text ++ tail)
    (hcolumn : least ≤ s.column + 1) (hhash : text.head? ≠ some '#')
    (hend : ∀ s : Place, s.rest = tail → EndsPlain least tail broken taken s) :
    plain false least s = ⟨cs, broken, s.skip (text.length + taken)⟩ := by
  have hfuel : text.length < s.rest.length + 1 := by
    rw [hrest, List.length_append]
    omega
  rw [plain, h.plainFrom_eq [] [] false hrest hcolumn hfuel hhash hend]
  simp

end Runbook.Yaml
