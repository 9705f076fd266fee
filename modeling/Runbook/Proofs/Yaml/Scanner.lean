import Runbook.Proofs.Yaml.Plain
import Runbook.Yaml.Token

/-!
# Runs of the scanner

From one state a run leads to another one (`Scanner.Leads`): by taking a token
(`leads_of_take`), or because the next token is the same after what separates tokens was
skipped (`leads_of_settle`). Outside of brackets, and where no key may be starting, what is
skipped is blanks, or a line end with the blanks of the next line, which also says that a
key may start (`leads_newLine`), and closes what is indented deeper than that line
(`leads_close`).
-/

namespace Runbook.Yaml

/-- A character that starts no token. -/
def isSkipped (c : Char) : Bool := isGap c || c == '#' || c == '\ufeff'

/-- A token starts here, or the text ends. -/
def StartsToken (text : List Char) : Prop := Text.Stops isSkipped text

theorem isSkipped_iff {c : Char} : isSkipped c = false ↔ isGap c = false ∧ c ≠ '#' ∧ c ≠ '\ufeff' := by
  simp [isSkipped, and_assoc]

theorem startsToken_cons {c : Char} (h : isSkipped c = false) (rest : List Char) : StartsToken (c :: rest) :=
  Text.stops_cons h rest

theorem StartsToken.startsSolid {text : List Char} (h : StartsToken text) : StartsSolid text :=
  fun c hc => (isSkipped_iff.mp (h c hc)).1

theorem StartsToken.stops_blank {text : List Char} (h : StartsToken text) : Text.Stops (fun c => c == ' ') text :=
  fun c hc => by simpa using (isGap_iff.mp (h.startsSolid c hc)).1

namespace Scanner

variable {s t u : Scanner} {p : Place} {tokens : List Token} {columns : List Nat} {allowed : Bool}
  {tail : List Char} {n : Nat}

/-! ## What separates tokens -/

/-- Blanks before a token. -/
theorem toNextToken_blanks (hrest : p.rest = List.replicate n ' ' ++ tail) (htail : StartsToken tail) (fuel : Nat)
    (spot : Option KeySpot) (outer : List (Option KeySpot)) :
    toNextToken (fuel + 1) ⟨p, tokens, columns, allowed, spot, outer⟩ =
      ⟨p.skip n, tokens, columns, allowed, spot, outer⟩ := by
  have hafter : (p.skip n).rest = tail := by
    rw [Place.rest_skip, hrest]
    exact List.drop_left' List.length_replicate
  have hskip : p.skipBlanks = p.skip n := by
    rw [Place.skipBlanks, Place.skipWhile, Lexeme.span_blanks hrest htail.stops_blank]
  have hcomment : (p.skip n).skipComment = p.skip n := by
    rw [Place.skipComment, hafter]
    split
    · exact absurd (htail '#' rfl) (by decide)
    · rfl
  rw [toNextToken]
  dsimp only
  rw [hskip, hcomment, hafter]
  cases tail with
  | nil => rfl
  | cons c more =>
      obtain ⟨-, -, hbreak⟩ := isGap_iff.mp (htail.startsSolid c rfl)
      simp only [hbreak, Bool.false_eq_true, if_false]

/-- A line end before a token, and the blanks of its line. -/
theorem toNextToken_newLine (hrest : p.rest = '\n' :: (List.replicate n ' ' ++ tail)) (htail : StartsToken tail)
    (fuel : Nat) (spot : Option KeySpot) :
    toNextToken (fuel + 2) ⟨p, tokens, columns, allowed, spot, []⟩ =
      ⟨p.skip (n + 1), tokens, columns, true, spot, []⟩ := by
  have hskip : p.skipBlanks = p :=
    Place.skipWhile_of_stops (hrest ▸ Lexeme.stops_blank_cons (by decide) _)
  have hcomment : p.skipComment = p := by
    rw [Place.skipComment, hrest]
    rfl
  have hbreak : isBreak '\n' = true := rfl
  have hnext := @toNextToken_blanks (p.skip 1) tokens columns true tail n (Place.rest_skip_one hrest) htail fuel spot []
  rw [toNextToken]
  dsimp only
  rw [hskip, hcomment, hrest]
  simp only [hbreak, if_true, inFlow, List.isEmpty_nil, Bool.not_true, Bool.not_false, Bool.or_true,
    Place.next_eq_skip]
  rw [hnext, Place.skip_skip, Nat.add_comm 1]

theorem skipSeparation_eq (h : p.rest.head? ≠ some '\ufeff') (spot : Option KeySpot) (outer : List (Option KeySpot)) :
    skipSeparation ⟨p, tokens, columns, allowed, spot, outer⟩ =
      toNextToken (p.rest.length + 1) ⟨p, tokens, columns, allowed, spot, outer⟩ := by
  unfold skipSeparation
  dsimp only
  split
  · next h' => exact absurd (by rw [h']; rfl) h
  · rfl

/-- What separates tokens: blanks, or a line end and the blanks of its line. -/
theorem skipSeparation_blanks (hrest : p.rest = List.replicate n ' ' ++ tail) (htail : StartsToken tail)
    (spot : Option KeySpot) (outer : List (Option KeySpot)) :
    skipSeparation ⟨p, tokens, columns, allowed, spot, outer⟩ =
      ⟨p.skip n, tokens, columns, allowed, spot, outer⟩ := by
  have hmark : p.rest.head? ≠ some '\ufeff' := by
    rw [hrest]
    cases n with
    | zero => exact fun h => absurd (htail _ h) (by decide)
    | succ n => simp [List.replicate_succ]
  rw [skipSeparation_eq hmark, toNextToken_blanks hrest htail]

theorem skipSeparation_newLine (hrest : p.rest = '\n' :: (List.replicate n ' ' ++ tail)) (htail : StartsToken tail)
    (spot : Option KeySpot) :
    skipSeparation ⟨p, tokens, columns, allowed, spot, []⟩ = ⟨p.skip (n + 1), tokens, columns, true, spot, []⟩ := by
  have hmark : p.rest.head? ≠ some '\ufeff' := by
    rw [hrest]
    simp
  have hlength : p.rest.length + 1 = (List.replicate n ' ' ++ tail).length + 2 := by rw [hrest]; rfl
  rw [skipSeparation_eq hmark, hlength, toNextToken_newLine hrest htail]

/-! ## Settling -/

/-- No block collection that is open is indented deeper than a column. -/
def Within (columns : List Nat) (column : Nat) : Prop := ∀ c, columns.head? = some c → c ≤ column

theorem unwindTo_of_within {column : Nat} (h : Within s.columns column) : s.unwindTo column = s := by
  have hclosed : s.columns.takeWhile (column < ·) = [] := Text.takeWhile_of_stops fun c hc => by simpa using h c hc
  rw [unwindTo, hclosed]
  rfl

/-- A collection that is indented deeper is closed. -/
theorem unwindTo_cons {column c : Nat} (h : column < c) (spot : Option KeySpot) (outer : List (Option KeySpot)) :
    unwindTo column ⟨p, tokens, c :: columns, allowed, spot, outer⟩ =
      unwindTo column ⟨p, .blockEnd :: tokens, columns, allowed, spot, outer⟩ := by
  have htake : (c :: columns).takeWhile (column < ·) = c :: columns.takeWhile (column < ·) :=
    List.takeWhile_cons_of_pos (by simpa using h)
  simp only [unwindTo, htake, List.length_cons, List.drop_succ_cons]
  rw [List.replicate_succ', List.append_assoc]
  rfl

/-- On a later line no key starts any more where one could have. -/
theorem settle_of_skip {spot : Option KeySpot} {q : Place} {allowed' : Bool}
    (hskip : skipSeparation ⟨p, tokens, columns, allowed, spot, []⟩ = ⟨q, tokens, columns, allowed', spot, []⟩)
    (hspot : ∀ k, spot = some k → k.required = false ∧ k.line < q.line) :
    settle ⟨p, tokens, columns, allowed, spot, []⟩ =
      .ok (unwindTo q.column ⟨q, tokens, columns, allowed', none, []⟩) := by
  have hfresh : fresh q spot = .ok none := by
    cases spot with
    | none => rfl
    | some k =>
        obtain ⟨hrequired, hline⟩ := hspot k rfl
        have hstale : isStale q k = true := by simp [isStale, hline.ne]
        rw [fresh, hstale, hrequired]
        rfl
  rw [settle, hskip, dropStale]
  dsimp only
  rw [hfresh]
  rfl

theorem settle_blanks (hrest : p.rest = List.replicate n ' ' ++ tail) (htail : StartsToken tail) :
    settle ⟨p, tokens, columns, allowed, none, []⟩ =
      .ok (unwindTo (p.skip n).column ⟨p.skip n, tokens, columns, allowed, none, []⟩) :=
  settle_of_skip (skipSeparation_blanks hrest htail none []) fun _ h => by cases h

theorem settle_newLine (hrest : p.rest = '\n' :: (List.replicate n ' ' ++ tail)) (htail : StartsToken tail)
    {spot : Option KeySpot} (hspot : ∀ k, spot = some k → k.required = false ∧ k.line ≤ p.line) :
    settle ⟨p, tokens, columns, allowed, spot, []⟩ =
      .ok (unwindTo n ⟨p.skip (n + 1), tokens, columns, true, none, []⟩) := by
  have hplace := Place.skip_of_newLine hrest rfl
  rw [settle_of_skip (skipSeparation_newLine hrest htail spot), hplace]
  rw [hplace]
  exact fun k hk => ⟨(hspot k hk).1, Nat.lt_succ_of_le (hspot k hk).2⟩

/-- Where a token starts, nothing is skipped. -/
theorem settle_here (htail : StartsToken p.rest) (hcolumns : Within columns p.column) :
    settle ⟨p, tokens, columns, allowed, none, []⟩ = .ok ⟨p, tokens, columns, allowed, none, []⟩ := by
  have hsettle := @settle_blanks p tokens columns allowed p.rest 0 rfl htail
  rw [hsettle, Place.skip_zero, unwindTo_of_within hcolumns]

/-- Where a token starts, a spot of its line is kept. -/
theorem settle_fresh (htail : StartsToken p.rest) (hcolumns : Within columns p.column) {k : KeySpot}
    (hline : k.line = p.line) (hindex : p.index - k.index ≤ keyLimit) :
    settle ⟨p, tokens, columns, allowed, some k, []⟩ = .ok ⟨p, tokens, columns, allowed, some k, []⟩ := by
  have hfresh : isStale p k = false := by
    simp [isStale, hline, hindex]
  have hskip := @skipSeparation_blanks p tokens columns allowed p.rest 0 rfl htail (some k) []
  rw [settle, hskip]
  simp only [dropStale, fresh, hfresh, Place.skip_zero]
  change Except.ok (unwindTo p.column _) = _
  rw [unwindTo_of_within hcolumns]
  rfl

/-! ## Runs -/

/-- A run leads from one state to another, and takes no more tokens than there are characters between them. -/
def Leads (s t : Scanner) : Prop :=
  ∃ n, n + t.place.rest.length ≤ s.place.rest.length ∧ ∀ fuel, run (fuel + n + 1) s = run (fuel + 1) t

theorem Leads.refl (s : Scanner) : Leads s s := ⟨0, by omega, fun _ => rfl⟩

theorem Leads.trans (h : Leads s t) (h' : Leads t u) : Leads s u := by
  obtain ⟨m, hm, hrun⟩ := h
  obtain ⟨n, hn, hrun'⟩ := h'
  refine ⟨n + m, by omega, fun fuel => ?_⟩
  rw [← Nat.add_assoc, hrun, hrun']

/-- Only what comes after what is skipped counts. -/
theorem run_of_settle (h : s.settle = .ok u) (h' : t.settle = .ok u) (fuel : Nat) :
    run (fuel + 1) s = run (fuel + 1) t := by
  rw [run, run, h, h']

theorem leads_of_settle (h : s.settle = .ok u) (h' : t.settle = .ok u)
    (hlength : t.place.rest.length ≤ s.place.rest.length) : Leads s t :=
  ⟨0, by omega, run_of_settle h h'⟩

/-- A token is taken, and the run goes on as from another state. -/
theorem leads_of_take {t' : Scanner} {c : Char} {after : List Char} (h : s.settle = .ok u)
    (hrest : u.place.rest = c :: after) (htake : u.take c after = .ok t')
    (hrun : ∀ fuel, run (fuel + 1) t' = run (fuel + 1) t) (hlength : t.place.rest.length < s.place.rest.length) :
    Leads s t := by
  refine ⟨1, by omega, fun fuel => ?_⟩
  rw [run, h]
  simp only [hrest, htake, hrun]

theorem length_rest_skip (p : Place) (n : Nat) : (p.skip n).rest.length = p.rest.length - n := by
  rw [Place.rest_skip, List.length_drop]

/-- The next line, on which a key may start. -/
theorem leads_newLine (hrest : p.rest = '\n' :: (List.replicate n ' ' ++ tail)) (htail : StartsToken tail) :
    Leads ⟨p, tokens, columns, allowed, none, []⟩ ⟨p.skip (n + 1), tokens, columns, true, none, []⟩ := by
  have hplace := Place.skip_of_newLine hrest rfl
  have hstart : (p.skip (n + 1)).rest = List.replicate 0 ' ' ++ tail := by rw [hplace]; rfl
  refine leads_of_settle (settle_newLine hrest htail fun _ h => by cases h) ?_
    (by rw [length_rest_skip]; exact Nat.sub_le _ _)
  rw [settle_blanks hstart htail, Place.skip_zero, hplace]

/-- What is indented deeper than the next line is closed. -/
theorem leads_close (hrest : p.rest = '\n' :: (List.replicate n ' ' ++ tail)) (htail : StartsToken tail) {column : Nat}
    (hcolumn : n < column) :
    Leads ⟨p, tokens, column :: columns, allowed, none, []⟩ ⟨p, .blockEnd :: tokens, columns, true, none, []⟩ :=
  leads_of_settle (settle_newLine hrest htail fun _ h => by cases h)
    ((settle_newLine hrest htail fun _ h => by cases h).trans (by rw [unwindTo_cons hcolumn])) (Nat.le_refl _)

end Scanner

end Runbook.Yaml
