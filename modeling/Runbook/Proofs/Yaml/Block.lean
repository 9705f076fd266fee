import Runbook.Proofs.Yaml.Scalar

/-!
# Runs over block collections

One lemma for each thing that stands on a line of a block collection: the dash of an item
(`leads_dash`), a key with its colon (`leads_key`), the mark of a key that is too long to
stand before its colon (`leads_mark`) and the colon after it (`leads_colon`), and the values
that end a line (`leads_scalar`, `leads_brackets`). The first token of a collection is put
before what opens it (`Opens`).
-/

namespace Runbook.Yaml

open Lexeme

/-- A block collection is open at a column, or a token opens it there; what is open around it. -/
inductive Opens (t : Token) (column : Nat) (tokens : List Token) : List Nat → List Token → List Nat → Prop where
  | inside (outer) : Opens t column tokens (column :: outer) tokens outer
  | deeper {outer} : (∀ c, outer.head? = some c → c < column) → Opens t column tokens outer (t :: tokens) outer

/-- A line end, and a line that is indented by at most so many blanks. -/
inductive NextLine (most : Nat) : List Char → Prop where
  | mk {n next} : n ≤ most → IsContent (List.replicate n ' ' ++ next) → StartsToken next →
      NextLine most ('\n' :: (List.replicate n ' ' ++ next))

/-- Brackets around nothing, and their tokens. -/
inductive IsBrackets : Char → Char → Token → Token → Prop where
  | sequence : IsBrackets '[' ']' .flowSequence .flowSequenceEnd
  | mapping : IsBrackets '\x7b' '\x7d' .flowMapping .flowMappingEnd

variable {p : Place} {tokens tokens' : List Token} {columns outer : List Nat} {allowed : Bool} {t : Token}
  {spot : Option KeySpot} {text tail after : List Char} {column n : Nat}

/-- Blanks in front of a line that is no mark between documents. -/
theorem isContent_blanks (h : IsContent text) (n : Nat) : IsContent (List.replicate n ' ' ++ text) := by
  cases n with
  | zero => exact h
  | succ n => exact isContent_cons (by decide) (by decide) _

theorem StartsLine.nextLine (h : StartsLine text) (hn : n ≤ column) : NextLine column (newLine n ++ text) :=
  .mk hn (isContent_blanks h.content n) h.token

theorem NextLine.mono (h : NextLine n text) (hn : n ≤ column) : NextLine column text := by
  obtain ⟨hless, hcontent, htoken⟩ := h
  exact .mk (Nat.le_trans hless hn) hcontent htoken

theorem NextLine.endsWord (h : NextLine n text) : endsWord text = true := by
  obtain ⟨-, -, -⟩ := h
  rfl

theorem Opens.within (h : Opens t column tokens columns tokens' outer) : Scanner.Within columns column := by
  intro c hc
  cases h with
  | inside => exact Nat.le_of_eq (Option.some.inj hc).symm
  | deeper h => exact Nat.le_of_lt (h c hc)

namespace Scanner

theorem openBlock_eq (h : Opens t p.column tokens columns tokens' outer) (spots : List (Option KeySpot)) :
    openBlock ⟨p, tokens, columns, allowed, spot, spots⟩ t =
      ⟨p, tokens', p.column :: outer, allowed, spot, spots⟩ := by
  cases h with
  | inside => simp [openBlock, isDeeper]
  | deeper h =>
      cases columns with
      | nil => simp [openBlock, isDeeper]
      | cons c rest => simp [openBlock, isDeeper, h c rfl]

/-- A block collection is entered outside of brackets. -/
theorem enterBlock_eq (h : Opens t p.column tokens columns tokens' outer) :
    enterBlock ⟨p, tokens, columns, true, spot, []⟩ t = .ok ⟨p, tokens', p.column :: outer, true, spot, []⟩ := by
  rw [enterBlock, openBlock_eq h]
  rfl

/-! ## Marks -/

theorem take_dash (hrest : p.rest = '-' :: ' ' :: tail) :
    take ⟨p, tokens, columns, allowed, spot, []⟩ '-' (' ' :: tail) =
      takeDash ⟨p, tokens, columns, allowed, spot, []⟩ := by
  rw [take, startsMark_eq_false hrest rfl, startsMark_eq_false hrest rfl, endsWord_of_isGap rfl]
  simp

theorem take_key (hrest : p.rest = '?' :: ' ' :: tail) :
    take ⟨p, tokens, columns, allowed, spot, []⟩ '?' (' ' :: tail) =
      takeKey ⟨p, tokens, columns, allowed, spot, []⟩ := by
  rw [take, startsMark_eq_false hrest rfl, startsMark_eq_false hrest rfl, isMark, endsWord_of_isGap rfl]
  simp

theorem take_colon (hrest : p.rest = ':' :: after) (hafter : endsWord after = true) :
    take ⟨p, tokens, columns, allowed, spot, []⟩ ':' after = takeColon ⟨p, tokens, columns, allowed, spot, []⟩ := by
  rw [take, startsMark_eq_false hrest rfl, startsMark_eq_false hrest rfl, isMark, hafter]
  simp

/-- The dash of an item. -/
theorem leads_dash (hopens : Opens .blockSequence p.column tokens columns tokens' outer)
    (hrest : p.rest = '-' :: ' ' :: tail) :
    Leads ⟨p, tokens, columns, true, none, []⟩ ⟨p.skip 1, .dash :: tokens', p.column :: outer, true, none, []⟩ := by
  have hsettle := @settle_here p tokens columns true (hrest ▸ startsToken_cons rfl _) hopens.within
  refine leads_of_take hsettle hrest ?_ (fun _ => rfl) (by rw [length_rest_skip, hrest]; simp)
  rw [take_dash hrest, takeDash, enterBlock_eq hopens]
  rfl

/-- The mark of a key. -/
theorem leads_mark (hopens : Opens .blockMapping p.column tokens columns tokens' outer)
    (hrest : p.rest = '?' :: ' ' :: tail) :
    Leads ⟨p, tokens, columns, true, none, []⟩ ⟨p.skip 1, .key :: tokens', p.column :: outer, true, none, []⟩ := by
  have hsettle := @settle_here p tokens columns true (hrest ▸ startsToken_cons rfl _) hopens.within
  refine leads_of_take hsettle hrest ?_ (fun _ => rfl) (by rw [length_rest_skip, hrest]; simp)
  rw [take_key hrest, takeKey, enterBlock_eq hopens]
  rfl

/-- The colon after such a key, on a line of its own. -/
theorem leads_colon (hopens : Opens .blockMapping p.column tokens columns tokens' outer)
    (hrest : p.rest = ':' :: after) (hafter : endsWord after = true) :
    Leads ⟨p, tokens, columns, true, none, []⟩ ⟨p.skip 1, .value :: tokens', p.column :: outer, true, none, []⟩ := by
  have hsettle := @settle_here p tokens columns true (hrest ▸ startsToken_cons rfl _) hopens.within
  refine leads_of_take hsettle hrest ?_ (fun _ => rfl) (by rw [length_rest_skip, hrest]; simp)
  rw [take_colon hrest hafter, takeColon]
  dsimp only
  rw [enterBlock_eq hopens]
  rfl

/-- A blank before a token. -/
theorem leads_blank (hrest : p.rest = ' ' :: tail) (htail : StartsToken tail) :
    Leads ⟨p, tokens, columns, allowed, none, []⟩ ⟨p.skip 1, tokens, columns, allowed, none, []⟩ := by
  have hblank := @settle_blanks p tokens columns allowed tail 1 hrest htail
  have hhere := @settle_blanks (p.skip 1) tokens columns allowed tail 0 (Place.rest_skip_one hrest) htail
  exact leads_of_settle hblank hhere (by rw [length_rest_skip]; exact Nat.sub_le _ _)

/-! ## Keys -/

theorem insertAt_eq (given : List Token) (spots : List (Option KeySpot)) :
    insertAt ⟨p, t :: tokens, columns, allowed, spot, spots⟩ tokens.length given =
      ⟨p, t :: (given ++ tokens), columns, allowed, spot, spots⟩ := by
  have hlater : (t :: tokens).length - tokens.length = 1 := by rw [List.length_cons]; omega
  simp only [insertAt, hlater, List.take_succ_cons, List.take_zero, List.drop_succ_cons, List.drop_zero,
    List.cons_append, List.nil_append]

/-- Where a key starts, its token and what opens its mapping are put at its colon. -/
theorem takeColon_key (hopens : Opens .blockMapping column tokens columns tokens' outer) {required : Bool}
    {line index : Nat} :
    takeColon ⟨p, t :: tokens, columns, allowed, some ⟨tokens.length, required, line, index, column⟩, []⟩ =
      .ok ⟨p.skip 1, .value :: t :: .key :: tokens', column :: outer, false, none, []⟩ := by
  have hkey : keyAt ⟨p, t :: tokens, columns, allowed, some ⟨tokens.length, required, line, index, column⟩, []⟩
      ⟨tokens.length, required, line, index, column⟩ =
        ⟨p, t :: .key :: tokens', column :: outer, false, none, []⟩ := by
    cases hopens with
    | inside => simp [keyAt, inFlow, isDeeper, insertAt_eq]
    | deeper h =>
        cases columns with
        | nil => simp [keyAt, inFlow, isDeeper, insertAt_eq]
        | cons c rest => simp [keyAt, inFlow, isDeeper, insertAt_eq, h c rfl]
  rw [takeColon]
  dsimp only
  rw [hkey]
  rfl

/-- A key before its colon, which is on its line and not too far. -/
theorem leads_key (hopens : Opens .blockMapping p.column tokens columns tokens' outer)
    (hscalar : IsScalar (p.column + 1) text t) (hinline : ∀ c ∈ text, isInline c = true)
    (hlength : text.length ≤ keyLimit) (hrest : p.rest = text ++ ':' :: after) (hafter : endsWord after = true) :
    Leads ⟨p, tokens, columns, true, none, []⟩
      ⟨p.skip (text.length + 1), .value :: t :: .key :: tokens', p.column :: outer, false, none, []⟩ := by
  have hleast : leastColumn columns ≤ p.column + 1 := by
    cases columns with
    | nil => exact Nat.zero_le _
    | cons c rest => exact Nat.succ_le_succ (hopens.within c rfl)
  have hstart : StartsToken p.rest := hrest ▸ (hscalar.startsLine (.inr rfl)).token
  have hplace := Place.skip_of_inline hrest hinline
  obtain ⟨c, rest, hcons, htake⟩ := @take_scalar _ _ _ p tokens columns true false 0 (hscalar.mono hleast) hrest hleast
    (by simp) (.inr rfl) (fun _ => endsPlain_colon hafter)
  rw [Nat.add_zero, or_self] at htake
  -- up to the colon
  have hkey : Leads ⟨p, tokens, columns, true, none, []⟩
      ⟨p.skip text.length, t :: tokens, columns, false, spotAt true p tokens columns, []⟩ :=
    leads_of_take (settle_here hstart hopens.within) hcons htake (fun _ => rfl) (by
      have := hscalar.length_pos
      rw [length_rest_skip, hcons, List.length_cons]
      omega)
  have hcolon : (p.skip text.length).rest = ':' :: after := Place.rest_skip_of_append hrest
  have hsettle : settle ⟨p.skip text.length, t :: tokens, columns, false, spotAt true p tokens columns, []⟩ =
      .ok ⟨p.skip text.length, t :: tokens, columns, false, spotAt true p tokens columns, []⟩ := by
    refine settle_fresh (hcolon ▸ startsToken_cons rfl _) (fun c hc => ?_) ?_ ?_
    · rw [hplace]
      exact Nat.le_add_right_of_le (hopens.within c hc)
    · rw [hplace]
    · rw [hplace]
      simpa using hlength
  refine hkey.trans (leads_of_take hsettle hcolon ?_ (fun _ => rfl) ?_)
  · rw [take_colon hcolon hafter, spotAt, if_pos rfl, takeColon_key hopens, Place.skip_skip]
  · rw [length_rest_skip, hcolon, hrest, List.length_append, List.length_cons]
    omega

/-! ## Values at the end of a line -/

/-- No key has to start behind the column of the collection, and none that could starts on a later line. -/
theorem spotAt_passes (h : column < p.column) (n : Nat) : ∀ k, spotAt allowed p tokens (column :: outer) = some k →
    k.required = false ∧ k.line ≤ (p.skip n).line := by
  intro k hk
  rw [spotAt] at hk
  split at hk
  · obtain rfl := Option.some.inj hk
    exact ⟨by simpa using h.ne, Place.line_le_line_skip p n⟩
  · cases hk

/-- Plain text takes the line end after it, and the blanks of the next line. -/
theorem settle_lineStart (hrest : p.rest = '\n' :: (List.replicate n ' ' ++ tail)) (htail : StartsToken tail)
    (hspot : ∀ k, spot = some k → k.required = false ∧ k.line ≤ p.line) :
    settle ⟨p.skip (n + 1), tokens, columns, allowed, spot, []⟩ =
      .ok (unwindTo n ⟨p.skip (n + 1), tokens, columns, allowed, none, []⟩) := by
  have hplace := Place.skip_of_newLine hrest rfl
  have hstart : (p.skip (n + 1)).rest = List.replicate 0 ' ' ++ tail := by rw [hplace]; rfl
  rw [settle_of_skip (skipSeparation_blanks hstart htail spot []), Place.skip_zero, hplace]
  rw [Place.skip_zero, hplace]
  exact fun k hk => ⟨(hspot k hk).1, Nat.lt_succ_of_le (hspot k hk).2⟩

/-- A blank, and a scalar behind the column of the collection. -/
theorem settle_scalar (hrest : p.rest = ' ' :: tail) (htail : StartsToken tail) (hcolumn : column ≤ p.column) :
    settle ⟨p, tokens, column :: outer, allowed, none, []⟩ =
      .ok ⟨p.skip 1, tokens, column :: outer, allowed, none, []⟩ ∧ column < (p.skip 1).column := by
  have hplace : p.skip 1 = ⟨p.index + 1, p.line, p.column + 1, tail⟩ := Place.next_of_inline hrest rfl
  have hbehind : column < (p.skip 1).column := by
    rw [hplace]
    exact Nat.lt_succ_of_le hcolumn
  have hsettle := @settle_blanks p tokens (column :: outer) allowed tail 1 hrest htail
  rw [hsettle, unwindTo_of_within]
  · exact ⟨rfl, hbehind⟩
  · exact fun c hc => Nat.le_of_lt (Option.some.inj hc ▸ hbehind)

/-- A scalar after a blank, up to the end of its line. -/
theorem leads_scalar (hscalar : IsScalar (column + 1) text t) (htail : NextLine column tail)
    (hrest : p.rest = ' ' :: (text ++ tail)) (hcolumn : column ≤ p.column) :
    Leads ⟨p, tokens, column :: outer, allowed, none, []⟩
      ⟨p.skip (text.length + 1), t :: tokens, column :: outer, true, none, []⟩ := by
  have hends := htail.endsWord
  obtain ⟨hn, hcontent, hnext⟩ := htail
  obtain ⟨hbefore, hbehind⟩ := @settle_scalar p tokens outer allowed _ column hrest
    (hscalar.startsLine (.inl hends)).token hcolumn
  have hblank := Place.rest_skip_one hrest
  have hafter := Place.rest_skip_of_append hblank
  obtain ⟨c, rest, hcons, htake⟩ := @take_scalar _ _ _ (p.skip 1) tokens (column :: outer) allowed true _ hscalar
    hblank (Nat.le_succ_of_le hbehind) (by simp) (.inl hends)
    (fun _ => endsPlain_newLine hnext.startsSolid hcontent (Nat.lt_succ_of_le hn))
  have hspot := @spotAt_passes (p.skip 1) tokens outer allowed column hbehind text.length
  have hend : ∀ spot : Option KeySpot,
      (∀ k, spot = some k → k.required = false ∧ k.line ≤ ((p.skip 1).skip text.length).line) →
      ∀ allowed, settle ⟨(p.skip 1).skip text.length, t :: tokens, column :: outer, allowed, spot, []⟩ = _ :=
    fun spot hspot allowed => settle_newLine hafter hnext hspot
  have htarget := hend none (fun _ h => by cases h) true
  rw [Nat.add_comm, ← Place.skip_skip]
  have hlength : ((p.skip 1).skip text.length).rest.length < p.rest.length := by
    have := hscalar.length_pos
    rw [Place.skip_skip, length_rest_skip, hrest, List.length_cons]
    omega
  obtain htake | htake := htake
  · rw [← Place.skip_skip] at htake
    exact leads_of_take hbefore hcons htake (run_of_settle (settle_lineStart hafter hnext hspot) htarget) hlength
  · exact leads_of_take hbefore hcons htake (run_of_settle (hend _ hspot false) htarget) hlength

/-! ## Empty collections -/

section Brackets

variable {opening closing : Char} {t' : Token}

theorem take_opening (h : IsBrackets opening closing t t') (hrest : p.rest = opening :: after) :
    take ⟨p, tokens, columns, allowed, none, []⟩ opening after =
      openFlow ⟨p, tokens, columns, allowed, none, []⟩ t := by
  cases h with
  | sequence | mapping =>
      rw [take, startsMark_eq_false hrest (isPrefixOf_of_head (by decide) (by decide) _),
        startsMark_eq_false hrest (isPrefixOf_of_head (by decide) (by decide) _)]
      simp

theorem take_closing (h : IsBrackets opening closing t t') (hrest : p.rest = closing :: after)
    (spots : List (Option KeySpot)) :
    take ⟨p, tokens, columns, allowed, none, spots⟩ closing after =
      closeFlow ⟨p, tokens, columns, allowed, none, spots⟩ t' := by
  cases h with
  | sequence | mapping =>
      rw [take, startsMark_eq_false hrest (isPrefixOf_of_head (by decide) (by decide) _),
        startsMark_eq_false hrest (isPrefixOf_of_head (by decide) (by decide) _)]
      simp

/-- The spot before an opening bracket is kept up to the closing one. -/
theorem settle_inside (hrest : p.rest = opening :: closing :: tail) (hopening : isInline opening = true)
    (hclosing : isSkipped closing = false) :
    settle ⟨p.skip 1, tokens', columns, true, none, [spotAt allowed p tokens columns]⟩ =
      .ok ⟨p.skip 1, tokens', columns, true, none, [spotAt allowed p tokens columns]⟩ := by
  have hafter := Place.rest_skip_one hrest
  have hplace : p.skip 1 = ⟨p.index + 1, p.line, p.column + 1, closing :: tail⟩ := Place.next_of_inline hrest hopening
  have hfresh : fresh (p.skip 1) (spotAt allowed p tokens columns) = .ok (spotAt allowed p tokens columns) := by
    rw [spotAt]
    split
    · have : isStale (p.skip 1) ⟨tokens.length, columns.head? == some p.column, p.line, p.index, p.column⟩ = false := by
        simp [isStale, hplace, keyLimit]
      rw [fresh, this]
      rfl
    · rfl
  have hskip := @skipSeparation_blanks (p.skip 1) tokens' columns true (closing :: tail) 0 hafter
    (startsToken_cons hclosing _) none [spotAt allowed p tokens columns]
  have hnone : fresh (p.skip 1) none = .ok none := rfl
  rw [settle, hskip, Place.skip_zero, dropStale]
  simp [hnone, hfresh, unwind, inFlow, bind, Except.bind, pure, Except.pure, Except.map]

/-- Empty brackets after a blank, up to the end of their line. -/
theorem leads_brackets (h : IsBrackets opening closing t t') (htail : NextLine column tail)
    (hrest : p.rest = ' ' :: opening :: closing :: tail) (hcolumn : column ≤ p.column) :
    Leads ⟨p, tokens, column :: outer, allowed, none, []⟩
      ⟨p.skip 3, t' :: t :: tokens, column :: outer, true, none, []⟩ := by
  obtain @⟨n, next, -, -, hnext⟩ := htail
  have hchars : isSkipped opening = false ∧ isInline opening = true ∧ isSkipped closing = false := by
    cases h <;> decide
  obtain ⟨hbefore, hbehind⟩ := @settle_scalar p tokens outer allowed _ column hrest
    (startsToken_cons hchars.1 _) hcolumn
  have hopening := Place.rest_skip_one hrest
  have hclosing := Place.rest_skip_one hopening
  have hafter := Place.rest_skip_one hclosing
  have hopen : Leads ⟨p, tokens, column :: outer, allowed, none, []⟩
      ⟨(p.skip 1).skip 1, t :: tokens, column :: outer, true, none,
        [spotAt allowed (p.skip 1) tokens (column :: outer)]⟩ := by
    refine leads_of_take hbefore hopening ?_ (fun _ => rfl) ?_
    · rw [take_opening h hopening, openFlow, noteSpot_eq]
      rfl
    · rw [hclosing, hrest]
      simp
  have hspot : ∀ k, spotAt allowed (p.skip 1) tokens (column :: outer) = some k →
      k.required = false ∧ k.line ≤ (((p.skip 1).skip 1).skip 1).line := by
    have := @spotAt_passes (p.skip 1) tokens outer allowed column hbehind 2
    rwa [Place.skip_skip (p.skip 1)]
  have hclose : take ⟨(p.skip 1).skip 1, t :: tokens, column :: outer, true, none,
      [spotAt allowed (p.skip 1) tokens (column :: outer)]⟩ closing ('\n' :: (List.replicate n ' ' ++ next)) =
        .ok ⟨((p.skip 1).skip 1).skip 1, t' :: t :: tokens, column :: outer, false,
          spotAt allowed (p.skip 1) tokens (column :: outer), []⟩ := by
    rw [take_closing h hclosing]
    rfl
  refine hopen.trans (leads_of_take (settle_inside hopening hchars.2.1 hchars.2.2) hclosing hclose
    (run_of_settle (settle_newLine hafter hnext hspot) (settle_newLine hafter hnext fun _ h => by cases h)) ?_)
  rw [hclosing, length_rest_skip, hrest]
  simp

end Brackets

end Scanner

end Runbook.Yaml
