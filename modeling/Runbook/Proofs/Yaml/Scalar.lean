import Runbook.Proofs.Yaml.Scanner

/-!
# Scalars are taken

A scalar that is written plainly or between quotes (`IsScalar`) is taken as one token, whether
its line ends behind it or a colon comes next (`take_scalar`). Where a key may start, the place
where it does is remembered (`spotAt`).
-/

namespace Runbook.Yaml

open Lexeme

/-- How a scalar may be written where the lines after its first one are indented by at least some blanks,
and the token that it is taken as. -/
inductive IsScalar (least : Nat) : List Char → Token → Prop where
  | plain {text cs} : Flows least text cs → Style.startsLikeMark cs = false →
      IsScalar least text (.scalar true (String.ofList cs))
  | quoted {double text cs} : Spells double text cs →
      IsScalar least (quoteMark double :: (text ++ [quoteMark double])) (.scalar false (String.ofList cs))

variable {least : Nat} {text word cs tail after : List Char} {c : Char} {t : Token}

/-! ## How a scalar starts -/

/-- What plain text does not start with. -/
structure StartsPlainly (c : Char) (after : List Char) : Prop where
  mark : "#,[]\x7b\x7d&*!|>'\"%@`".toList.contains c = false
  dash : endsWord after = true → c ≠ '-' ∧ c ≠ '?' ∧ c ≠ ':'
  separator : ['-', '-', '-'].isPrefixOf (c :: after) = false ∧ ['.', '.', '.'].isPrefixOf (c :: after) = false
  plain : isPlainChar c = true

theorem StartsPlainly.ne (h : StartsPlainly c after) {d : Char}
    (hd : d ∈ "#,[]\x7b\x7d&*!|>'\"%@`".toList) : c ≠ d := by
  rintro rfl
  exact absurd (List.contains_iff_mem.mpr hd) (by rw [h.mark]; exact Bool.false_ne_true)

/-- Text that does not go on with a mark holds no more of it. -/
theorem isPrefixOf_of_append {mark : List Char} (htail : ∀ d, tail.head? = some d → d ∉ mark)
    (h : mark.isPrefixOf (word ++ tail) = true) : mark.isPrefixOf word = true := by
  induction word generalizing mark with
  | nil =>
      cases mark with
      | nil => rfl
      | cons m mark =>
          cases tail with
          | nil => exact h
          | cons d tail =>
              rw [List.nil_append, List.isPrefixOf, Bool.and_eq_true, beq_iff_eq] at h
              exact absurd (h.1 ▸ List.mem_cons_self) (htail d rfl)
  | cons d word ih =>
      cases mark with
      | nil => rfl
      | cons m mark =>
          rw [List.cons_append, List.isPrefixOf, Bool.and_eq_true] at h
          rw [List.isPrefixOf, h.1, ih (fun e he hmem => htail e he (List.mem_cons_of_mem _ hmem)) h.2]
          rfl

theorem isPrefixOf_append {mark : List Char} (h : mark.isPrefixOf word = true) (more : List Char) :
    mark.isPrefixOf (word ++ more) = true :=
  List.isPrefixOf_iff_prefix.mpr ((List.isPrefixOf_iff_prefix.mp h).trans (List.prefix_append word more))

/-- What plain text starts with is left alone by what follows its first word. -/
theorem startsPlainly_append (hword : IsPlainWord word) (hends : endsWord cs = true)
    (h : Style.startsLikeMark (word ++ cs) = false) (htail : endsWord tail = true ∨ tail.head? = some ':') :
    ∃ c after, word ++ tail = c :: after ∧ StartsPlainly c after := by
  have hhead : ∀ d, tail.head? = some d → d ≠ '-' ∧ d ≠ '.' := by
    intro d hd
    obtain hends | hcolon := htail
    · obtain ⟨rest, rfl⟩ := List.head?_eq_some_iff.mp hd
      constructor <;> rintro rfl <;> cases hends
    · obtain rfl := Option.some.inj (hcolon.symm.trans hd)
      decide
  simp only [Style.startsLikeMark, Bool.or_eq_false_iff] at h
  obtain ⟨⟨hdashes, hdots⟩, hfirst⟩ := h
  have hmark : ∀ {mark : List Char}, mark.isPrefixOf (word ++ cs) = false →
      (∀ d ∈ mark, d = '-' ∨ d = '.') → mark.isPrefixOf (word ++ tail) = false := by
    intro mark hno hmem
    by_contra hyes
    have hword := isPrefixOf_of_append (fun d hd hd' => by
      obtain ⟨hdash, hdot⟩ := hhead d hd
      exact (hmem d hd').elim hdash hdot) (by simpa using hyes)
    rw [isPrefixOf_append hword] at hno
    cases hno
  have hdashes' := hmark hdashes (by decide)
  have hdots' := hmark hdots (by decide)
  obtain ⟨c, rest, rfl⟩ := List.exists_cons_of_ne_nil hword.ne_nil
  rw [List.cons_append, Bool.or_eq_false_iff] at hfirst
  refine ⟨c, rest ++ tail, rfl, hfirst.1, fun hafter => ?_, ⟨hdashes', hdots'⟩, hword.plain c List.mem_cons_self⟩
  cases rest with
  | nil =>
      have := hfirst.2
      rw [List.nil_append, hends, Bool.and_true] at this
      simp at this
      exact ⟨this.2, this.1.1, this.1.2⟩
  | cons d rest =>
      have hd := isGap_of_isPlainChar (hword.plain d (List.mem_cons_of_mem _ List.mem_cons_self))
      rw [List.cons_append, endsWord_cons hd] at hafter
      cases hafter

/-- What starts a scalar starts a token. -/
theorem StartsPlainly.isSkipped_eq (h : StartsPlainly c after) : isSkipped c = false :=
  isSkipped_iff.mpr ⟨isGap_of_isPlainChar h.plain, h.ne (by decide),
    (isInline_iff.mp (isInline_of_isPlainChar h.plain)).2⟩

theorem startsMark_eq_false {mark : List Char} {s : Place} (hrest : s.rest = c :: after)
    (h : mark.isPrefixOf (c :: after) = false) : s.startsMark mark = false := by
  rw [Place.startsMark, hrest, h, Bool.false_and]

theorem isPrefixOf_of_head {mark : List Char} (h : mark.head? ≠ some c) (hmark : mark ≠ []) (after : List Char) :
    mark.isPrefixOf (c :: after) = false := by
  obtain ⟨d, mark, rfl⟩ := List.exists_cons_of_ne_nil hmark
  have hd : (d == c) = false := beq_eq_false_iff_ne.mpr fun hd => h (by rw [hd]; rfl)
  rw [List.isPrefixOf, hd, Bool.false_and]

/-- A line that starts with another character is no mark between documents. -/
theorem isContent_cons (hdash : c ≠ '-') (hdot : c ≠ '.') (after : List Char) : IsContent (c :: after) :=
  fun _ hs => Place.atSeparator_of_head hs hdash hdot

theorem StartsPlainly.isContent (h : StartsPlainly c after) : IsContent (c :: after) := fun s hs => by
  rw [Place.atSeparator, startsMark_eq_false hs h.separator.1, startsMark_eq_false hs h.separator.2]
  rfl

/-- A line that starts with a token, and is no mark between documents. -/
structure StartsLine (text : List Char) : Prop where
  token : StartsToken text
  content : IsContent text

/-- How plain text starts, in front of what ends it. -/
theorem Flows.exists_start (h : Flows least text cs) (hmark : Style.startsLikeMark cs = false)
    (htail : endsWord tail = true ∨ tail.head? = some ':') :
    ∃ c after, text ++ tail = c :: after ∧ StartsPlainly c after := by
  obtain ⟨word, rest, more, rfl, rfl, hword, hrest, hmore⟩ := h.exists_word
  have hafter : endsWord (rest ++ tail) = true ∨ (rest ++ tail).head? = some ':' := by
    cases rest with
    | nil => exact htail
    | cons d rest => exact .inl (endsWord_of_isGap (isGap_of_endsWord hrest) _)
  rw [List.append_assoc]
  exact startsPlainly_append hword hmore hmark hafter

theorem IsScalar.startsLine (h : IsScalar least text t) (htail : endsWord tail = true ∨ tail.head? = some ':') :
    StartsLine (text ++ tail) := by
  cases h with
  | plain hflows hmark =>
      obtain ⟨c, after, heq, hstart⟩ := hflows.exists_start hmark htail
      rw [heq]
      exact ⟨startsToken_cons hstart.isSkipped_eq after, hstart.isContent⟩
  | @quoted double =>
      have hquote : isSkipped (quoteMark double) = false ∧ quoteMark double ≠ '-' ∧ quoteMark double ≠ '.' := by
        cases double <;> decide
      exact ⟨startsToken_cons hquote.1 _, isContent_cons hquote.2.1 hquote.2.2 _⟩

theorem IsScalar.length_pos (h : IsScalar least text t) : 0 < text.length := by
  cases h with
  | plain hflows =>
      obtain ⟨c, rest, rfl, -⟩ := hflows.exists_cons
      exact Nat.succ_pos _
  | quoted => exact Nat.succ_pos _

/-- Fewer blanks may be asked for. -/
theorem Flows.mono (h : Flows least text cs) {less : Nat} (hless : less ≤ least) : Flows less text cs := by
  induction h with
  | word hword => exact .word hword
  | blanks hword hn hhash _ ih => exact .blanks hword hn hhash ih
  | folded hword hn hleast hhash _ ih => exact .folded hword hn (Nat.le_trans hless hleast) hhash ih

theorem IsScalar.mono (h : IsScalar least text t) {less : Nat} (hless : less ≤ least) : IsScalar less text t := by
  cases h with
  | plain hflows hmark => exact .plain (hflows.mono hless) hmark
  | quoted hspells => exact .quoted hspells

namespace Scanner

variable {p : Place} {tokens : List Token} {columns : List Nat} {allowed : Bool} {spot : Option KeySpot} {n : Nat}

/-- The spot that is noted at a place outside of brackets. -/
def spotAt (allowed : Bool) (p : Place) (tokens : List Token) (columns : List Nat) : Option KeySpot :=
  if allowed then some ⟨tokens.length, columns.head? == some p.column, p.line, p.index, p.column⟩ else none

theorem noteSpot_eq : noteSpot ⟨p, tokens, columns, allowed, none, []⟩ =
    .ok ⟨p, tokens, columns, allowed, spotAt allowed p tokens columns, []⟩ := by
  cases allowed <;> rfl

theorem take_plain (h : StartsPlainly c after) (hrest : p.rest = c :: after) :
    take ⟨p, tokens, columns, allowed, spot, []⟩ c after = takePlain ⟨p, tokens, columns, allowed, spot, []⟩ := by
  obtain ⟨hblank, htab, -⟩ := isGap_iff.mp (isGap_of_isPlainChar h.plain)
  have hmark : ∀ mark : List Char, mark.isPrefixOf (c :: after) = false → p.startsMark mark = false := fun _ =>
    startsMark_eq_false hrest
  have hne : ∀ d ∈ "#,[]\x7b\x7d&*!|>'\"%@`".toList, (c == d) = false := fun d hd =>
    beq_eq_false_iff_ne.mpr (h.ne hd)
  -- a dash, a question mark or a colon is a mark only before a gap
  have hgap : ∀ d, d = '-' ∨ d = '?' ∨ d = ':' → (c == d && endsWord after) = false := fun d hd => by
    by_contra hboth
    simp only [Bool.not_eq_false, Bool.and_eq_true, beq_iff_eq] at hboth
    obtain ⟨rfl, hends⟩ := hboth
    have := h.dash hends
    tauto
  have hplain : startsPlain ⟨p, tokens, columns, allowed, spot, []⟩ c after = true := by
    rw [startsPlain]
    by_cases hc : c = '-' ∨ c = '?' ∨ c = ':'
    · have hends : endsWord after = false := by
        by_contra hends
        have := h.dash (by simpa using hends)
        tauto
      obtain rfl | rfl | rfl := hc <;> simp [hends, inFlow]
    · have hmem : "-?:,[]\x7b\x7d#&*!|>'\"%@`\t".toList.contains c = false := by
        by_contra hmem
        rw [Bool.not_eq_false, List.contains_iff_mem] at hmem
        have hall : ∀ d ∈ "-?:,[]\x7b\x7d#&*!|>'\"%@`\t".toList, (d = '-' ∨ d = '?' ∨ d = ':') ∨ d = '\t' ∨
            d ∈ "#,[]\x7b\x7d&*!|>'\"%@`".toList := by decide
        obtain hd | hd | hd := hall c hmem
        · exact hc hd
        · exact htab hd
        · exact h.ne hd rfl
      rw [hmem]
      rfl
  simp only [take, hmark _ h.separator.1, hmark _ h.separator.2, hplain, hne '%' (by decide), hne '[' (by decide),
    hne '\x7b' (by decide), hne ']' (by decide), hne '\x7d' (by decide), hne ',' (by decide), hne '*' (by decide),
    hne '&' (by decide), hne '!' (by decide), hne '|' (by decide), hne '>' (by decide), hne '\'' (by decide),
    hne '"' (by decide), hgap '-' (by decide), hgap '?' (by decide), hgap ':' (by decide), isMark, inFlow,
    List.isEmpty_nil, Bool.not_true, Bool.false_or, Bool.and_false, Bool.false_and, Bool.or_false, if_true,
    Bool.false_eq_true, if_false]

theorem take_quoted (double : Bool) (hrest : p.rest = quoteMark double :: after) :
    take ⟨p, tokens, columns, allowed, spot, []⟩ (quoteMark double) after =
      takeQuoted double ⟨p, tokens, columns, allowed, spot, []⟩ := by
  have hmark : ∀ mark : List Char, mark.head? ≠ some (quoteMark double) → mark ≠ [] → p.startsMark mark = false :=
    fun mark hhead hne => startsMark_eq_false hrest (isPrefixOf_of_head hhead hne after)
  unfold take
  rw [hmark ['-', '-', '-'] (by cases double <;> decide) (by decide),
    hmark ['.', '.', '.'] (by cases double <;> decide) (by decide)]
  cases double <;> simp [quoteMark]

/-- The least column of the further lines of plain text. -/
def leastColumn : List Nat → Nat
  | [] => 0
  | column :: _ => column + 1

theorem takePlain_eq {broken : Bool} {taken : Nat} (h : Flows (leastColumn columns) text cs)
    (hrest : p.rest = text ++ tail)
    (hcolumn : leastColumn columns ≤ p.column + 1) (hhash : text.head? ≠ some '#')
    (hend : ∀ s : Place, s.rest = tail → EndsPlain (leastColumn columns) tail broken taken s) :
    takePlain ⟨p, tokens, columns, allowed, none, []⟩ =
      .ok ⟨p.skip (text.length + taken), .scalar true (String.ofList cs) :: tokens, columns, broken,
        spotAt allowed p tokens columns, []⟩ := by
  have hplain := h.plain_eq hrest hcolumn hhash hend
  rw [takePlain, noteSpot_eq]
  simp only [bind, Except.bind, inFlow, List.isEmpty_nil, Bool.not_true, pure, Except.pure]
  cases columns with
  | nil =>
      rw [leastColumn] at hplain
      simp only [hplain]
  | cons column columns =>
      rw [leastColumn] at hplain
      simp only [hplain]

theorem takeQuoted_eq {double : Bool} (h : Spells double text cs)
    (hrest : p.rest = quoteMark double :: (text ++ quoteMark double :: tail)) (htail : tail.head? ≠ some '\'') :
    takeQuoted double ⟨p, tokens, columns, allowed, none, []⟩ =
      .ok ⟨p.skip (text.length + 2), .scalar false (String.ofList cs) :: tokens, columns, false,
        spotAt allowed p tokens columns, []⟩ := by
  have hquoted : quoted double p = .ok (cs, p.skip (text.length + 2)) := by
    rw [quoted, Place.next_eq_skip, h.quotedFrom_eq (fun _ => htail) [] (Place.rest_skip_one hrest) (by
      rw [hrest, List.length_cons, List.length_append]
      omega)]
    exact ok_skip rfl (by omega)
  rw [takeQuoted, takeNode, noteSpot_eq]
  simp only [bind, Except.bind, hquoted, Except.map, pure, Except.pure]

/-- A scalar is taken as its token, if what follows it ends plain text. -/
theorem take_scalar {broken : Bool} {taken : Nat} (h : IsScalar (leastColumn columns) text t)
    (hrest : p.rest = text ++ tail) (hcolumn : leastColumn columns ≤ p.column + 1)
    (htail : tail.head? ≠ some '\'') (hends : endsWord tail = true ∨ tail.head? = some ':')
    (hend : ∀ s : Place, s.rest = tail → EndsPlain (leastColumn columns) tail broken taken s) :
    ∃ c after, p.rest = c :: after ∧
      (take ⟨p, tokens, columns, allowed, none, []⟩ c after =
        .ok ⟨p.skip (text.length + taken), t :: tokens, columns, broken, spotAt allowed p tokens columns, []⟩ ∨
      take ⟨p, tokens, columns, allowed, none, []⟩ c after =
        .ok ⟨p.skip text.length, t :: tokens, columns, false, spotAt allowed p tokens columns, []⟩) := by
  cases h with
  | @plain text cs hflows hmark =>
      obtain ⟨c, after, heq, hstart⟩ := hflows.exists_start hmark hends
      obtain ⟨d, rest, rfl, -⟩ := hflows.exists_cons
      obtain ⟨rfl, -⟩ := List.cons.inj heq
      have hplace : p.rest = d :: after := hrest.trans heq
      have hhash : (d :: rest).head? ≠ some '#' := fun h => hstart.ne (by decide) (Option.some.inj h)
      refine ⟨d, after, hplace, .inl ?_⟩
      rw [take_plain hstart hplace, takePlain_eq hflows hrest hcolumn hhash hend]
  | @quoted double text cs hspells =>
      have hstart : p.rest = quoteMark double :: (text ++ quoteMark double :: tail) := by
        rw [hrest, List.cons_append, List.append_assoc]
        rfl
      refine ⟨quoteMark double, _, hstart, .inr ?_⟩
      rw [take_quoted double hstart, takeQuoted_eq hspells hstart htail]
      simp

end Scanner

end Runbook.Yaml
