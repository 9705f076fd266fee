import Mathlib.Tactic.Common
import Runbook.Json.Reader
import Runbook.Proofs.Double.Shortest
import Runbook.Proofs.Text.Span

/-!
# Numerals

Every number that is finite is written as a numeral (`exists_numeral_of_double`), and so
is every integer. A numeral that does not run on in the text after it is read as its
parts (`numeral?_chars`), and its decimal is the one that was written, up to zeros at
the end.
-/

namespace Runbook.Json

/-! ## Digits -/

theorem digitsValue_eq (digits : List Char) : digitsValue digits = Nat.ofDigitChars 10 digits 0 := rfl

theorem digitsValue_toDigits (n : Nat) : digitsValue (Nat.toDigits 10 n) = n := by
  rw [digitsValue_eq, Nat.ofDigitChars_ten_toDigits]

/-- Zeros in front count for nothing. -/
theorem digitsValue_zeros_append (k : Nat) (digits : List Char) :
    digitsValue (Double.zeros k ++ digits) = digitsValue digits := by
  rw [digitsValue_eq, Nat.ofDigitChars_append, Double.zeros, Nat.ofDigitChars_replicate_zero, Nat.mul_zero]
  rfl

theorem digitsValue_append_zeros (digits : List Char) (k : Nat) :
    digitsValue (digits ++ Double.zeros k) = digitsValue digits * 10 ^ k := by
  rw [digitsValue_eq, Nat.ofDigitChars_append, Double.zeros, Nat.ofDigitChars_replicate_zero, Nat.mul_comm]
  rfl

/-- Digits, of which there is at least one. -/
def AreDigits (digits : List Char) : Prop := digits ≠ [] ∧ ∀ c ∈ digits, c.isDigit = true

theorem areDigits_toDigits (n : Nat) : AreDigits (Nat.toDigits 10 n) :=
  ⟨Nat.toDigits_ne_nil, fun _ hc => Nat.isDigit_of_mem_toDigits (by decide) (by decide) hc⟩

theorem isDigit_of_mem_zeros {k : Nat} {c : Char} (h : c ∈ Double.zeros k) : c.isDigit = true := by
  obtain rfl := List.eq_of_mem_replicate h
  rfl

/-- The first digit is zero only for zero. -/
theorem head?_toDigits_ne_zero {n : Nat} (hn : 0 < n) : (Nat.toDigits 10 n).head? ≠ some '0' := by
  induction n using Nat.base_induction 10 (by decide) with
  | single m hm =>
      rw [Nat.toDigits_of_lt_base hm]
      have : ∀ m : Fin 10, 0 < m.val → some m.val.digitChar ≠ some '0' := by decide
      exact this ⟨m, hm⟩ hn
  | digit m k hk hm ih =>
      rw [← Nat.toDigits_append_toDigits (by decide) hm hk, List.head?_append_of_ne_nil _ Nat.toDigits_ne_nil]
      exact ih hm

/-! ## Parts -/

namespace Numeral

/-- A numeral as it is written. -/
def chars (n : Numeral) : List Char :=
  (if n.negative then ['-'] else []) ++ n.whole ++
    (match n.fraction with
     | none => []
     | some digits => '.' :: digits) ++
    match n.exponent with
    | none => []
    | some (negative, digits) => 'e' :: (if negative then '-' else '+') :: digits

/-- Each part has digits, and no zero stands in front of others. -/
structure Proper (n : Numeral) : Prop where
  whole : AreDigits n.whole
  leading : n.whole.head? = some '0' → n.whole = ['0']
  fraction : ∀ digits, n.fraction = some digits → AreDigits digits
  exponent : ∀ negative digits, n.exponent = some (negative, digits) → AreDigits digits

/-- The power of ten in the exponent. -/
def shift (n : Numeral) : Int :=
  match n.exponent with
  | none => 0
  | some (negative, digits) => if negative then -(digitsValue digits : Int) else digitsValue digits

/-- The decimal that a numeral stands for. -/
def decimal (n : Numeral) : Decimal :=
  ⟨digitsValue (n.whole ++ n.fraction.getD []), n.shift - (n.fraction.getD []).length⟩

/-- Whether a numeral is not that of an integer. -/
def isFloat (n : Numeral) : Bool := n.fraction.isSome || n.exponent.isSome

theorem value_of_isFloat {n : Numeral} (h : n.isFloat = true) :
    n.value = .ok (.float (n.decimal.toDouble n.negative)) := by
  obtain ⟨negative, whole, fraction, exponent⟩ := n
  cases fraction <;> cases exponent <;> first | rfl | cases h

end Numeral

/-! ## Reading -/

/-- What may follow a numeral without changing it. -/
def EndsNumeral (rest : List Char) : Prop :=
  ∀ c, rest.head? = some c → c.isDigit = false ∧ c ≠ '.' ∧ c ≠ 'e' ∧ c ≠ 'E'

theorem EndsNumeral.stops {rest : List Char} (h : EndsNumeral rest) : Text.Stops Char.isDigit rest :=
  fun c hc => (h c hc).1

theorem endsNumeral_cons {c : Char} (h : c.isDigit = false ∧ c ≠ '.' ∧ c ≠ 'e' ∧ c ≠ 'E') (rest : List Char) :
    EndsNumeral (c :: rest) := fun _ hc => by
  obtain rfl := Option.some.inj hc
  exact h

section Parts

variable {digits rest : List Char}

theorem takeWhile_digits (h : AreDigits digits) (hrest : Text.Stops Char.isDigit rest) :
    (digits ++ rest).takeWhile Char.isDigit = digits := Text.takeWhile_append h.2 hrest

theorem fraction?_point (h : AreDigits digits) (hrest : Text.Stops Char.isDigit rest) :
    fraction? ('.' :: (digits ++ rest)) = some (digits, rest) := by
  simp [fraction?, takeWhile_digits h hrest, h.1]

theorem fraction?_eq_none (h : rest.head? ≠ some '.') : fraction? rest = none := by
  unfold fraction?
  split
  · exact absurd rfl h
  · rfl

theorem exponent?_e (negative : Bool) (h : AreDigits digits) (hrest : Text.Stops Char.isDigit rest) :
    exponent? ('e' :: (if negative then '-' else '+') :: (digits ++ rest)) = some ((negative, digits), rest) := by
  cases negative <;> simp [exponent?, takeWhile_digits h hrest, h.1]

theorem exponent?_eq_none (h : rest.head? ≠ some 'e') (h' : rest.head? ≠ some 'E') : exponent? rest = none := by
  cases rest with
  | nil => rfl
  | cons c rest =>
      have hc : c ≠ 'e' ∧ c ≠ 'E' := by simpa using And.intro h h'
      simp [exponent?, hc]

end Parts

namespace Numeral

variable {n : Numeral} {rest : List Char}

/-- The exponent and what follows it. -/
def exponentChars (n : Numeral) : List Char :=
  match n.exponent with
  | none => []
  | some (negative, digits) => 'e' :: (if negative then '-' else '+') :: digits

/-- The fraction with its point. -/
def fractionChars (n : Numeral) : List Char :=
  match n.fraction with
  | none => []
  | some digits => '.' :: digits

theorem chars_eq (n : Numeral) : n.chars =
    (if n.negative then ['-'] else []) ++ (n.whole ++ (n.fractionChars ++ n.exponentChars)) := by
  simp only [chars, fractionChars, exponentChars, List.append_assoc]

theorem head?_exponentChars_append (hrest : EndsNumeral rest) {c : Char}
    (hc : (n.exponentChars ++ rest).head? = some c) : c.isDigit = false ∧ c ≠ '.' := by
  unfold exponentChars at hc
  split at hc
  · exact ⟨(hrest c hc).1, (hrest c hc).2.1⟩
  · obtain rfl := Option.some.inj hc
    decide

theorem head?_fractionChars_append (hrest : EndsNumeral rest) {c : Char}
    (hc : (n.fractionChars ++ (n.exponentChars ++ rest)).head? = some c) : c.isDigit = false := by
  unfold fractionChars at hc
  split at hc
  · exact (head?_exponentChars_append hrest hc).1
  · obtain rfl := Option.some.inj hc
    rfl

theorem fraction?_fractionChars (hn : n.Proper) (hrest : EndsNumeral rest) :
    fraction? (n.fractionChars ++ (n.exponentChars ++ rest)) =
      n.fraction.map fun digits => (digits, n.exponentChars ++ rest) := by
  have hstop : Text.Stops Char.isDigit (n.exponentChars ++ rest) := fun c hc =>
    (head?_exponentChars_append hrest hc).1
  cases hfraction : n.fraction with
  | none =>
      rw [fractionChars, hfraction]
      exact fraction?_eq_none fun h => (head?_exponentChars_append hrest h).2 rfl
  | some digits =>
      rw [fractionChars, hfraction]
      exact fraction?_point (hn.fraction digits hfraction) hstop

theorem exponent?_exponentChars (hn : n.Proper) (hrest : EndsNumeral rest) :
    exponent? (n.exponentChars ++ rest) = n.exponent.map fun e => (e, rest) := by
  cases hexponent : n.exponent with
  | none =>
      rw [exponentChars, hexponent]
      exact exponent?_eq_none (fun h => (hrest _ h).2.2.1 rfl) fun h => (hrest _ h).2.2.2 rfl
  | some e =>
      obtain ⟨negative, digits⟩ := e
      rw [exponentChars, hexponent]
      exact exponent?_e negative (hn.exponent negative digits hexponent) hrest.stops

theorem isDigit_of_head?_whole (hn : n.Proper) {c : Char} (tail : List Char)
    (hc : (n.whole ++ tail).head? = some c) : c.isDigit = true := by
  cases hwhole : n.whole with
  | nil => exact absurd hwhole hn.whole.1
  | cons d ds =>
      rw [hwhole] at hc
      obtain rfl := Option.some.inj hc
      exact hn.whole.2 d (by rw [hwhole]; exact List.mem_cons_self)

/-- A numeral is read as its parts. -/
theorem numeral?_chars (hn : n.Proper) (hrest : EndsNumeral rest) :
    numeral? (n.chars ++ rest) = some (n, rest) := by
  have htail : Text.Stops Char.isDigit (n.fractionChars ++ (n.exponentChars ++ rest)) := fun _ hc =>
    head?_fractionChars_append hrest hc
  have hdigits := takeWhile_digits hn.whole htail
  have hwhole : (if n.whole.head? = some '0' then ['0'] else n.whole) = n.whole := by
    split
    · next h => exact (hn.leading h).symm
    · rfl
  have hunsigned : ∀ more, n.whole ++ (n.fractionChars ++ (n.exponentChars ++ rest)) ≠ '-' :: more :=
    fun more h => absurd (isDigit_of_head?_whole hn _ (by rw [h]; rfl)) (by decide)
  have hempty : ¬ n.whole.isEmpty = true := by simpa using hn.whole.1
  have hfraction := fraction?_fractionChars hn hrest
  have hexponent := exponent?_exponentChars hn hrest
  have htext : n.chars ++ rest = (if n.negative then ['-'] else []) ++
      (n.whole ++ (n.fractionChars ++ (n.exponentChars ++ rest))) := by
    simp only [chars_eq, List.append_assoc]
  rw [htext]
  obtain ⟨negative, whole, fraction, exponent⟩ := n
  cases negative
  case' true => rw [if_pos rfl, List.singleton_append, numeral?]
  case' false => rw [if_neg Bool.false_ne_true, List.nil_append, numeral?.eq_2 _ hunsigned]
  all_goals
    dsimp only at hdigits hwhole hempty hfraction hexponent ⊢
    rw [hdigits, hwhole, if_neg hempty, List.drop_left, hfraction]
    cases fraction with
    | none =>
        dsimp only [fractionChars, Option.map_none, List.nil_append]
        rw [hexponent]
        cases exponent <;> rfl
    | some digits =>
        dsimp only [Option.map_some]
        rw [hexponent]
        cases exponent <;> rfl

end Numeral

/-! ## Writing -/

open Double (zeros Style)

/-- The digits of an exponent, of which there are at least two. -/
def exponentDigits (e : Int) : List Char :=
  let digits := Nat.toDigits 10 e.natAbs
  if digits.length < 2 then '0' :: digits else digits

theorem toList_exponentText (e : Int) : (Double.exponentText e).toList =
    (if decide (e < 0) then '-' else '+') :: exponentDigits e := by
  have hsign : (if e < 0 then "-" else "+" : String).toList = [if decide (e < 0) then '-' else '+'] := by
    by_cases h : e < 0 <;> simp [h]
  have hdigits : (if (toString e.natAbs).length < 2 then "0" ++ toString e.natAbs else toString e.natAbs).toList =
      exponentDigits e := by
    rw [exponentDigits, Nat.toString_eq_ofList_toDigits, String.length_ofList]
    split
    · rw [String.toList_append, String.toList_ofList, String.toList_ofList]
      rfl
    · rw [String.toList_ofList]
  rw [Double.exponentText, String.toList_append, hsign, hdigits]
  rfl

theorem digitsValue_exponentDigits (e : Int) : digitsValue (exponentDigits e) = e.natAbs := by
  rw [exponentDigits]
  split
  · exact (digitsValue_zeros_append 1 _).trans (digitsValue_toDigits _)
  · exact digitsValue_toDigits _

theorem areDigits_exponentDigits (e : Int) : AreDigits (exponentDigits e) := by
  rw [exponentDigits]
  split
  · exact ⟨List.cons_ne_nil _ _, List.forall_mem_cons.mpr ⟨rfl, (areDigits_toDigits _).2⟩⟩
  · exact areDigits_toDigits _

namespace Numeral

/-- The numeral of digits in a style, with the point behind so many of them. -/
def ofDigits (style : Style) (digits : List Char) (point : Int) : Numeral :=
  if -4 < point && point ≤ 16 then
    if point ≤ 0 then ⟨false, ['0'], some (zeros (-point).toNat ++ digits), none⟩
    else
      let whole := point.toNat
      if digits.length ≤ whole then ⟨false, digits ++ zeros (whole - digits.length), some ['0'], none⟩
      else ⟨false, digits.take whole, some (digits.drop whole), none⟩
  else
    let fraction :=
      match digits.drop 1 with
      | [] => if style.fractionBeforeExponent then some ['0'] else none
      | rest => some rest
    ⟨false, digits.take 1, fraction, some (decide (point - 1 < 0), exponentDigits (point - 1))⟩

/-- Where the point of a decimal stands. -/
def pointOf (x : Decimal) : Int :=
  if x.digits = 0 then 1 else (Nat.toDigits 10 x.digits).length + x.scale

theorem toList_decimalText (style : Style) (x : Decimal) :
    (Double.decimalText style x).toList = (ofDigits style (Nat.toDigits 10 x.digits) (pointOf x)).chars := by
  unfold Double.decimalText ofDigits pointOf
  dsimp only
  generalize Nat.toDigits 10 x.digits = digits
  generalize (if x.digits = 0 then (1 : Int) else digits.length + x.scale) = point
  split
  · split
    · simp [chars]
    · split <;> simp [chars]
  · simp only [String.toList_append, String.toList_ofList, toList_exponentText, chars]
    cases digits.drop 1 with
    | nil => cases style.fractionBeforeExponent <;> simp
    | cons d ds => simp

section OfDigits

variable {style : Style} {digits : List Char} {point : Int}

/-- **The four forms of a numeral**: the point stands before all digits, behind all of them, among them, or
there is an exponent. -/
theorem ofDigits_cases {P : Numeral → Prop} (style : Style) (digits : List Char) (point : Int)
    (before : point ≤ 0 → P ⟨false, ['0'], some (zeros (-point).toNat ++ digits), none⟩)
    (behind : 0 < point → digits.length ≤ point.toNat →
      P ⟨false, digits ++ zeros (point.toNat - digits.length), some ['0'], none⟩)
    (among : 0 < point → point.toNat < digits.length →
      P ⟨false, digits.take point.toNat, some (digits.drop point.toNat), none⟩)
    (raised : ∀ fraction, (fraction = some (digits.drop 1) ∧ digits.drop 1 ≠ [] ∨
        digits.drop 1 = [] ∧ fraction = if style.fractionBeforeExponent then some ['0'] else none) →
      P ⟨false, digits.take 1, fraction, some (decide (point - 1 < 0), exponentDigits (point - 1))⟩) :
    P (ofDigits style digits point) := by
  unfold ofDigits
  split
  · split
    case isTrue hpoint => exact before hpoint
    case isFalse hpoint =>
      dsimp only
      split
      case isTrue hlong => exact behind (Int.not_le.mp hpoint) hlong
      case isFalse hshort => exact among (Int.not_le.mp hpoint) (Nat.not_le.mp hshort)
  · dsimp only
    split
    · next hnone => exact raised _ (.inr ⟨hnone, rfl⟩)
    · next hsome => exact raised _ (.inl ⟨rfl, hsome⟩)

theorem isFloat_ofDigits : (ofDigits style digits point).isFloat = true := by
  refine ofDigits_cases (P := fun n => n.isFloat = true) style digits point (fun _ => rfl) (fun _ _ => rfl)
    (fun _ _ => rfl) fun _ _ => ?_
  exact Bool.or_true _

theorem fraction_ofDigits (h : style.fractionBeforeExponent = true) :
    (ofDigits style digits point).fraction.isSome = true := by
  refine ofDigits_cases (P := fun n => n.fraction.isSome = true) style digits point (fun _ => rfl) (fun _ _ => rfl)
    (fun _ _ => rfl) ?_
  rintro fraction (⟨rfl, -⟩ | ⟨-, rfl⟩)
  · rfl
  · rw [if_pos h]
    rfl

theorem negative_ofDigits : (ofDigits style digits point).negative = false :=
  ofDigits_cases (P := fun n => n.negative = false) style digits point (fun _ => rfl) (fun _ _ => rfl)
    (fun _ _ => rfl) fun _ _ => rfl

/-- The value of an exponent is where the point stands behind the first digit. -/
theorem signed_exponentDigits (e : Int) :
    (if decide (e < 0) then -(digitsValue (exponentDigits e) : Int) else digitsValue (exponentDigits e)) = e := by
  rw [digitsValue_exponentDigits]
  by_cases hneg : e < 0
  · rw [if_pos (decide_eq_true hneg)]
    omega
  · rw [if_neg (by simpa using hneg)]
    omega

/-- The decimal of a numeral is that of its digits, up to zeros at the end. -/
theorem padded_ofDigits (h : digits ≠ []) :
    Decimal.Padded ⟨digitsValue digits, point - digits.length⟩ (ofDigits style digits point).decimal := by
  have hlength : 0 < digits.length := List.length_pos_iff.mpr h
  refine ofDigits_cases (P := fun n => Decimal.Padded ⟨digitsValue digits, point - digits.length⟩ n.decimal)
    style digits point ?before ?behind ?among ?raised
  case before =>
    intro hpoint
    refine ⟨0, ?_, ?_⟩
    · exact (digitsValue_zeros_append 1 _).trans ((digitsValue_zeros_append _ _).trans (Nat.mul_one _).symm)
    · simp only [decimal, shift, Option.getD_some, List.length_append, zeros, List.length_replicate]
      omega
  case behind =>
    intro hpoint hlong
    refine ⟨point.toNat - digits.length + 1, ?_, ?_⟩
    · rw [Nat.pow_succ, ← Nat.mul_assoc, ← digitsValue_append_zeros]
      exact (digitsValue_append_zeros _ 1).trans (by rw [Nat.pow_one])
    · simp only [decimal, shift, Option.getD_some, List.length_singleton]
      omega
  case among =>
    intro hpoint hshort
    refine ⟨0, ?_, ?_⟩
    · simp [decimal]
    · simp only [decimal, shift, Option.getD_some, List.length_drop]
      omega
  case raised =>
    have hshift := signed_exponentDigits (point - 1)
    rintro fraction (⟨rfl, -⟩ | ⟨hone, rfl⟩)
    · refine ⟨0, ?_, ?_⟩
      · simp only [decimal, Option.getD_some, List.take_append_drop, Nat.pow_zero, Nat.mul_one]
      · simp only [decimal, shift, hshift, Option.getD_some, List.length_drop]
        omega
    · -- a single digit, with a zero behind the point or without a point
      have hlast : digits.length = 1 := by
        have := congrArg List.length hone
        rw [List.length_drop, List.length_nil] at this
        omega
      have htake : digits.take 1 = digits := List.take_of_length_le (by omega)
      split
      · refine ⟨1, ?_, ?_⟩
        · rw [← digitsValue_append_zeros]
          simp only [decimal, htake, Option.getD_some]
          rfl
        · simp only [decimal, shift, hshift, Option.getD_some, List.length_singleton]
          omega
      · refine ⟨0, ?_, ?_⟩
        · simp [decimal, htake]
        · simp only [decimal, shift, hshift, Option.getD_none, List.length_nil]
          omega

end OfDigits

theorem areDigits_take {digits : List Char} (h : AreDigits digits) {n : Nat} (hn : 0 < n) :
    AreDigits (digits.take n) :=
  ⟨by simpa [h.1] using hn.ne', fun _ hc => h.2 _ (List.mem_of_mem_take hc)⟩

theorem areDigits_drop {digits : List Char} (h : AreDigits digits) {n : Nat} (hn : n < digits.length) :
    AreDigits (digits.drop n) :=
  ⟨by simpa using hn, fun _ hc => h.2 _ (List.mem_of_mem_drop hc)⟩

theorem areDigits_append {digits more : List Char} (h : AreDigits digits) (hmore : ∀ c ∈ more, c.isDigit = true) :
    AreDigits (digits ++ more) :=
  ⟨by simp [h.1], fun _ hc => (List.mem_append.mp hc).elim (h.2 _) (hmore _)⟩

theorem areDigits_zero : AreDigits ['0'] := ⟨by decide, by decide⟩

/-- No zero stands in front of other digits, for only zero starts with one. -/
theorem proper_ofDigits (style : Style) (x : Decimal) :
    (ofDigits style (Nat.toDigits 10 x.digits) (pointOf x)).Proper := by
  have hdigits := areDigits_toDigits x.digits
  have hlength : 0 < (Nat.toDigits 10 x.digits).length := List.length_pos_iff.mpr hdigits.1
  have hzero : (Nat.toDigits 10 x.digits).head? = some '0' → Nat.toDigits 10 x.digits = ['0'] ∧ pointOf x = 1 :=
    fun h => by
      have hx : x.digits = 0 := by
        by_contra hne
        exact head?_toDigits_ne_zero (Nat.pos_of_ne_zero hne) h
      exact ⟨by rw [hx, Nat.toDigits_zero], by rw [pointOf, if_pos hx]⟩
  generalize pointOf x = point at hzero ⊢
  generalize Nat.toDigits 10 x.digits = digits at hdigits hlength hzero ⊢
  refine ofDigits_cases (P := Proper) style digits point ?before ?behind ?among ?raised
  case before =>
    refine fun _ => ⟨areDigits_zero, fun _ => rfl, ?_, fun _ _ h => nomatch h⟩
    rintro _ ⟨⟩
    refine ⟨by simp [hdigits.1], fun c hc => ?_⟩
    exact (List.mem_append.mp hc).elim isDigit_of_mem_zeros (hdigits.2 c)
  case behind =>
    intro _ _
    refine ⟨areDigits_append hdigits fun _ => isDigit_of_mem_zeros, fun h => ?_, ?_, fun _ _ h => nomatch h⟩
    · rw [List.head?_append_of_ne_nil _ hdigits.1] at h
      obtain ⟨rfl, rfl⟩ := hzero h
      rfl
    · rintro _ ⟨⟩
      exact areDigits_zero
  case among =>
    intro hpoint hshort
    refine ⟨areDigits_take hdigits (by omega), fun h => ?_, ?_, fun _ _ h => nomatch h⟩
    · rw [List.head?_take, if_neg (by omega)] at h
      obtain ⟨rfl, rfl⟩ := hzero h
      exact absurd hshort (Nat.lt_irrefl 1)
    · rintro _ ⟨⟩
      exact areDigits_drop hdigits hshort
  case raised =>
    intro fraction hfraction
    refine ⟨areDigits_take hdigits Nat.one_pos, fun h => ?_, ?_, ?_⟩
    · rw [List.head?_take, if_neg Nat.one_ne_zero] at h
      obtain ⟨rfl, -⟩ := hzero h
      rfl
    · rintro rest ⟨⟩
      obtain ⟨h, hrest⟩ | ⟨-, h⟩ := hfraction
      · obtain rfl := Option.some.inj h
        exact ⟨hrest, fun c hc => hdigits.2 c (List.mem_of_mem_drop hc)⟩
      · split at h
        · obtain rfl := Option.some.inj h
          exact areDigits_zero
        · cases h
    · rintro _ _ ⟨⟩
      exact areDigits_exponentDigits _

/-- The digits of a decimal stand in front of its scale. -/
theorem pointOf_sub_length {x : Decimal} (h : x.digits = 0 → x.scale = 0) :
    pointOf x - (Nat.toDigits 10 x.digits).length = x.scale := by
  by_cases hx : x.digits = 0
  · rw [pointOf, if_pos hx, hx, Nat.toDigits_zero, h hx]
    rfl
  · rw [pointOf, if_neg hx]
    omega

end Numeral

theorem scale_shortest (rank : Fin Double.ranks) (h : (Double.shortest rank).digits = 0) :
    (Double.shortest rank).scale = 0 := by
  have hrank : rank.val = 0 :=
    (Double.nearestRank_shortest rank.isLt).symm.trans (Decimal.nearestRank_of_digits_eq_zero h)
  rw [Double.shortest, if_pos hrank]

/-- A number that is finite is written as a numeral with a fraction or an exponent, and is the number that
the numeral stands for. -/
theorem exists_numeral_of_double (style : Style) {x : Double} (hx : x.isFinite = true) :
    ∃ n : Numeral, n.Proper ∧ n.isFloat = true ∧ (x.text style).toList = n.chars ∧
      n.decimal.toDouble n.negative = x ∧
      (style.fractionBeforeExponent = true → n.fraction.isSome = true) := by
  cases x with
  | nan | infinite => cases hx
  | finite negative rank =>
      let n := Numeral.ofDigits style (Nat.toDigits 10 (Double.shortest rank).digits)
        (Numeral.pointOf (Double.shortest rank))
      refine ⟨{ n with negative := negative }, ?_, ?_, ?_, ?_, ?_⟩
      · obtain ⟨hwhole, hleading, hfraction, hexponent⟩ := Numeral.proper_ofDigits style (Double.shortest rank)
        exact ⟨hwhole, hleading, hfraction, hexponent⟩
      · exact Numeral.isFloat_ofDigits
      · rw [Double.text, String.toList_append, Numeral.toList_decimalText, Numeral.chars_eq, Numeral.chars_eq,
          Numeral.negative_ofDigits]
        cases negative <;> rfl
      · have hpadded : Decimal.Padded (Double.shortest rank) n.decimal := by
          have := @Numeral.padded_ofDigits style _ (Numeral.pointOf (Double.shortest rank))
            (areDigits_toDigits (Double.shortest rank).digits).1
          rwa [digitsValue_toDigits, Numeral.pointOf_sub_length (scale_shortest rank)] at this
        rw [← Double.toDouble_shortest negative rank]
        exact congrArg (Double.ofRank negative) hpadded.nearestRank_eq
      · exact fun h => Numeral.fraction_ofDigits h

/-- The numeral of an integer. -/
def Numeral.ofInt (i : Int) : Numeral := ⟨decide (i < 0), Nat.toDigits 10 i.natAbs, none, none⟩

theorem Numeral.proper_ofInt (i : Int) : (Numeral.ofInt i).Proper where
  whole := areDigits_toDigits _
  leading h := by
    have hi : i.natAbs = 0 := by
      by_contra hne
      exact head?_toDigits_ne_zero (Nat.pos_of_ne_zero hne) h
    rw [ofInt, hi, Nat.toDigits_zero]
  fraction _ h := nomatch h
  exponent _ _ h := nomatch h

theorem Numeral.toList_ofInt (i : Int) : (toString i).toList = (Numeral.ofInt i).chars := by
  cases i with
  | ofNat n =>
      change (toString n).toList = _
      rw [Nat.toString_eq_ofList_toDigits, String.toList_ofList]
      simp [ofInt, chars]
  | negSucc n =>
      change ("-" ++ toString (n + 1)).toList = _
      rw [Nat.toString_eq_ofList_toDigits, String.toList_append, String.toList_ofList]
      simp [ofInt, chars, Int.negSucc_lt_zero]

theorem Numeral.value_ofInt {i : Int} (h : Decimal.width i.natAbs ≤ digitLimit) :
    (Numeral.ofInt i).value = .ok (.int i) := by
  have hshort : ¬ digitLimit < (Nat.toDigits 10 i.natAbs).length := Nat.not_lt.mpr h
  rw [ofInt, value]
  dsimp only
  rw [if_neg hshort, digitsValue_toDigits]
  congr 2
  by_cases hi : i < 0
  · rw [if_pos (decide_eq_true hi)]
    omega
  · rw [if_neg (by simpa using hi)]
    omega

end Runbook.Json
