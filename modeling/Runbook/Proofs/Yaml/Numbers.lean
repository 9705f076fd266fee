import Runbook.Proofs.Json.Numeral
import Runbook.Proofs.Json.Reread
import Runbook.Yaml.Schema
import Runbook.Yaml.Writer

/-!
# Numbers

The numerals of integers and of finite numbers have the forms of their types
(`kindOf_int`, `kindOf_fraction`) and are read as the numbers that they stand for
(`readInt_int`, `readFloat_chars`).
-/

namespace Runbook.Yaml

open Json (Numeral AreDigits)

/-- The digits are those of the numbers below ten. -/
theorem exists_of_isDigit {c : Char} (h : c.isDigit = true) : ∃ i : Fin 10, c = Char.ofNat (48 + i.val) := by
  simp only [Char.isDigit, Bool.and_eq_true, decide_eq_true_eq] at h
  have hlow : 48 ≤ c.toNat := h.1
  have hhigh : c.toNat ≤ 57 := h.2
  exact ⟨⟨c.toNat - 48, by omega⟩, by rw [Nat.add_sub_cancel' hlow, Char.ofNat_toNat]⟩

/-- The characters of numerals. -/
def numeralChars : List Char := "0123456789-+.e".toList

theorem mem_numeralChars_of_isDigit {c : Char} (h : c.isDigit = true) : c ∈ numeralChars := by
  have hdigit : ∀ i : Fin 10, Char.ofNat (48 + i.val) ∈ numeralChars := by decide
  obtain ⟨i, rfl⟩ := exists_of_isDigit h
  exact hdigit i

section Numerals

variable {n : Numeral}

/-- A numeral without its sign. -/
def body (n : Numeral) : List Char := n.whole ++ (n.fractionChars ++ n.exponentChars)

theorem chars_eq_body (n : Numeral) : n.chars = (if n.negative then ['-'] else []) ++ body n := n.chars_eq

theorem exists_body (hn : n.Proper) : ∃ d rest, body n = d :: rest ∧ d.isDigit = true := by
  obtain ⟨d, ds, hwhole⟩ := List.exists_cons_of_ne_nil hn.whole.1
  exact ⟨d, _, by rw [body, hwhole, List.cons_append], hn.whole.2 d (hwhole ▸ List.mem_cons_self)⟩

theorem mem_body (hn : n.Proper) : ∀ c ∈ body n, c ∈ numeralChars := by
  have hdigits : ∀ digits, AreDigits digits → ∀ c ∈ digits, c ∈ numeralChars := fun digits h c hc =>
    mem_numeralChars_of_isDigit (h.2 c hc)
  refine List.forall_mem_append.mpr ⟨hdigits _ hn.whole, List.forall_mem_append.mpr ⟨?_, ?_⟩⟩
  · unfold Numeral.fractionChars
    split
    · simp
    · next digits h => exact List.forall_mem_cons.mpr ⟨by decide, hdigits _ (hn.fraction _ h)⟩
  · unfold Numeral.exponentChars
    split
    · simp
    · next negative digits h =>
      refine List.forall_mem_cons.mpr ⟨by decide, List.forall_mem_cons.mpr ⟨?_, hdigits _ (hn.exponent _ _ h)⟩⟩
      cases negative <;> decide

theorem mem_chars (hn : n.Proper) : ∀ c ∈ n.chars, c ∈ numeralChars := by
  rw [chars_eq_body]
  refine List.forall_mem_append.mpr ⟨?_, mem_body hn⟩
  cases n.negative <;> decide

/-! ## Forms -/

theorem unsigned_chars (hn : n.Proper) : Schema.unsigned n.chars = body n := by
  obtain ⟨d, rest, hbody, hd⟩ := exists_body hn
  rw [chars_eq_body]
  cases n.negative with
  | true => rfl
  | false =>
      rw [if_neg Bool.false_ne_true, List.nil_append, hbody]
      unfold Schema.unsigned
      split
      · next h => exact absurd (List.cons.inj h).1 (Json.ne_of_isDigit hd rfl)
      · next h => exact absurd (List.cons.inj h).1 (Json.ne_of_isDigit hd rfl)
      · rfl

theorem isLoose_of_isDigit {c : Char} (h : c.isDigit = true) : Schema.isLoose Char.isDigit c = true := by
  rw [Schema.isLoose, h, Bool.true_or]

theorem stops_exponentChars (n : Numeral) : Text.Stops (Schema.isLoose Char.isDigit) n.exponentChars := by
  intro c hc
  unfold Numeral.exponentChars at hc
  split at hc
  · cases hc
  · obtain rfl := Option.some.inj hc
    rfl

theorem looseDigits?_body (hn : n.Proper) :
    Schema.looseDigits? (body n) = some (n.fractionChars ++ n.exponentChars) := by
  obtain ⟨d, ds, hwhole⟩ := List.exists_cons_of_ne_nil hn.whole.1
  obtain ⟨hd, hds⟩ := List.forall_mem_cons.mp (hwhole ▸ hn.whole.2)
  have hstops : Text.Stops (Schema.isLoose Char.isDigit) (n.fractionChars ++ n.exponentChars) := by
    intro c hc
    unfold Numeral.fractionChars at hc
    split at hc
    · exact stops_exponentChars n c hc
    · obtain rfl := Option.some.inj hc
      rfl
  rw [body, hwhole, List.cons_append, Schema.looseDigits?, if_pos hd,
    Text.dropWhile_append (fun c hc => isLoose_of_isDigit (hds c hc)) hstops]

theorem isExponent_exponentChars (hn : n.Proper) : Schema.isExponent n.exponentChars = true := by
  unfold Numeral.exponentChars
  split
  · rfl
  · next negative digits h =>
    obtain ⟨hne, hdigits⟩ := hn.exponent _ _ h
    have hall : digits.all Char.isDigit = true := List.all_eq_true.mpr hdigits
    cases negative <;> simp [Schema.isExponent, hne, hall]

/-- What a numeral starts with, with its sign or without it. -/
def StartsNumeral (cs : List Char) : Prop := ∃ c rest, cs = c :: rest ∧ (c.isDigit = true ∨ c = '-')

theorem startsNumeral_body (hn : n.Proper) : StartsNumeral (body n) := by
  obtain ⟨d, rest, hbody, hd⟩ := exists_body hn
  exact ⟨d, rest, hbody, .inl hd⟩

theorem startsNumeral_chars (hn : n.Proper) : StartsNumeral n.chars := by
  rw [chars_eq_body]
  cases n.negative with
  | true => exact ⟨'-', _, rfl, .inr rfl⟩
  | false => exact startsNumeral_body hn

/-- No word starts as a numeral does. -/
def areWords (words : List String) : Bool :=
  words.all fun word => word.toList.head?.any fun c => !c.isDigit && c != '-'

theorem contains_numeral {cs : List Char} (hcs : StartsNumeral cs) {words : List String}
    (hwords : areWords words = true) : words.contains (String.ofList cs) = false := by
  obtain ⟨c, rest, rfl, hc⟩ := hcs
  by_contra h
  rw [Bool.not_eq_false, List.contains_iff_mem] at h
  have hword := List.all_eq_true.mp hwords _ h
  simp at hword
  obtain hc | rfl := hc
  · rw [hc] at hword
    cases hword.1
  · exact hword.2 rfl

theorem contains_flags (hn : n.Proper) :
    (Schema.trueWords.contains (String.ofList n.chars) ||
      Schema.falseWords.contains (String.ofList n.chars)) = false := by
  rw [contains_numeral (startsNumeral_chars hn) (by decide), contains_numeral (startsNumeral_chars hn) (by decide)]
  rfl

theorem isFloat_of_fraction (hn : n.Proper) (h : n.fraction.isSome = true) : Schema.isFloat n.chars = true := by
  obtain ⟨digits, hfraction⟩ := Option.isSome_iff_exists.mp h
  have hdigits := hn.fraction digits hfraction
  have hrest : n.fractionChars ++ n.exponentChars = '.' :: (digits ++ n.exponentChars) := by
    rw [Numeral.fractionChars, hfraction]
    rfl
  have hdrop := Text.dropWhile_append (fun c hc => isLoose_of_isDigit (hdigits.2 c hc)) (stops_exponentChars n)
  have hform : Schema.isFraction (n.fractionChars ++ n.exponentChars) = true := by
    rw [hrest, Schema.isFraction, hdrop, isExponent_exponentChars hn]
  unfold Schema.isFloat
  dsimp only
  rw [unsigned_chars hn, looseDigits?_body hn]
  simp [hform]

/-- The type of a number that is no integer. -/
theorem kindOf_fraction (hn : n.Proper) (h : n.fraction.isSome = true) :
    Schema.kindOf (String.ofList n.chars) = .float := by
  unfold Schema.kindOf
  dsimp only
  rw [contains_flags hn, if_neg Bool.false_ne_true, String.toList_ofList, isFloat_of_fraction hn h, if_pos rfl]

section Integer

variable (hn : n.Proper) (hfraction : n.fraction = none) (hexponent : n.exponent = none)

include hfraction hexponent in
theorem body_of_integer : body n = n.whole := by
  rw [body, Numeral.fractionChars, Numeral.exponentChars, hfraction, hexponent]
  simp

include hn hfraction hexponent

theorem looseDigits?_integer : Schema.looseDigits? (body n) = some [] := by
  rw [looseDigits?_body hn, Numeral.fractionChars, Numeral.exponentChars, hfraction, hexponent]
  rfl

theorem isFloat_of_integer : Schema.isFloat n.chars = false := by
  have hfirst : n.chars.head? ≠ some '.' := by
    obtain ⟨c, rest, heq, hc⟩ := startsNumeral_chars hn
    rw [heq]
    rintro h
    obtain rfl := Option.some.inj h
    obtain hc | hc := hc <;> cases hc
  unfold Schema.isFloat
  dsimp only
  rw [unsigned_chars hn, looseDigits?_integer hn hfraction hexponent,
    contains_numeral (startsNumeral_body hn) (by decide), contains_numeral (startsNumeral_chars hn) (by decide)]
  generalize n.chars = cs at hfirst
  cases cs with
  | nil => rfl
  | cons c rest =>
      have hc : c ≠ '.' := fun h => hfirst (by rw [h]; rfl)
      simp [Schema.isFraction, Schema.someSixtieths?, hc]

theorem isInt_of_integer : Schema.isInt n.chars = true := by
  have hloose := looseDigits?_integer hn hfraction hexponent
  have hbody := body_of_integer hfraction hexponent
  rw [Schema.isInt, unsigned_chars hn]
  by_cases hzero : n.whole.head? = some '0'
  · -- a zero at the start stands alone
    rw [hbody, hn.leading hzero]
    rfl
  · obtain ⟨d, rest, heq⟩ := List.exists_cons_of_ne_nil hn.whole.1
    rw [hbody, heq] at hloose ⊢
    have hd : d ≠ '0' := fun h => hzero (by rw [heq, h]; rfl)
    -- the forms to other bases and zero itself start with a zero
    split
    · next h => exact absurd (List.cons.inj h).1 hd
    · next h => exact absurd (List.cons.inj h).1 hd
    · next h => exact absurd (List.cons.inj h).1 hd
    · next h => exact absurd (List.cons.inj h).1 hd
    · rw [hloose]
      rfl

theorem kindOf_integer : Schema.kindOf (String.ofList n.chars) = .int := by
  unfold Schema.kindOf
  dsimp only
  rw [contains_flags hn, if_neg Bool.false_ne_true, String.toList_ofList, isFloat_of_integer hn hfraction hexponent,
    if_neg Bool.false_ne_true, isInt_of_integer hn hfraction hexponent, if_pos rfl]

end Integer

/-! ## Reading -/

section Chars

variable {cs : List Char} (hcs : ∀ c ∈ cs, c ∈ numeralChars)

include hcs

theorem filter_numeral : cs.filter (· != '_') = cs := by
  have hchar : ∀ c ∈ numeralChars, (c != '_') = true := by decide
  exact List.filter_eq_self.mpr fun c hc => hchar c (hcs c hc)

theorem not_mem_colon : cs.contains ':' = false := by
  have hchar : ':' ∉ numeralChars := by decide
  simpa using fun h => hchar (hcs _ h)

theorem trim_numeral : Text.trim Text.isBlank (String.ofList cs) = String.ofList cs := by
  have hchar : ∀ c ∈ numeralChars, Text.isBlank c = false := by decide
  have hkeep : ∀ ds : List Char, (∀ c ∈ ds, c ∈ cs) → ds.dropWhile Text.isBlank = ds := by
    intro ds hds
    cases ds with
    | nil => rfl
    | cons d rest =>
        have hd := hchar d (hcs d (hds d List.mem_cons_self))
        rw [List.dropWhile_cons_of_neg (by simp [hd])]
  rw [Text.trim, String.toList_ofList, hkeep cs fun _ h => h, hkeep cs.reverse fun _ h => List.mem_reverse.mp h,
    List.reverse_reverse]

theorem lowerFrom_numeral : ∀ before : List Char, Text.lowerFrom before cs = cs := by
  have hchar : ∀ c ∈ numeralChars, c ≠ 'Σ' ∧ c ≠ 'İ' ∧ Text.lowerChar c = c := by decide +kernel
  induction cs with
  | nil => exact fun _ => rfl
  | cons c rest ih =>
      intro before
      obtain ⟨hc, hrest⟩ := List.forall_mem_cons.mp hcs
      obtain ⟨hsigma, hdotted, hlower⟩ := hchar c hc
      simp only [Text.lowerFrom, if_neg hsigma, if_neg hdotted, hlower, ih hrest, List.singleton_append]

theorem lower_numeral : Text.lower (String.ofList cs) = String.ofList cs := by
  rw [Text.lower, String.toList_ofList, lowerFrom_numeral hcs]

end Chars

/-- A sign in front of digits, and the digits. -/
theorem signed_chars (hn : n.Proper) : Schema.signed (String.ofList n.chars) = .ok (n.negative, body n) := by
  obtain ⟨d, rest, hbody, hd⟩ := exists_body hn
  have hfilter := filter_numeral (mem_chars hn)
  rw [chars_eq_body] at hfilter ⊢
  unfold Schema.signed
  rw [String.toList_ofList, hfilter]
  cases n.negative with
  | true => rfl
  | false =>
      rw [if_neg Bool.false_ne_true, List.nil_append, hbody]
      split
      · next h => cases h
      · next h => exact absurd (List.cons.inj h).1 (Json.ne_of_isDigit hd rfl)
      · next h => exact absurd (List.cons.inj h).1 (Json.ne_of_isDigit hd rfl)
      · rfl

theorem splitSign_digit {d : Char} (hd : d.isDigit = true) (rest : List Char) :
    Lenient.splitSign (d :: rest) = (false, d :: rest) := by
  unfold Lenient.splitSign
  split
  · next h => exact absurd (List.cons.inj h).1 (Json.ne_of_isDigit hd rfl)
  · next h => exact absurd (List.cons.inj h).1 (Json.ne_of_isDigit hd rfl)
  · rfl

theorem digitValue?_digit {d : Char} (hd : d.isDigit = true) : Schema.digitValue? 10 d = some (d.toNat - 48) := by
  have hdigit : ∀ i : Fin 10, let d := Char.ofNat (48 + i.val)
      Schema.digitValue? 10 d = some (d.toNat - 48) := by
    decide
  obtain ⟨i, rfl⟩ := exists_of_isDigit hd
  exact hdigit i

theorem mapM_digitValue? {digits : List Char} (h : ∀ c ∈ digits, c.isDigit = true) :
    digits.mapM (Schema.digitValue? 10) = some (digits.map fun c => c.toNat - 48) := by
  induction digits with
  | nil => rfl
  | cons d rest ih =>
      obtain ⟨hd, hrest⟩ := List.forall_mem_cons.mp h
      rw [List.mapM_cons, digitValue?_digit hd, ih hrest]
      rfl

theorem baseMark_ten (cs : List Char) : Schema.baseMark 10 cs = false := by
  unfold Schema.baseMark
  split <;> rfl

/-- Digits are read in base ten as the number that they write. -/
theorem readDigits_ten {digits : List Char} (hdigits : AreDigits digits) (hlength : digits.length ≤ Json.digitLimit) :
    Schema.readDigits 10 digits = .ok (Json.digitsValue digits) := by
  obtain ⟨d, rest, rfl⟩ := List.exists_cons_of_ne_nil hdigits.1
  have hd := hdigits.2 d List.mem_cons_self
  have htrim : (Text.trim Text.isBlank (String.ofList (d :: rest))).toList = d :: rest := by
    rw [trim_numeral fun c hc => mem_numeralChars_of_isDigit (hdigits.2 c hc), String.toList_ofList]
  have hshort : ¬ Json.digitLimit < ((d :: rest).map fun c => c.toNat - 48).length := by
    rw [List.length_map]
    exact Nat.not_lt.mpr hlength
  have hvalue : ((d :: rest).map fun c => c.toNat - 48).foldl (fun n d => 10 * n + d) 0 =
      Json.digitsValue (d :: rest) := by
    rw [List.foldl_map]
    rfl
  unfold Schema.readDigits
  dsimp only
  rw [htrim, splitSign_digit hd, baseMark_ten, if_neg Bool.false_ne_true, mapM_digitValue? hdigits.2]
  rw [List.map_cons] at hshort hvalue ⊢
  dsimp only
  rw [decide_eq_false hshort, hvalue]
  rfl

/-! ## Integers -/

theorem readUnsigned_whole (hn : n.Proper) (hlength : n.whole.length ≤ Json.digitLimit) :
    Schema.readUnsigned n.whole = .ok (Json.digitsValue n.whole) := by
  by_cases hzero : n.whole.head? = some '0'
  · rw [hn.leading hzero]
    rfl
  · have hcolon := not_mem_colon fun c hc => mem_numeralChars_of_isDigit (hn.whole.2 c hc)
    have hread := readDigits_ten hn.whole hlength
    obtain ⟨d, rest, heq⟩ := List.exists_cons_of_ne_nil hn.whole.1
    rw [heq] at hcolon hread ⊢
    have hd : d ≠ '0' := fun h => hzero (by rw [heq, h]; rfl)
    unfold Schema.readUnsigned
    split
    · next h => cases h
    · next h => exact absurd (List.cons.inj h).1 hd
    · next h => exact absurd (List.cons.inj h).1 hd
    · next h => exact absurd (List.cons.inj h).1 hd
    · next h => exact absurd (List.cons.inj h).1 hd
    · rw [hcolon, if_neg Bool.false_ne_true, hread]

/-- An integer is read from its numeral. -/
theorem readInt_int {i : Int} (h : Decimal.width i.natAbs ≤ Json.digitLimit) :
    Schema.readInt (toString i) = .ok (.int i) := by
  have hn := Numeral.proper_ofInt i
  have hread := readUnsigned_whole hn h
  have hvalue : Json.digitsValue (Numeral.ofInt i).whole = i.natAbs := Json.digitsValue_toDigits _
  have htext : toString i = String.ofList (Numeral.ofInt i).chars := by
    rw [← Numeral.toList_ofInt, String.ofList_toList]
  rw [Schema.readInt, htext, signed_chars hn, body_of_integer rfl rfl]
  simp only [bind, Except.bind, hread, hvalue, pure, Except.pure]
  congr 2
  by_cases hi : i < 0
  · rw [Numeral.ofInt, if_pos (decide_eq_true hi)]
    omega
  · rw [Numeral.ofInt, if_neg (by simpa using hi)]
    omega

theorem kindOf_int (i : Int) : Schema.kindOf (toString i) = .int := by
  have := kindOf_integer (Numeral.proper_ofInt i) rfl rfl
  rwa [← Numeral.toList_ofInt, String.ofList_toList] at this

/-! ## Fractions -/

theorem mantissa?_body (hn : n.Proper) {digits : List Char} (h : n.fraction = some digits) :
    Lenient.mantissa? (body n) =
      some (⟨Json.digitsValue (n.whole ++ digits), -(digits.length : Int)⟩, n.exponentChars) := by
  have hdigits := hn.fraction digits h
  have hbody : body n = n.whole ++ ('.' :: (digits ++ n.exponentChars)) := by
    rw [body, Numeral.fractionChars, h, List.cons_append]
  have hstops : Text.Stops Char.isDigit n.exponentChars := fun c hc =>
    (Bool.or_eq_false_iff.mp (stops_exponentChars n c hc)).1
  have hwhole : (body n).takeWhile Char.isDigit = n.whole :=
    hbody ▸ Json.takeWhile_digits hn.whole (Text.stops_cons rfl _)
  have hdrop : (body n).drop n.whole.length = '.' :: (digits ++ n.exponentChars) := hbody ▸ List.drop_left
  have hempty : (n.whole.isEmpty && digits.isEmpty) = false := by simp [hn.whole.1]
  unfold Lenient.mantissa?
  simp only [hwhole, hdrop, Json.takeWhile_digits hdigits hstops, List.drop_left, hempty, Bool.false_eq_true, if_false]

theorem decimal?_body (hn : n.Proper) (h : n.fraction.isSome = true) : Lenient.decimal? (body n) = some n.decimal := by
  obtain ⟨digits, hfraction⟩ := Option.isSome_iff_exists.mp h
  rw [Lenient.decimal?, mantissa?_body hn hfraction, Numeral.decimal, Numeral.shift, hfraction]
  cases hexponent : n.exponent with
  | none =>
      rw [Numeral.exponentChars, hexponent]
      simp
  | some e =>
      obtain ⟨negative, ds⟩ := e
      have hread := @Json.exponent?_e ds [] negative (hn.exponent _ _ hexponent) (Text.stops_nil _)
      rw [List.append_nil] at hread
      rw [Numeral.exponentChars, hexponent]
      dsimp only
      rw [hread]
      cases negative <;> simp [Int.add_comm, Int.sub_eq_add_neg]

theorem double?_body (hn : n.Proper) (h : n.fraction.isSome = true) :
    Lenient.double? (body n) = some (n.decimal.toDouble false) := by
  have hdecimal := decimal?_body hn h
  obtain ⟨d, rest, hbody, hd⟩ := exists_body hn
  have hword : ∀ word : String, word.toList.head? = some 'n' ∨ word.toList.head? = some 'i' →
      String.ofList (Lenient.lowerAscii (d :: rest)) ≠ word := by
    have hlower : ∀ i : Fin 10, (Char.ofNat (48 + i.val)).toLower ≠ 'n' ∧ (Char.ofNat (48 + i.val)).toLower ≠ 'i' := by
      decide
    obtain ⟨i, rfl⟩ := exists_of_isDigit hd
    rintro word hhead rfl
    rw [String.toList_ofList] at hhead
    obtain hhead | hhead := hhead
    · exact (hlower i).1 (Option.some.inj hhead)
    · exact (hlower i).2 (Option.some.inj hhead)
  rw [hbody] at hdecimal ⊢
  unfold Lenient.double?
  rw [splitSign_digit hd]
  dsimp only
  rw [if_neg (hword _ (.inl rfl)), if_neg (by simp [hword "inf" (.inr rfl), hword "infinity" (.inr rfl)]), hdecimal]
  rfl

theorem negate_toDouble (x : Decimal) : (x.toDouble false).negate = x.toDouble true := by
  unfold Decimal.toDouble Double.ofRank
  split <;> rfl

/-- A number is read from its numeral. -/
theorem readFloat_chars (hn : n.Proper) (h : n.fraction.isSome = true) :
    Schema.readFloat (String.ofList n.chars) = .ok (.float (n.decimal.toDouble n.negative)) := by
  have hmem := mem_body hn
  obtain ⟨d, rest, hbody, hd⟩ := exists_body hn
  have hpoint : ∀ word : List Char, word.head? = some '.' → body n ≠ word := by
    rintro word hword rfl
    rw [hbody] at hword
    obtain rfl := Option.some.inj hword
    cases hd
  have hnumber : Schema.readNumber (body n) = .ok (n.decimal.toDouble false) := by
    rw [Schema.readNumber, trim_numeral hmem, String.toList_ofList, double?_body hn h]
  rw [Schema.readFloat, lower_numeral (mem_chars hn), signed_chars hn]
  simp only [bind, Except.bind, if_neg (hpoint _ (rfl : ".inf".toList.head? = _)),
    if_neg (hpoint _ (rfl : ".nan".toList.head? = _)), not_mem_colon hmem, Bool.false_eq_true, if_false, hnumber,
    pure, Except.pure]
  cases n.negative
  · rfl
  · rw [if_pos rfl, negate_toDouble]

end Numerals

end Runbook.Yaml
