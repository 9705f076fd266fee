import Mathlib.Algebra.Ring.Nat
import Mathlib.Tactic.Common
import Runbook.Json.Reader
import Runbook.Json.Writer
import Runbook.Proofs.Text.Span

/-!
# Strings read back

Each character is written in one of five ways (`Written`), and is read as it was written
(`piece_written`), so long as something follows it; in a string that is the next character
or the closing quote. The two halves of a surrogate pair in a row, each behind its escape,
are read as one character, so strings are read back only if no such two stand in them
(`isUnpaired`).
-/

namespace Runbook.Json

/-! ## Hexadecimal digits -/

section Hex

/-- A way of writing hexadecimal digits. -/
def WritesHex (f : Char → Char) : Prop := ∀ d : Fin 16, hexValue? (f d.val.digitChar) = some d.val

theorem writesHex_id : WritesHex id := by
  unfold WritesHex
  decide

theorem writesHex_toUpper : WritesHex Char.toUpper := by
  unfold WritesHex
  decide

variable {f : Char → Char}

/-- The step of reading one more hexadecimal digit. -/
def hexStep (n : Nat) (c : Char) : Option Nat := (hexValue? c).map (16 * n + ·)

theorem hexNumber?_eq (digits : List Char) : hexNumber? digits = digits.foldlM hexStep 0 := rfl

theorem foldlM_hexStep_digit (hf : WritesHex f) {d : Nat} (hd : d < 16) (n : Nat) :
    ((Nat.toDigits 16 d).map f).foldlM hexStep n = some (16 * n + d) := by
  have hvalue : hexValue? (f d.digitChar) = some d := hf ⟨d, hd⟩
  rw [Nat.toDigits_of_lt_base hd, List.map_singleton, List.foldlM_cons, hexStep, hvalue]
  rfl

theorem foldlM_hexStep_toDigits (hf : WritesHex f) (n : Nat) :
    ((Nat.toDigits 16 n).map f).foldlM hexStep 0 = some n := by
  induction n using Nat.base_induction 16 (by decide) with
  | single m hm => rw [foldlM_hexStep_digit hf hm, Nat.mul_zero, Nat.zero_add]
  | digit m k hk hm ih =>
      rw [← Nat.toDigits_append_toDigits (by decide) hm hk, List.map_append, List.foldlM_append, ih]
      exact foldlM_hexStep_digit hf hk m

theorem foldlM_hexStep_zeros (hf : WritesHex f) (k : Nat) :
    ((List.replicate k '0').map f).foldlM hexStep 0 = some 0 := by
  have hzero : hexValue? (f '0') = some 0 := hf 0
  induction k with
  | zero => rfl
  | succ k ih =>
      rw [List.replicate_succ, List.map_cons, List.foldlM_cons, hexStep, hzero]
      exact ih

/-- Hexadecimal digits are read as the number that they write. -/
theorem hexNumber?_hexDigits (hf : WritesHex f) (width n : Nat) :
    hexNumber? ((Text.hexDigits width n).toList.map f) = some n := by
  rw [hexNumber?_eq, Text.hexDigits, String.toList_ofList, List.map_append, List.foldlM_append,
    foldlM_hexStep_zeros hf]
  exact foldlM_hexStep_toDigits hf n

theorem length_hexDigits {width n : Nat} (hwidth : 0 < width) (h : n < 16 ^ width) :
    (Text.hexDigits width n).toList.length = width := by
  have hlength : (Nat.toDigits 16 n).length ≤ width :=
    (Nat.length_toDigits_le_iff (by decide) hwidth).mpr h
  rw [Text.hexDigits, String.toList_ofList, List.length_append, List.length_replicate]
  omega

theorem exists_of_mem_toDigits {n : Nat} {c : Char} : c ∈ Nat.toDigits 16 n → ∃ d : Fin 16, c = d.val.digitChar := by
  induction n using Nat.base_induction 16 (by decide) with
  | single m hm =>
      intro hc
      rw [Nat.toDigits_of_lt_base hm, List.mem_singleton] at hc
      exact ⟨⟨m, hm⟩, hc⟩
  | digit m k hk hm ih =>
      intro hc
      rw [← Nat.toDigits_append_toDigits (by decide) hm hk, Nat.toDigits_of_lt_base hk, List.mem_append,
        List.mem_singleton] at hc
      exact hc.elim ih fun hc => ⟨⟨k, hk⟩, hc⟩

/-- Hexadecimal digits are the digits of the numbers below sixteen. -/
theorem exists_of_mem_hexDigits {width n : Nat} {c : Char} (h : c ∈ (Text.hexDigits width n).toList) :
    ∃ d : Fin 16, c = d.val.digitChar := by
  rw [Text.hexDigits, String.toList_ofList, List.mem_append] at h
  exact h.elim (fun h => ⟨0, List.eq_of_mem_replicate h⟩) exists_of_mem_toDigits

end Hex

/-! ## Characters -/

theorem toList_unitEscape (n : Nat) : (unitEscape n).toList = '\\' :: 'u' :: (Text.hexDigits 4 n).toList := by
  rw [unitEscape, String.toList_append]
  rfl

theorem length_unitEscape {n : Nat} (hn : n < 0x10000) : (unitEscape n).toList.length = 6 := by
  rw [toList_unitEscape, List.length_cons, List.length_cons, length_hexDigits (by decide) hn]

/-- A unit is read, so long as its escape does not end the text. -/
theorem unit?_hexDigits {n : Nat} (hn : n < 0x10000) {rest : List Char} (hrest : rest ≠ []) :
    unit? ((Text.hexDigits 4 n).toList ++ rest) = some n := by
  have hlength : (Text.hexDigits 4 n).toList.length = 4 := length_hexDigits (by decide) hn
  have hpos : 0 < rest.length := List.length_pos_iff.mpr hrest
  have henough : ¬ (((Text.hexDigits 4 n).toList ++ rest).take 5).length < 5 := by
    rw [List.length_take, List.length_append]
    omega
  rw [unit?, if_neg henough, List.take_left' hlength]
  simpa using hexNumber?_hexDigits writesHex_id 4 n

theorem drop_hexDigits {n : Nat} (hn : n < 0x10000) (rest : List Char) :
    ((Text.hexDigits 4 n).toList ++ rest).drop 4 = rest :=
  List.drop_left' (length_hexDigits (by decide) hn)

theorem isValidChar (c : Char) : c.toNat < 0xd800 ∨ 0xdfff < c.toNat ∧ c.toNat < 0x110000 := c.valid

theorem unitChar_toNat (c : Char) : unitChar c.toNat = c := by
  have hvalid := isValidChar c
  have hrange : ¬ (decide (0xd800 ≤ c.toNat) && decide (c.toNat < 0xe000)) = true := by
    simp only [Bool.and_eq_true, decide_eq_true_eq]
    omega
  rw [unitChar, if_neg hrange, Char.ofNat_toNat]

theorem unitChar_half {c : Char} {half : Nat} (h : Text.half? c = some half) : unitChar half = c := by
  obtain ⟨-, hlow, hhigh⟩ := Text.half?_eq_some h
  rw [unitChar, if_pos (by simp [hlow, hhigh]), Text.halfChar_eq h]

/-- The digits behind a backslash and its letter. -/
theorem hexNumber?_unitEscape {n : Nat} (hn : n < 0x10000) (rest : List Char) :
    hexNumber? ((((unitEscape n).toList ++ rest).drop 2).take 4) = some n := by
  rw [toList_unitEscape, List.cons_append, List.cons_append, List.drop_succ_cons, List.drop_succ_cons, List.drop_zero,
    List.take_left' (length_hexDigits (by decide) hn)]
  simpa using hexNumber?_hexDigits writesHex_id 4 n

/-- A text does not start with the escape of the second half of a pair. -/
def NoSecondHalf (text : List Char) : Prop :=
  text.take 2 ≠ ['\\', 'u'] ∨
    ∃ n rest, text = (unitEscape n).toList ++ rest ∧ n < 0x10000 ∧ isLowSurrogate n = false

section Piece

variable {start position : Nat} {c : Char} {rest : List Char}

/-- The escape of one unit is read as its character, if it is not the first half of a pair. -/
theorem piece_unitEscape {n : Nat} (hn : n < 0x10000) (hrest : rest ≠ [])
    (hnext : isHighSurrogate n = true → NoSecondHalf rest) :
    piece start ⟨position, (unitEscape n).toList ++ rest⟩ = .ok (.char (unitChar n) 6) := by
  rw [toList_unitEscape, List.cons_append, List.cons_append]
  simp only [piece, unit?_hexDigits hn hrest, drop_hexDigits hn]
  cases hhigh : isHighSurrogate n with
  | false => rfl
  | true =>
      obtain hother | ⟨m, more, rfl, hm, hlow⟩ := hnext hhigh
      · rw [if_neg (by simp [hother])]
      · simp only [hexNumber?_unitEscape hm, hlow, Bool.false_eq_true, if_false, ite_self]

/-- The halves of a pair are read as one character. -/
theorem piece_pair {high low : Nat} (hhigh : isHighSurrogate high = true) (hlow : isLowSurrogate low = true)
    (hrest : rest ≠ []) :
    piece start ⟨position, (unitEscape high).toList ++ ((unitEscape low).toList ++ rest)⟩ =
      .ok (.char (Char.ofNat (0x10000 + (high - 0xd800) * 0x400 + (low - 0xdc00))) 12) := by
  have hhighUnit : high < 0x10000 := by
    simp only [isHighSurrogate, Bool.and_eq_true, decide_eq_true_eq] at hhigh
    omega
  have hlowUnit : low < 0x10000 := by
    simp only [isLowSurrogate, Bool.and_eq_true, decide_eq_true_eq] at hlow
    omega
  have hpos : 0 < rest.length := List.length_pos_iff.mpr hrest
  have hsecond : (((unitEscape low).toList ++ rest).take 7).length = 7 := by
    rw [List.length_take, List.length_append, length_unitEscape hlowUnit]
    omega
  have hmark : ((unitEscape low).toList ++ rest).take 2 = ['\\', 'u'] := by
    rw [toList_unitEscape]
    rfl
  have hne : (unitEscape low).toList ++ rest ≠ [] := by simp [hrest]
  rw [toList_unitEscape high, List.cons_append, List.cons_append]
  simp only [piece, unit?_hexDigits hhighUnit hne, drop_hexDigits hhighUnit, hhigh, hsecond, hmark,
    hexNumber?_unitEscape hlowUnit, hlow, BEq.rfl, decide_true, Bool.and_self, if_true]

/-- Two units are read as the character that they are the halves of. -/
theorem piece_surrogates (hc : 0x10000 ≤ c.toNat) (hrest : rest ≠ []) :
    piece start ⟨position, (unitEscape (0xd800 + (c.toNat - 0x10000) / 0x400)).toList ++
      ((unitEscape (0xdc00 + (c.toNat - 0x10000) % 0x400)).toList ++ rest)⟩ = .ok (.char c 12) := by
  have hvalid := isValidChar c
  rw [piece_pair _ _ hrest]
  · have hcode : 0x10000 + (0xd800 + (c.toNat - 0x10000) / 0x400 - 0xd800) * 0x400 +
        (0xdc00 + (c.toNat - 0x10000) % 0x400 - 0xdc00) = c.toNat := by omega
    rw [hcode, Char.ofNat_toNat]
  · simp only [isHighSurrogate, Bool.and_eq_true, decide_eq_true_eq]
    omega
  · simp only [isLowSurrogate, Bool.and_eq_true, decide_eq_true_eq]
    omega

/-- A backslash and a letter are read as the character that they write. -/
theorem piece_escaped {letter : Char} (hu : letter ≠ 'u') (h : escaped? letter = some c) :
    piece start ⟨position, '\\' :: letter :: rest⟩ = .ok (.char c 2) := by
  unfold piece
  simp only [h]

/-- A character that may stand for itself. -/
theorem piece_self (hquote : c ≠ '"') (hslash : c ≠ '\\') (hc : 0x20 ≤ c.toNat) :
    piece start ⟨position, c :: rest⟩ = .ok (.char c 1) := by
  have hplain : ¬ c.toNat < 0x20 := by omega
  unfold piece
  simp only [hplain, if_false]

/-! ### How a character is written -/

/-- The letters that a backslash may stand before, and the characters that they write. -/
def letterEscapes : List (Char × Char) :=
  [('"', '"'), ('\\', '\\'), ('n', '\n'), ('r', '\r'), ('t', '\t'), ('b', '\x08'), ('f', '\x0c')]

theorem escaped?_of_mem : ∀ p ∈ letterEscapes, p.1 ≠ 'u' ∧ escaped? p.1 = some p.2 := by decide

/-- **The ways to write a character** inside quotes: a letter behind a backslash, the
character itself, the escape of its unit, the escapes of the halves of a pair, and the escape
of one such half alone. -/
inductive Written (c : Char) : List Char → Prop
  | letter {letter : Char} : (letter, c) ∈ letterEscapes → Written c ['\\', letter]
  | self : c ≠ '"' → c ≠ '\\' → 0x20 ≤ c.toNat → c.toNat < 0x7f → Written c [c]
  | unit : c.toNat < 0x10000 → Written c (unitEscape c.toNat).toList
  | pair : 0x10000 ≤ c.toNat → Written c ((unitEscape (0xd800 + (c.toNat - 0x10000) / 0x400)).toList ++
      (unitEscape (0xdc00 + (c.toNat - 0x10000) % 0x400)).toList)
  | half {n : Nat} : Text.half? c = some n → Written c (unitEscape n).toList

theorem toList_charText_of_mem : ∀ p ∈ letterEscapes, (charText true p.2).toList = ['\\', p.1] := by decide

theorem written_charText (c : Char) : Written c (charText true c).toList := by
  by_cases hletter : ∃ letter, (letter, c) ∈ letterEscapes
  · obtain ⟨letter, hmem⟩ := hletter
    rw [toList_charText_of_mem _ hmem]
    exact .letter hmem
  · simp only [letterEscapes, List.mem_cons, Prod.mk.injEq, List.not_mem_nil, or_false, exists_or,
      exists_eq_left, not_or] at hletter
    obtain ⟨hquote, hslash, hfeed, hreturn, htab, hback, hform⟩ := hletter
    simp only [charText, hquote, hslash, hfeed, hreturn, htab, hback, hform, if_false]
    split
    case isTrue hcontrol => exact .unit (by omega)
    case isFalse hcontrol =>
    split
    case isTrue hascii =>
      rw [Char.toString, String.toList_singleton]
      exact .self hquote hslash (by omega) (by simpa using hascii)
    split
    case isTrue hunit => exact .unit hunit
    case isFalse hunit =>
    split
    case h_1 half hhalf => exact .half hhalf
    case h_2 =>
      rw [String.toList_append]
      exact .pair (by omega)

/-- A character that is written as the first half of a pair. -/
def isFirstHalf (c : Char) : Bool := (Text.half? c).any isHighSurrogate

/-- A character that is written as the second half of a pair. -/
def isSecondHalf (c : Char) : Bool := (Text.half? c).any isLowSurrogate

/-- A character is read as it was written, so long as something follows it that is no second
half where the character is a first one. -/
theorem piece_written {text : List Char} (h : Written c text) (hrest : rest ≠ [])
    (hnext : isFirstHalf c = true → NoSecondHalf rest) :
    piece start ⟨position, text ++ rest⟩ = .ok (.char c text.length) := by
  have hvalid := isValidChar c
  cases h with
  | letter hmem =>
      obtain ⟨hu, hescaped⟩ := escaped?_of_mem _ hmem
      exact piece_escaped hu hescaped
  | self hquote hslash hprinted _ => exact piece_self hquote hslash hprinted
  | unit hunit =>
      have hlow : isHighSurrogate c.toNat = false := by
        simp only [isHighSurrogate, Bool.and_eq_false_iff, decide_eq_false_iff_not]
        omega
      rw [piece_unitEscape hunit hrest (by simp [hlow]), length_unitEscape hunit, unitChar_toNat]
  | pair hpair =>
      rw [List.append_assoc, piece_surrogates hpair hrest, List.length_append, length_unitEscape (by omega),
        length_unitEscape (by omega)]
  | half hhalf =>
      obtain ⟨-, -, hunit⟩ := Text.half?_eq_some hhalf
      have hfirst : ∀ n, Text.half? c = some n → isHighSurrogate n = true → NoSecondHalf rest :=
        fun n hn hhigh => hnext (by simp [isFirstHalf, hn, hhigh])
      rw [piece_unitEscape (by omega) hrest (hfirst _ hhalf), length_unitEscape (by omega), unitChar_half hhalf]

/-- What a character that is no second half is written as. -/
theorem noSecondHalf_written {text : List Char} (h : Written c text) (hc : isSecondHalf c = false)
    (rest : List Char) : NoSecondHalf (text ++ rest) := by
  have hvalid := isValidChar c
  cases h with
  | letter hmem =>
      have hu := (escaped?_of_mem _ hmem).1
      exact .inl (by simp [hu])
  | self _ hslash _ _ => exact .inl (by simp [hslash])
  | unit hunit =>
      refine .inr ⟨_, _, rfl, hunit, ?_⟩
      simp only [isLowSurrogate, Bool.and_eq_false_iff, decide_eq_false_iff_not]
      omega
  | pair hpair =>
      refine .inr ⟨_, _, List.append_assoc _ _ _, by omega, ?_⟩
      simp only [isLowSurrogate, Bool.and_eq_false_iff, decide_eq_false_iff_not]
      omega
  | half hhalf =>
      obtain ⟨-, -, hunit⟩ := Text.half?_eq_some hhalf
      rw [isSecondHalf, hhalf, Option.any_some] at hc
      exact .inr ⟨_, _, rfl, by omega, hc⟩

end Piece

/-! ## Strings -/

/-- A text inside its quotes. -/
def innerChars (cs : List Char) : List Char := cs.flatMap fun c => (charText true c).toList

theorem toList_stringText (s : String) :
    (stringText true s).toList = '"' :: (innerChars s.toList ++ ['"']) := by
  rw [stringText, String.toList_append, String.toList_append, String.toList_join, List.flatMap_map]
  rfl

theorem written_ne_nil {c : Char} {text : List Char} (h : Written c text) : text ≠ [] := by
  cases h with
  | letter | self => exact List.cons_ne_nil _ _
  | unit | half =>
      rw [toList_unitEscape]
      exact List.cons_ne_nil _ _
  | pair =>
      rw [toList_unitEscape]
      exact List.append_ne_nil_of_left_ne_nil (List.cons_ne_nil _ _) _

theorem length_le_innerChars (cs : List Char) : cs.length ≤ (innerChars cs).length := by
  induction cs with
  | nil => exact Nat.le_refl 0
  | cons c rest ih =>
      have hpos : 0 < (charText true c).toList.length := List.length_pos_iff.mpr (written_ne_nil (written_charText c))
      rw [innerChars, List.flatMap_cons, List.length_append, List.length_cons]
      change rest.length + 1 ≤ _ + (innerChars rest).length
      omega

/-- No second half of a pair comes right behind a first one. -/
def unpaired : List Char → Bool
  | [] => true
  | c :: rest => !(isFirstHalf c && rest.head?.any isSecondHalf) && unpaired rest

/-- A text in which the halves of no pair stand in a row. -/
def isUnpaired (s : String) : Bool := unpaired s.toList

theorem noSecondHalf_innerChars {cs : List Char} (h : cs.head?.any isSecondHalf = false) (rest : List Char) :
    NoSecondHalf (innerChars cs ++ '"' :: rest) := by
  cases cs with
  | nil => exact .inl (by simp [innerChars])
  | cons c cs =>
      rw [innerChars, List.flatMap_cons, List.append_assoc]
      exact noSecondHalf_written (written_charText c) h _

/-- The pieces of a string are its characters, up to the closing quote. -/
theorem pieces_innerChars (start : Nat) (rest : List Char) : ∀ (cs : List Char) (count position : Nat)
    (read : List Char), unpaired cs = true → cs.length < count → ∃ q,
      pieces start count ⟨position, innerChars cs ++ '"' :: rest⟩ read =
        .ok (String.ofList (read.reverse ++ cs), ⟨q, rest⟩)
  | [], count + 1, position, read, _, _ => ⟨position + 1, by
      rw [List.append_nil]
      rfl⟩
  | c :: cs, count + 1, position, read, hunpaired, h => by
      rw [unpaired, Bool.and_eq_true, Bool.not_eq_true', Bool.and_eq_false_iff] at hunpaired
      obtain ⟨hc, hcs⟩ := hunpaired
      obtain ⟨q, hq⟩ := pieces_innerChars start rest cs count (position + (charText true c).toList.length)
        (c :: read) hcs (Nat.lt_of_succ_lt_succ h)
      refine ⟨q, ?_⟩
      have htext : innerChars (c :: cs) ++ '"' :: rest =
          (charText true c).toList ++ (innerChars cs ++ '"' :: rest) := by
        rw [innerChars, List.flatMap_cons, List.append_assoc]
        rfl
      have hnext : isFirstHalf c = true → NoSecondHalf (innerChars cs ++ '"' :: rest) := fun hfirst =>
        noSecondHalf_innerChars (hc.resolve_left (by simp [hfirst])) rest
      rw [htext, pieces, piece_written (written_charText c) (by simp) hnext]
      dsimp only [Spot.skip]
      rw [List.drop_left, hq, List.reverse_cons, List.append_assoc]
      rfl

/-- A string is read back, from behind its opening quote. -/
theorem readString_stringText {s : String} (hs : isUnpaired s = true) (position : Nat) (rest : List Char) : ∃ q,
    readString ⟨position, innerChars s.toList ++ '"' :: rest⟩ = .ok (s, ⟨q, rest⟩) := by
  have hcount : s.toList.length < (innerChars s.toList ++ '"' :: rest).length + 1 := by
    have := length_le_innerChars s.toList
    rw [List.length_append]
    omega
  obtain ⟨q, hq⟩ := pieces_innerChars (position - 1) rest s.toList _ position [] hs hcount
  refine ⟨q, hq.trans ?_⟩
  rw [List.reverse_nil, List.nil_append, String.ofList_toList]

/-! ## Characters of stored texts -/

/-- A character that stored texts have: ASCII, and no control but the line feed. -/
def isStored (c : Char) : Bool := c == '\n' || (0x20 ≤ c.toNat && c.toNat < 0x7f)

theorem isStored_unitEscape (n : Nat) : ∀ c ∈ (unitEscape n).toList, isStored c = true := by
  have hdigit : ∀ d : Fin 16, isStored d.val.digitChar = true := by decide
  rw [toList_unitEscape]
  refine List.forall_mem_cons.mpr ⟨rfl, List.forall_mem_cons.mpr ⟨rfl, fun c hc => ?_⟩⟩
  obtain ⟨d, rfl⟩ := exists_of_mem_hexDigits hc
  exact hdigit d

theorem isStored_of_mem : ∀ p ∈ letterEscapes, isStored p.1 = true := by decide

theorem isStored_written {c : Char} {text : List Char} (h : Written c text) : ∀ d ∈ text, isStored d = true := by
  cases h with
  | letter hmem => exact List.forall_mem_cons.mpr ⟨rfl, List.forall_mem_singleton.mpr (isStored_of_mem _ hmem)⟩
  | self _ _ hprinted hascii =>
      refine List.forall_mem_singleton.mpr ?_
      simp [isStored, hprinted, hascii]
  | unit _ => exact isStored_unitEscape _
  | pair _ => exact List.forall_mem_append.mpr ⟨isStored_unitEscape _, isStored_unitEscape _⟩
  | half _ => exact isStored_unitEscape _

theorem isStored_innerChars (cs : List Char) : ∀ c ∈ innerChars cs, isStored c = true := by
  intro d hd
  obtain ⟨c, -, hd⟩ := List.mem_flatMap.mp hd
  exact isStored_written (written_charText c) d hd

end Runbook.Json
