import Mathlib.Tactic.Common
import Runbook.Text.Utf8

/-!
# UTF-8 read back

The bytes of a text are read as that text (`decodeUtf8_utf8Bytes`), for the bytes of one
character are read as it, whatever follows (`decodeFrom_utf8EncodeChar`).
-/

namespace Runbook.Text

section Bytes

variable {n : Nat}

theorem toNat_byte (hn : n < 256) : (UInt8.ofNat n).toNat = n := UInt8.toNat_ofNat_of_lt' hn

theorem byte_lt {bound : UInt8} (hn : n < 256) : UInt8.ofNat n < bound ↔ n < bound.toNat := by
  rw [UInt8.lt_iff_toNat_lt, toNat_byte hn]

theorem le_byte {bound : UInt8} (hn : n < 256) : bound ≤ UInt8.ofNat n ↔ bound.toNat ≤ n := by
  rw [UInt8.le_iff_toNat_le, toNat_byte hn]

theorem bits_byte (hn : n < 256) (count : Nat) : bits (UInt8.ofNat n) count = n % Nat.pow 2 count := by
  rw [bits, toNat_byte hn]

/-- The byte for six bits. -/
theorem continues_byte (h : n < 64) : continues (UInt8.ofNat (n + 0x80)) = true := by
  simp only [continues, Bool.and_eq_true, decide_eq_true_eq, le_byte (show n + 0x80 < 256 by omega),
    byte_lt (show n + 0x80 < 256 by omega)]
  exact ⟨Nat.le_add_left _ _, Nat.add_lt_add_right h _⟩

end Bytes

/-! ## One character -/

section Character

variable {v : Nat} (rest : List UInt8) (start : Nat)

theorem decodeFrom_one (h : v ≤ 0x7f) :
    decodeFrom start (UInt8.ofNat v :: rest) = (decodeFrom (start + 1) rest).map (Char.ofNat v :: ·) := by
  have hfirst : UInt8.ofNat v < 0x80 := (byte_lt (by omega)).mpr (Nat.lt_succ_of_le h)
  rw [decodeFrom.eq_def]
  dsimp only
  rw [if_pos hfirst, toNat_byte (by omega)]

theorem decodeFrom_two (hlow : 0x7f < v) (hhigh : v ≤ 0x7ff) :
    decodeFrom start (UInt8.ofNat (v / 64 % 0x20 + 0xc0) :: UInt8.ofNat (v % 0x40 + 0x80) :: rest) =
      (decodeFrom (start + 2) rest).map (Char.ofNat v :: ·) := by
  have hbyte : v / 64 % 0x20 + 0xc0 < 256 := by omega
  have hvalue : (v / 64 % 0x20 + 0xc0) % 32 * 64 + (v % 0x40 + 0x80) % 64 = v := by omega
  rw [decodeFrom.eq_def]
  simp only [byte_lt hbyte, bits_byte hbyte, bits_byte (show v % 0x40 + 0x80 < 256 by omega),
    continues_byte (Nat.mod_lt v (show 0 < 0x40 by decide)), UInt8.reduceToNat, Nat.pow_eq, Nat.reducePow,
    if_true, hvalue]
  rw [if_neg (by omega), if_neg (by omega), if_pos (by omega)]

/-- Overlong forms and the halves of a pair are what the second of three bytes does not fit in. -/
theorem secondFits_three (hlow : 0x7ff < v) (hhigh : v ≤ 0xffff) (hvalid : v < 0xd800 ∨ 0xdfff < v) :
    secondFits (UInt8.ofNat (v / 4096 % 0x10 + 0xe0)) (UInt8.ofNat (v / 64 % 0x40 + 0x80)) = true := by
  have hfirst : v / 4096 % 0x10 + 0xe0 < 256 := by omega
  have hsecond : v / 64 % 0x40 + 0x80 < 256 := by omega
  simp only [secondFits, continues_byte (Nat.mod_lt (v / 64) (show 0 < 0x40 by decide)), Bool.true_and,
    Bool.and_eq_true, Bool.or_eq_true, bne_iff_ne, ne_eq, decide_eq_true_eq, ← UInt8.toNat_inj,
    toNat_byte hfirst, le_byte hsecond, byte_lt hsecond, UInt8.reduceToNat]
  omega

theorem secondFits_four (hlow : 0xffff < v) (hhigh : v < 0x110000) :
    secondFits (UInt8.ofNat (v / 262144 % 0x08 + 0xf0)) (UInt8.ofNat (v / 4096 % 0x40 + 0x80)) = true := by
  have hfirst : v / 262144 % 0x08 + 0xf0 < 256 := by omega
  have hsecond : v / 4096 % 0x40 + 0x80 < 256 := by omega
  simp only [secondFits, continues_byte (Nat.mod_lt (v / 4096) (show 0 < 0x40 by decide)), Bool.true_and,
    Bool.and_eq_true, Bool.or_eq_true, bne_iff_ne, ne_eq, decide_eq_true_eq, ← UInt8.toNat_inj,
    toNat_byte hfirst, le_byte hsecond, byte_lt hsecond, UInt8.reduceToNat]
  omega

theorem decodeFrom_three (hlow : 0x7ff < v) (hhigh : v ≤ 0xffff) (hvalid : v < 0xd800 ∨ 0xdfff < v) :
    decodeFrom start (UInt8.ofNat (v / 4096 % 0x10 + 0xe0) :: UInt8.ofNat (v / 64 % 0x40 + 0x80) ::
      UInt8.ofNat (v % 0x40 + 0x80) :: rest) = (decodeFrom (start + 3) rest).map (Char.ofNat v :: ·) := by
  have hbyte : v / 4096 % 0x10 + 0xe0 < 256 := by omega
  have hvalue : (v / 4096 % 0x10 + 0xe0) % 16 * 4096 + (v / 64 % 0x40 + 0x80) % 64 * 64 +
      (v % 0x40 + 0x80) % 64 = v := by
    omega
  rw [decodeFrom.eq_def]
  simp only [byte_lt hbyte, bits_byte hbyte, bits_byte (show v / 64 % 0x40 + 0x80 < 256 by omega),
    bits_byte (show v % 0x40 + 0x80 < 256 by omega), secondFits_three hlow hhigh hvalid,
    continues_byte (Nat.mod_lt v (show 0 < 0x40 by decide)), UInt8.reduceToNat, Nat.pow_eq, Nat.reducePow,
    if_true, hvalue]
  rw [if_neg (by omega), if_neg (by omega), if_neg (by omega), if_pos (by omega), if_neg (by decide)]

theorem decodeFrom_four (hlow : 0xffff < v) (hhigh : v < 0x110000) :
    decodeFrom start (UInt8.ofNat (v / 262144 % 0x08 + 0xf0) :: UInt8.ofNat (v / 4096 % 0x40 + 0x80) ::
      UInt8.ofNat (v / 64 % 0x40 + 0x80) :: UInt8.ofNat (v % 0x40 + 0x80) :: rest) =
        (decodeFrom (start + 4) rest).map (Char.ofNat v :: ·) := by
  have hbyte : v / 262144 % 0x08 + 0xf0 < 256 := by omega
  have hvalue : (v / 262144 % 0x08 + 0xf0) % 8 * 262144 + (v / 4096 % 0x40 + 0x80) % 64 * 4096 +
      (v / 64 % 0x40 + 0x80) % 64 * 64 + (v % 0x40 + 0x80) % 64 = v := by omega
  rw [decodeFrom.eq_def]
  simp only [byte_lt hbyte, bits_byte hbyte, bits_byte (show v / 4096 % 0x40 + 0x80 < 256 by omega),
    bits_byte (show v / 64 % 0x40 + 0x80 < 256 by omega), bits_byte (show v % 0x40 + 0x80 < 256 by omega),
    secondFits_four hlow hhigh, continues_byte (Nat.mod_lt (v / 64) (show 0 < 0x40 by decide)),
    continues_byte (Nat.mod_lt v (show 0 < 0x40 by decide)), UInt8.reduceToNat, Nat.pow_eq, Nat.reducePow,
    if_true, hvalue]
  rw [if_neg (by omega), if_neg (by omega), if_neg (by omega), if_neg (by omega), if_pos (by omega),
    if_neg (by decide), if_neg (by decide)]

/-- The bytes of a character are read as it. -/
theorem decodeFrom_utf8EncodeChar (c : Char) : decodeFrom start (String.utf8EncodeChar c ++ rest) =
    (decodeFrom (start + (String.utf8EncodeChar c).length) rest).map (c :: ·) := by
  have hvalid : c.val.toNat < 0xd800 ∨ 0xdfff < c.val.toNat ∧ c.val.toNat < 0x110000 := c.valid
  have hc : Char.ofNat c.val.toNat = c := Char.ofNat_toNat c
  unfold String.utf8EncodeChar
  dsimp only
  split
  case isTrue h => exact (decodeFrom_one rest start h).trans (by rw [hc]; rfl)
  case isFalse hone =>
  split
  case isTrue h => exact (decodeFrom_two rest start (Nat.lt_of_not_le hone) h).trans (by rw [hc]; rfl)
  case isFalse htwo =>
  split
  case isTrue h => exact (decodeFrom_three rest start (Nat.lt_of_not_le htwo) h (by omega)).trans (by rw [hc]; rfl)
  case isFalse hthree => exact (decodeFrom_four rest start (Nat.lt_of_not_le hthree) (by omega)).trans (by rw [hc]; rfl)

end Character

/-! ## Texts -/

theorem decodeFrom_flatMap (cs : List Char) :
    ∀ start : Nat, decodeFrom start (cs.flatMap String.utf8EncodeChar) = .ok cs := by
  induction cs with
  | nil => exact fun _ => by rw [List.flatMap_nil, decodeFrom.eq_def]
  | cons c rest ih =>
      intro start
      rw [List.flatMap_cons, decodeFrom_utf8EncodeChar, ih]
      rfl

/-- The bytes of a text are read as it. -/
theorem decodeUtf8_utf8Bytes (s : String) : decodeUtf8 (utf8Bytes s) = .ok s.toList :=
  decodeFrom_flatMap s.toList 0

end Runbook.Text
