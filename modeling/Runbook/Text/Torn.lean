import Runbook.Text.Utf8

/-! Texts with half of a surrogate pair in them. The escapes of JSON and YAML can write such a half on its own,
but it is no character, and a text that holds one has no bytes. A code point that nothing is assigned to stands
for it here: the half itself, 0xd0000 further on. -/
namespace Runbook.Text

/-- The character that stands for half of a pair. -/
def halfChar (half : Nat) : Char := Char.ofNat (0xd0000 + half)

/-- The half of a pair that a character stands for. -/
def half? (c : Char) : Option Nat :=
  if 0xdd800 ≤ c.toNat && c.toNat < 0xde000 then some (c.toNat - 0xd0000) else none

theorem half?_eq_none {c : Char} (h : c.toNat < 0xdd800 ∨ 0xde000 ≤ c.toNat) : half? c = none := by
  rw [half?, if_neg]
  simp only [Bool.and_eq_true, decide_eq_true_eq]
  omega

theorem half?_eq_some {c : Char} {half : Nat} (h : half? c = some half) :
    c.toNat = 0xd0000 + half ∧ 0xd800 ≤ half ∧ half < 0xe000 := by
  rw [half?] at h
  split at h
  case isFalse => cases h
  case isTrue hrange =>
    simp only [Bool.and_eq_true, decide_eq_true_eq] at hrange
    obtain rfl := Option.some.inj h
    omega

theorem halfChar_eq {c : Char} {half : Nat} (h : half? c = some half) : halfChar half = c := by
  rw [halfChar, ← (half?_eq_some h).1, Char.ofNat_toNat]

/-- A text without halves of pairs. -/
def isWhole (s : String) : Bool := s.toList.all fun c => (half? c).isNone

theorem isWhole_append (s t : String) : isWhole (s ++ t) = (isWhole s && isWhole t) := by
  rw [isWhole, String.toList_append, List.all_append]
  rfl

theorem isWhole_join (texts : List String) : isWhole (String.join texts) = texts.all isWhole := by
  induction texts with
  | nil => rfl
  | cons s rest ih => rw [String.join_cons, isWhole_append, ih, List.all_cons]

/-- The first halves of pairs in a text, and where they are. -/
structure Torn where
  start : Nat
  halves : List Nat
  deriving DecidableEq, Repr

def Torn.ofText (s : String) : Torn :=
  let before := s.toList.takeWhile fun c => (half? c).isNone
  ⟨before.length, ((s.toList.drop before.length).takeWhile fun c => (half? c).isSome).filterMap half?⟩

/-- The bytes of a text, if it has any. -/
def encodeUtf8 (s : String) : Except Torn (List UInt8) :=
  if isWhole s then .ok (utf8Bytes s) else .error (.ofText s)

/-- The escape of half of a pair. -/
def halfEscape (half : Nat) : String := "\\u" ++ hexDigits 4 half

def Torn.message (t : Torn) : String :=
  match t.halves with
  | [half] =>
    s!"'utf-8' codec can't encode character '{halfEscape half}' in position {t.start}: surrogates not allowed"
  | halves =>
    let last := t.start + halves.length - 1
    s!"'utf-8' codec can't encode characters in position {t.start}-{last}: surrogates not allowed"

/-- A text with each half of a pair escaped. -/
def escapeHalves (s : String) : String :=
  String.join (s.toList.map fun c => match half? c with
    | some half => halfEscape half
    | none => c.toString)

end Runbook.Text
