/-! UTF-8. Writing is total; reading refuses a malformed sequence and says where it starts, which of
its bytes were read, and what is wrong with it. -/
namespace Runbook.Text

/-- The bytes of a text. -/
def utf8Bytes (s : String) : List UInt8 :=
  s.toList.flatMap String.utf8EncodeChar

/-- What is wrong with a sequence of bytes. -/
inductive Utf8Problem where
  | badStart
  | badContinuation
  | truncated
  deriving DecidableEq, Repr

/-- The bytes `read`, from position `start` on, are no character. -/
structure Utf8Fault where
  start : Nat
  read : List UInt8
  problem : Utf8Problem
  deriving DecidableEq, Repr

/-- A byte that may follow the first one of a sequence. -/
def continues (b : UInt8) : Bool := 0x80 ≤ b && b < 0xc0

/-- The second byte is narrower after four of the first bytes: overlong forms, surrogates and code
points beyond the last one are no characters. -/
def secondFits (a b : UInt8) : Bool :=
  continues b && (a != 0xe0 || 0xa0 ≤ b) && (a != 0xed || b < 0xa0) && (a != 0xf0 || 0x90 ≤ b) &&
    (a != 0xf4 || b < 0x90)

/-- The low bits of a byte. -/
def bits (b : UInt8) (count : Nat) : Nat := b.toNat % Nat.pow 2 count

/-- Reads bytes from position `start` on. -/
def decodeFrom (start : Nat) : List UInt8 → Except Utf8Fault (List Char)
  | [] => .ok []
  | a :: rest =>
    if a < 0x80 then
      (decodeFrom (start + 1) rest).map (Char.ofNat a.toNat :: ·)
    else if a < 0xc2 then .error ⟨start, [a], .badStart⟩
    else if a < 0xe0 then
      match rest with
      | [] => .error ⟨start, [a], .truncated⟩
      | b :: rest =>
        if continues b then
          (decodeFrom (start + 2) rest).map (Char.ofNat (bits a 5 * 64 + bits b 6) :: ·)
        else .error ⟨start, [a], .badContinuation⟩
    else if a < 0xf0 then
      match rest with
      | [] => .error ⟨start, [a], .truncated⟩
      | b :: rest =>
        if !secondFits a b then .error ⟨start, [a], .badContinuation⟩ else
        match rest with
        | [] => .error ⟨start, [a, b], .truncated⟩
        | c :: rest =>
          if continues c then
            (decodeFrom (start + 3) rest).map
              (Char.ofNat (bits a 4 * 4096 + bits b 6 * 64 + bits c 6) :: ·)
          else .error ⟨start, [a, b], .badContinuation⟩
    else if a < 0xf5 then
      match rest with
      | [] => .error ⟨start, [a], .truncated⟩
      | b :: rest =>
        if !secondFits a b then .error ⟨start, [a], .badContinuation⟩ else
        match rest with
        | [] => .error ⟨start, [a, b], .truncated⟩
        | c :: rest =>
          if !continues c then .error ⟨start, [a, b], .badContinuation⟩ else
          match rest with
          | [] => .error ⟨start, [a, b, c], .truncated⟩
          | d :: rest =>
            if continues d then
              (decodeFrom (start + 4) rest).map
                (Char.ofNat (bits a 3 * 262144 + bits b 6 * 4096 + bits c 6 * 64 + bits d 6) :: ·)
            else .error ⟨start, [a, b, c], .badContinuation⟩
    else .error ⟨start, [a], .badStart⟩

/-- The text that bytes stand for. -/
def decodeUtf8 (bytes : List UInt8) : Except Utf8Fault (List Char) := decodeFrom 0 bytes

/-- Lower-case hexadecimal digits of a number, padded with zeros to a width. -/
def hexDigits (width n : Nat) : String :=
  let digits := Nat.toDigits 16 n
  String.ofList (List.replicate (width - digits.length) '0' ++ digits)

/-- Two lower-case hexadecimal digits. -/
def hexByte (b : UInt8) : String :=
  String.ofList [Nat.digitChar (b.toNat / 16), Nat.digitChar (b.toNat % 16)]

def Utf8Problem.message : Utf8Problem → String
  | .badStart => "invalid start byte"
  | .badContinuation => "invalid continuation byte"
  | .truncated => "unexpected end of data"

def Utf8Fault.message (f : Utf8Fault) : String :=
  match f.read with
  | [b] => s!"'utf-8' codec can't decode byte 0x{hexByte b} in position {f.start}: {f.problem.message}"
  | bs =>
    let last := f.start + bs.length - 1
    s!"'utf-8' codec can't decode bytes in position {f.start}-{last}: {f.problem.message}"

end Runbook.Text
