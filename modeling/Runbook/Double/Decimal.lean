import Runbook.Double.Basic

/-! Decimal numbers and binary64 numbers. Reading rounds a decimal to the nearest number; printing
takes the shortest decimal that reads back, and of those the nearest. Each candidate is put to the
reader itself, so what is printed always reads back. -/
namespace Runbook

/-- The number `digits * 10 ^ scale`. -/
structure Decimal where
  digits : Nat
  scale : Int
  deriving DecidableEq, Repr

namespace Decimal

/-- The count of decimal digits. -/
def width (n : Nat) : Nat := (Nat.toDigits 10 n).length

/-- The magnitude as a ratio of two integers. -/
def ratio (x : Decimal) : Nat × Nat := (x.digits * Nat.pow 10 x.scale.toNat, Nat.pow 10 (-x.scale).toNat)

/-- The rank nearest to a decimal. Decimals far outside the format are told by their leading digit's
place, without writing out their powers of ten. -/
def nearestRank (x : Decimal) : Nat :=
  let place : Int := width x.digits + x.scale
  if x.digits = 0 || place < -330 then 0
  else if 320 < place then Double.ranks
  else
    let (n, d) := x.ratio
    Double.nearestRank n d

/-- The number nearest to a decimal with a sign. -/
def toDouble (negative : Bool) (x : Decimal) : Double := .ofRank negative x.nearestRank

/-- A decimal without zeros at the end of its digits. -/
def trimZeros (n : Nat) (scale : Int) : Decimal :=
  if h : n = 0 then ⟨0, 0⟩
  else if n % 10 = 0 then trimZeros (n / 10) (scale + 1)
  else ⟨n, scale⟩
termination_by n
decreasing_by exact Nat.div_lt_self (Nat.pos_of_ne_zero h) (by decide)

end Decimal

namespace Double

/-- The exact decimal of a rank. -/
def exactDecimal (rank : Nat) : Decimal :=
  let (n, d) := ratio rank
  let places := d.log2
  Decimal.trimZeros (n * Nat.pow 5 places) (-places)

/-- The place of the leading digit: the magnitude is at least `10 ^ place`. -/
def leadingPlace (num den : Nat) : Int := Decimal.width (num * Nat.pow 10 400 / den) - 401

/-- The two decimals with `count` digits on either side of a magnitude: the nearer one first, and the even
one where both are as near. -/
def neighbours (rank count : Nat) : Decimal × Decimal :=
  let (num, den) := ratio rank
  let scale := leadingPlace num den - count + 1
  let (n, d) := (num * Nat.pow 10 (-scale).toNat, den * Nat.pow 10 scale.toNat)
  let below : Decimal := ⟨n / d, scale⟩
  let above : Decimal := ⟨n / d + 1, scale⟩
  if roundQuotient n d = n / d then (below, above) else (above, below)

/-- The first of two decimals that reads back as a rank. -/
def readingBack (rank : Nat) (candidates : Decimal × Decimal) : Option Decimal :=
  if candidates.1.nearestRank = rank then some candidates.1
  else if candidates.2.nearestRank = rank then some candidates.2
  else none

/-- The decimal with `count` digits nearest to a rank that reads back as it: one of the two neighbours
of the magnitude on that grid. -/
def decimalOn (rank count : Nat) : Option Decimal := readingBack rank (neighbours rank count)

/-- The shortest decimal that reads back as a rank. -/
def shortest (rank : Nat) : Decimal :=
  if rank = 0 then ⟨0, 0⟩
  else
    match (List.range 17).findSome? fun k => decimalOn rank (k + 1) with
    | some x => Decimal.trimZeros x.digits x.scale
    | none => exactDecimal rank

/-- How numbers are written: the words for the numbers that are not finite, and whether a single digit
before an exponent keeps a fraction. -/
structure Style where
  nan : String
  infinity : String
  fractionBeforeExponent : Bool

/-- An exponent has a sign and at least two digits. -/
def exponentText (e : Int) : String :=
  let digits := toString e.natAbs
  (if e < 0 then "-" else "+") ++ (if digits.length < 2 then "0" ++ digits else digits)

def zeros (n : Nat) : List Char := List.replicate n '0'

/-- A decimal is written out where its point stands from three places before its digits to sixteen after
the first, and with an exponent elsewhere. A number that is whole keeps `.0`. -/
def decimalText (style : Style) (x : Decimal) : String :=
  let digits := Nat.toDigits 10 x.digits
  let point : Int := if x.digits = 0 then 1 else digits.length + x.scale
  if -4 < point && point ≤ 16 then
    if point ≤ 0 then String.ofList (['0', '.'] ++ zeros (-point).toNat ++ digits)
    else
      let whole := point.toNat
      if digits.length ≤ whole then String.ofList (digits ++ zeros (whole - digits.length) ++ ['.', '0'])
      else String.ofList (digits.take whole ++ ['.'] ++ digits.drop whole)
  else
    let fraction :=
      match digits.drop 1 with
      | [] => if style.fractionBeforeExponent then ['.', '0'] else []
      | rest => '.' :: rest
    String.ofList (digits.take 1 ++ fraction) ++ "e" ++ exponentText (point - 1)

def text (style : Style) : Double → String
  | .nan => style.nan
  | .infinite negative => (if negative then "-" else "") ++ style.infinity
  | .finite negative rank => (if negative then "-" else "") ++ decimalText style (shortest rank)

end Double
end Runbook
