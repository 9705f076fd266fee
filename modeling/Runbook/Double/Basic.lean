/-! Binary64 numbers as data. The finite magnitudes of the format are numbered in increasing order: rank
0 is zero, rank 1 the least positive number, and each binade has 2^52 ranks. So a number is its rank and
its sign, neighbours differ by one rank, and rounding is the search for a rank. -/
namespace Runbook

/-- How many finite magnitudes there are. -/
abbrev Double.ranks : Nat := 2047 * Nat.pow 2 52

/-- A binary64 number. -/
inductive Double where
  | nan
  | infinite (negative : Bool)
  | finite (negative : Bool) (rank : Fin Double.ranks)
  deriving DecidableEq

namespace Double

instance : Inhabited Double := ⟨.finite false ⟨0, by decide⟩⟩

/-- The significand of a rank: its magnitude is `significand * 2 ^ exponent`. -/
def significand (rank : Nat) : Nat :=
  if rank < Nat.pow 2 52 then rank else Nat.pow 2 52 + rank % Nat.pow 2 52

def exponent (rank : Nat) : Int :=
  if rank < Nat.pow 2 52 then -1074 else (rank / Nat.pow 2 52 : Nat) - 1075

/-- The magnitude of a rank as a ratio of two integers. -/
def ratio (rank : Nat) : Nat × Nat :=
  (significand rank * Nat.pow 2 (exponent rank).toNat, Nat.pow 2 (-exponent rank).toNat)

/-- The quotient of two numbers to the nearest integer, a half to the even one. -/
def roundQuotient (num den : Nat) : Nat :=
  let q := num / den
  let r := num % den
  if 2 * r < den then q
  else if den < 2 * r then q + 1
  else if q % 2 = 0 then q else q + 1

/-- The ratio of `num / den` to `2 ^ e`. -/
def overPower (num den : Nat) (e : Int) : Nat × Nat :=
  (num * Nat.pow 2 (-e).toNat, den * Nat.pow 2 e.toNat)

/-- The exponent under which `num / den` has a significand below 2^53. -/
def binade (num den : Nat) : Int :=
  let guess : Int := num.log2 - den.log2 - 53
  let (n, d) := overPower num den guess
  max (if n / d < Nat.pow 2 53 then guess else guess + 1) (-1074)

/-- The rank nearest to the positive ratio `num / den`, a tie to the even one. A ratio too large for the
format gets a rank that is none. -/
def nearestRank (num den : Nat) : Nat :=
  if num = 0 then 0
  else
    let e := binade num den
    let (n, d) := overPower num den e
    (e + 1074).toNat * Nat.pow 2 52 + roundQuotient n d

/-- The number of a rank, and an infinity where there is no such rank. -/
def ofRank (negative : Bool) (rank : Nat) : Double :=
  if h : rank < ranks then .finite negative ⟨rank, h⟩ else .infinite negative

/-- The number nearest to an integer. -/
def ofInt (n : Int) : Double := ofRank (n < 0) (nearestRank n.natAbs 1)

def zero : Double := .finite false ⟨0, by decide⟩

def isNaN : Double → Bool
  | .nan => true
  | _ => false

def isFinite : Double → Bool
  | .finite .. => true
  | _ => false

/-- Equality of values: the two zeros are equal, and NaN equals nothing. -/
def equals : Double → Double → Bool
  | .infinite s, .infinite t => s == t
  | .finite s r, .finite t q => r == q && (s == t || r.val == 0)
  | _, _ => false

/-- The integer that a number is, if it is one. -/
def toInt? : Double → Option Int
  | .finite negative rank =>
    let (n, d) := ratio rank
    if n % d = 0 then
      let m : Int := (n / d : Nat)
      some (if negative then -m else m)
    else none
  | _ => none

/-- The same number with the other sign. -/
def negate : Double → Double
  | .nan => .nan
  | .infinite s => .infinite (!s)
  | .finite s r => .finite (!s) r

/-- A number rounded from an exact ratio; a zero is positive. -/
def ofRatio (num : Int) (den : Nat) : Double := ofRank (num < 0) (nearestRank num.natAbs den)

/-- Sum, rounded once. An exact zero is negative only if both terms are. -/
def add : Double → Double → Double
  | .nan, _ | _, .nan => .nan
  | .infinite s, .infinite t => if s = t then .infinite s else .nan
  | .infinite s, _ | _, .infinite s => .infinite s
  | .finite s r, .finite t q =>
    let (n, d) := ratio r
    let (m, e) := ratio q
    let signed (neg : Bool) (k : Nat) : Int := if neg then -(k : Int) else k
    let num := signed s (n * e) + signed t (m * d)
    if num = 0 then .finite (s && t) ⟨0, by decide⟩ else ofRatio num (d * e)

/-- Product with an integer that is itself rounded first; `none` where the integer has no number. -/
def mulNat? (x : Double) (k : Nat) : Option Double :=
  match ofRank false (nearestRank k 1) with
  | .finite _ factor =>
    match x with
    | .nan => some .nan
    | .infinite s => some (if factor.val = 0 then .nan else .infinite s)
    | .finite s r =>
      let (n, d) := ratio r
      let (m, e) := ratio factor
      some (ofRank s (nearestRank (n * m) (d * e)))
  | _ => none

end Double
end Runbook
