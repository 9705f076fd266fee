/-! Texts that are alike: how much of two texts is common, found by taking the longest common part, and then
what is common before and after it. -/
namespace Runbook.Text

/-- How many characters two texts have in common at their start. -/
def commonStart : List Char → List Char → Nat
  | c :: cs, d :: ds => if c = d then commonStart cs ds + 1 else 0
  | _, _ => 0

/-- A part that two texts have in common: where it starts in each, and its length. -/
structure CommonPart where
  left : Nat
  right : Nat
  size : Nat
  deriving DecidableEq, Repr

/-- The first of the longest common parts. -/
def longestPart (xs ys : List Char) : CommonPart :=
  (List.range xs.length).foldl (fun best i =>
    (List.range ys.length).foldl (fun best j =>
      let size := commonStart (xs.drop i) (ys.drop j)
      if best.size < size then ⟨i, j, size⟩ else best) best) ⟨0, 0, 0⟩

/-- How many characters are common in all, in parts found one inside the remains of another. -/
def commonCount : Nat → List Char → List Char → Nat
  | 0, _, _ => 0
  | fuel + 1, xs, ys =>
    let part := longestPart xs ys
    if part.size = 0 then 0
    else
      part.size + commonCount fuel (xs.take part.left) (ys.take part.right) +
        commonCount fuel (xs.drop (part.left + part.size)) (ys.drop (part.right + part.size))

/-- Twice the common characters, and all characters of both texts. -/
def likeness (x y : String) : Nat × Nat :=
  (2 * commonCount (x.length + 1) x.toList y.toList, x.length + y.length)

/-- Whether one likeness is at least another. -/
def isLikelier (p q : Nat × Nat) : Bool := q.1 * p.2 ≤ p.1 * q.2

/-- At most three texts that are like a word in six parts of ten or more, the likest of all, in order. -/
def closeMatches (word : String) (texts : List String) : List String :=
  let scored := texts.map fun t => (likeness t word, t)
  let close := scored.filter fun (score, _) => isLikelier score (6, 10)
  let ordered := close.mergeSort fun (p, s) (q, t) => isLikelier p q && (!isLikelier q p || t ≤ s)
  ((ordered.take 3).map (·.2)).mergeSort (· ≤ ·)

end Runbook.Text
