import DegreeAudit.Number.Binary64

/-!
# The shortest decimal that reads back

A value is written with the fewest significant digits that read back as it, and among those with
the digits nearest to it. For each number of digits only the two neighbours of the value on that
decimal grid can be nearest, so only these are tried.
-/

namespace DegreeAudit.Binary64

/-- The number of decimal digits of a positive number. -/
def digitCount (n : Nat) : Nat := (Nat.toDigits 10 n).length

/-- Numerator and denominator of a finite value without its sign. -/
def ratio (mantissa : Nat) (exponent : Int) : Nat × Nat :=
  if 0 ≤ exponent then (mantissa * Nat.pow 2 exponent.toNat, 1)
  else (mantissa, Nat.pow 2 (-exponent).toNat)

/-- The number `p` with `10 ^ (p - 1) ≤ num / den < 10 ^ p`, for a quotient above `10 ^ -340`. -/
def magnitude (num den : Nat) : Int := (digitCount (num * Nat.pow 10 340 / den) : Int) - 340

/-- Whether `digits · 10 ^ exponent` reads back as the value. -/
def readsBack (x : Binary64) (digits : Nat) (exponent : Int) : Bool :=
  ofDecimal false digits (digitCount digits) exponent == x

/-- The value's lower neighbour on the grid of multiples of `10 ^ exponent`, and whether the upper
neighbour is nearer. -/
def neighbours (num den : Nat) (exponent : Int) : Nat × Bool :=
  let (n, d) :=
    if 0 ≤ exponent then (num, den * Nat.pow 10 exponent.toNat)
    else (num * Nat.pow 10 (-exponent).toNat, den)
  let low := n / d
  let twice := 2 * (n % d)
  (low, if twice = d then low % 2 = 1 else decide (d < twice))

/-- The first grid, from `count` digits on, with a neighbour that reads back. -/
def searchDigits (x : Binary64) (num den : Nat) (top : Int) : Nat → Nat → Nat × Int
  | 0, count =>
    let e := top - count
    ((neighbours num den e).1, e)
  | fuel + 1, count =>
    let e := top - count
    let (low, upperNearer) := neighbours num den e
    let (first, second) := if upperNearer then (low + 1, low) else (low, low + 1)
    if readsBack x first e then (first, e)
    else if readsBack x second e then (second, e)
    else searchDigits x num den top fuel (count + 1)

/-- The decimal `digits · 10 ^ exponent` of fewest digits that reads back as the positive value
`mantissa · 2 ^ exponent`. Seventeen digits always do. -/
def shortest (mantissa : Nat) (exponent : Int) : Nat × Int :=
  let (num, den) := ratio mantissa exponent
  searchDigits (finite false mantissa exponent) num den (magnitude num den) 17 1

/-- The digits without the zeros at the end, and how many there were. -/
def dropZeros (digits : List Char) : List Char × Nat :=
  let kept := (digits.reverse.dropWhile (· == '0')).reverse
  (kept, digits.length - kept.length)

/-- A sign, at least two digits. -/
def exponentText (e : Int) : List Char :=
  let ds := Nat.toDigits 10 e.natAbs
  (if e < 0 then '-' else '+') :: (if ds.length < 2 then '0' :: ds else ds)

/-- Writes `0.d₁d₂… · 10 ^ point`: with a point in place from `10 ^ -4` up to below `10 ^ 16`, and
with an exponent of at least two digits outside. A whole number keeps `.0` after the point. -/
def layOut (digits : List Char) (point : Int) : List Char :=
  if point ≤ -4 ∨ 16 < point then
    let mantissa :=
      match digits with
      | [] => []
      | [d] => [d]
      | d :: ds => d :: '.' :: ds
    mantissa ++ 'e' :: exponentText (point - 1)
  else if point ≤ 0 then
    '0' :: '.' :: List.replicate (-point).toNat '0' ++ digits
  else if digits.length ≤ point.toNat then
    digits ++ List.replicate (point.toNat - digits.length) '0' ++ ['.', '0']
  else
    digits.take point.toNat ++ '.' :: digits.drop point.toNat

/-- The decimal text of a finite value. -/
def finiteText (negative : Bool) (mantissa : Nat) (exponent : Int) : List Char :=
  let sign := if negative then ['-'] else []
  if mantissa = 0 then sign ++ ['0', '.', '0']
  else
    let (n, e) := shortest mantissa exponent
    let (kept, zeros) := dropZeros (Nat.toDigits 10 n)
    sign ++ layOut kept (e + zeros + kept.length)

end DegreeAudit.Binary64
