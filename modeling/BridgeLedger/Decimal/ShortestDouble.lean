/-! Natural numbers as doubles: rounding to 53 significant bits, ties to the even neighbour, and the decimal
with the fewest significant digits that still rounds to the same double. -/
namespace BridgeLedger.ShortestDouble

/-- The place value of the last of the 53 bits that a number keeps. -/
def unitInLastPlace (n : Nat) : Nat := 1 <<< (n.log2 - 52)

def round (n : Nat) : Nat :=
  let u := unitInLastPlace n
  let m := n / u
  let rest := n % u
  if u < 2 * rest ∨ (u = 2 * rest ∧ m % 2 = 1) then (m + 1) * u else m * u

/-- Whether `c` rounds to the double `v`. The interval is narrower below a power of two, and its ends belong
to it when the 53 bits are even. -/
def roundsTo (v c : Nat) : Bool :=
  let u := unitInLastPlace v
  let below := if v = 1 <<< v.log2 then u else 2 * u
  if v / u % 2 = 0 then 4 * v ≤ 4 * c + below && 4 * c ≤ 4 * v + 2 * u
  else 4 * v < 4 * c + below && 4 * c < 4 * v + 2 * u

/-- The multiple of `10 ^ e` nearest to `v` that rounds to it, for the largest possible exponent up to
the given one. The higher of two equally near multiples is taken. -/
def coarsest (v : Nat) : (e : Nat) → Nat
  | 0 => v
  | e + 1 =>
    let unit := Nat.pow 10 (e + 1)
    let low := v / unit * unit
    let high := low + unit
    if roundsTo v high && (!roundsTo v low || high - v ≤ v - low) then high
    else if roundsTo v low then low
    else coarsest v e

/-- The shortest decimal that rounds to the double nearest to `n`. A double below 2 ^ 53 is its own. -/
def shortest (n : Nat) : Nat :=
  let v := round n
  if v < 1 <<< 53 then v else coarsest v v.repr.length

end BridgeLedger.ShortestDouble
