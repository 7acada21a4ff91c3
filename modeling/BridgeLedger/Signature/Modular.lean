/-! Arithmetic of residues, on their least representatives. -/
namespace BridgeLedger.Modular

def sub (m a b : Nat) : Nat := (a + (m - b % m)) % m

/-- Multiplies `result` by the power of `base` whose exponent has the `bits` low-order bits of `e`. -/
def powBits (m : Nat) : (bits : Nat) → (base e result : Nat) → Nat
  | 0, _, _, result => result
  | bits + 1, base, e, result =>
    powBits m bits (base * base % m) (e / 2) (if e % 2 = 1 then result * base % m else result)

def pow (m base e : Nat) : Nat := powBits m (e.log2 + 1) (base % m) e (1 % m)

/-- The inverse of a residue that is not zero, for a prime modulus: its power with exponent `m - 2`. -/
def inverse (m a : Nat) : Nat := pow m a (m - 2)

/-- The multiple of a point by the `bits` low-order bits of `k`, by doubling and adding from the top. -/
def multiply {α : Type} (zero : α) (add : α → α → α) (point : α) (k : Nat) : (bits : Nat) → α
  | 0 => zero
  | bits + 1 =>
    let half := multiply zero add point (k / 2) bits
    let twice := add half half
    if k % 2 = 1 then add twice point else twice

end BridgeLedger.Modular
