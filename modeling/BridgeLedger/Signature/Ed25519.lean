import BridgeLedger.Digest.Sha512
import BridgeLedger.Signature.Modular

/-! The signature scheme Ed25519. Verification compares the encoded point with the bytes of the signature, so
only the canonical bytes of a point are accepted there, while a public key may also give a coordinate that is
not reduced. -/
namespace BridgeLedger.Ed25519

def prime : Nat := (1 <<< 255) - 19

def order : Nat := (1 <<< 252) + 27742317777372353535851937790883648493

def curveD : Nat := 37095705934669439343138083508754565189542113879843219016388785533085940283555

def rootMinusOne : Nat := 19681161376707505956807079304988542015446066515923890162744021073123829784752

/-- A point `(x / z, y / z)` with `t = x * y / z`. -/
structure Point where
  x : Nat
  y : Nat
  z : Nat
  t : Nat

private def mul (a b : Nat) : Nat := a * b % prime
private def sub (a b : Nat) : Nat := Modular.sub prime a b

namespace Point

def zero : Point := ⟨0, 1, 1, 0⟩

def ofCoordinates (x y : Nat) : Point := ⟨x, y, 1, mul x y⟩

def base : Point := ofCoordinates
  15112221349535400772501151409588531511454012693041857206046113283949847762202
  46316835694926478169428394003475163141307993866256225615783033603165251855960

def add (p q : Point) : Point :=
  let a := mul (sub p.y p.x) (sub q.y q.x)
  let b := mul (p.y + p.x) (q.y + q.x)
  let c := mul (2 * curveD) (mul p.t q.t)
  let d := mul 2 (mul p.z q.z)
  let e := sub b a
  let f := sub d c
  let g := d + c
  let h := b + a
  ⟨mul e f, mul g h, mul f g, mul e h⟩

def negate (p : Point) : Point := ⟨sub 0 p.x, p.y, p.z, sub 0 p.t⟩

def multiply (p : Point) (k : Nat) : Point := Modular.multiply zero add p k (k.log2 + 1)

/-- The bytes of a point: its second coordinate, with the parity of the first in the top bit. -/
def encode (p : Point) : Block 32 :=
  let inverse := Modular.inverse prime p.z
  let x := mul p.x inverse
  let y := mul p.y inverse
  ⟨(bigEndian 32 (y + (x % 2) <<< 255)).reverse, by rw [List.length_reverse, length_bigEndian]⟩

/-- The point that 32 bytes name. The first coordinate is a root of `(y² - 1) / (d y² + 1)` of the given
parity; zero is taken for both parities. -/
def decode? (bytes : Octets) : Option Point :=
  let n := ofBigEndian bytes.reverse
  let y := n % (1 <<< 255) % prime
  let u := sub (mul y y) 1
  let v := (mul curveD (mul y y) + 1) % prime
  let candidate := mul u (Modular.pow prime (mul u v) ((prime - 5) / 8))
  let check := mul v (mul candidate candidate)
  let root? :=
    if check = u then some candidate
    else if check = sub 0 u then some (mul candidate rootMinusOne)
    else none
  root?.map fun x => ofCoordinates (if x % 2 = n >>> 255 then x else sub 0 x) y

end Point

def hashNumber (bytes : Octets) : Nat := ofBigEndian (Sha512.digest bytes).octets.reverse

def verify (publicKey signature message : Octets) : Bool :=
  let r := signature.take 32
  let s := ofBigEndian (signature.drop 32).reverse
  match Point.decode? publicKey with
  | none => false
  | some a =>
    let h := hashNumber (r ++ publicKey ++ message) % order
    decide (s < order) && ((Point.base.multiply s).add (a.negate.multiply h)).encode.octets == r

def expand (seed : Octets) : Nat × Octets :=
  let digest := (Sha512.digest seed).octets
  let n := ofBigEndian (digest.take 32).reverse
  (n % (1 <<< 254) / 8 * 8 + (1 <<< 254), digest.drop 32)

def publicKey (seed : Octets) : Block 32 := (Point.base.multiply (expand seed).1).encode

def sign (seed message : Octets) : Block 64 :=
  let (secret, nonceKey) := expand seed
  let r := hashNumber (nonceKey ++ message) % order
  let point := (Point.base.multiply r).encode
  let h := hashNumber (point.octets ++ (publicKey seed).octets ++ message) % order
  ⟨point.octets ++ (bigEndian 32 ((r + h * secret) % order)).reverse,
    by rw [List.length_append, List.length_reverse, length_bigEndian, point.length_octets]⟩

end BridgeLedger.Ed25519
