import BridgeLedger.Digest.Sha256
import BridgeLedger.Signature.Modular

/-! The signature scheme ECDSA on the curve P-256 with SHA-256. Keys are uncompressed points and signatures
two numbers of 32 bytes. -/
namespace BridgeLedger.P256

def prime : Nat := 0xffffffff00000001000000000000000000000000ffffffffffffffffffffffff

def order : Nat := 0xffffffff00000000ffffffffffffffffbce6faada7179e84f3b9cac2fc632551

def curveB : Nat := 0x5ac635d8aa3a93e7b3ebbd55769886bc651d06b0cc53b0f63bce3c3e27d2604b

inductive Point where
  | infinity
  | affine (x y : Nat)

private def mul (a b : Nat) : Nat := a * b % prime
private def sub (a b : Nat) : Nat := Modular.sub prime a b

namespace Point

def base : Point := .affine
  0x6b17d1f2e12c4247f8bce6e563a440f277037d812deb33a0f4a13945d898c296
  0x4fe342e2fe1a7f9b8ee7eb4a7c0f9e162bce33576b315ececbb6406837bf51f5

/-- The third point of a line of the given slope, reflected. -/
private def chord (slope x1 y1 x2 : Nat) : Point :=
  let x := sub (sub (mul slope slope) x1) x2
  .affine x (sub (mul slope (sub x1 x)) y1)

def add : Point → Point → Point
  | .infinity, q => q
  | p, .infinity => p
  | .affine x1 y1, .affine x2 y2 =>
    if x1 = x2 then
      if y1 = y2 ∧ y1 ≠ 0 then
        chord (mul (sub (3 * mul x1 x1) 3) (Modular.inverse prime (2 * y1))) x1 y1 x2
      else .infinity
    else chord (mul (sub y2 y1) (Modular.inverse prime (sub x2 x1))) x1 y1 x2

def multiply (p : Point) (k : Nat) : Point := Modular.multiply .infinity add p k (k.log2 + 1)

/-- The point that an uncompressed public key names: reduced coordinates that satisfy the equation. -/
def decode? (bytes : Octets) : Option Point :=
  let x := ofBigEndian ((bytes.drop 1).take 32)
  let y := ofBigEndian (bytes.drop 33)
  let onCurve := mul y y == (mul x (sub (mul x x) 3) + curveB) % prime
  if bytes.head? = some 4 ∧ x < prime ∧ y < prime ∧ onCurve then some (.affine x y) else none

end Point

def hashNumber (message : Octets) : Nat := ofBigEndian (Sha256.digest message).octets

def verify (publicKey signature message : Octets) : Bool :=
  let r := ofBigEndian (signature.take 32)
  let s := ofBigEndian (signature.drop 32)
  match Point.decode? publicKey with
  | none => false
  | some q =>
    if 0 < r ∧ r < order ∧ 0 < s ∧ s < order then
      let w := Modular.inverse order s
      let u1 := hashNumber message * w % order
      let u2 := r * w % order
      match (Point.base.multiply u1).add (q.multiply u2) with
      | .infinity => false
      | .affine x _ => x % order == r
    else false

/-- The signature of a message with a secret and a nonce, which must be secret too and new for each message. -/
def sign (secret nonce : Nat) (message : Octets) : Block 64 :=
  let r := match Point.base.multiply nonce with
    | .infinity => 0
    | .affine x _ => x % order
  let s := Modular.inverse order nonce * (hashNumber message + r * secret) % order
  ⟨bigEndian 32 r ++ bigEndian 32 s, by rw [List.length_append, length_bigEndian, length_bigEndian]⟩

/-- A nonce that only the secret and the message determine. It is never zero. -/
def nonceFor (secret : Nat) (message : Octets) : Nat :=
  ofBigEndian (Sha256.digest (bigEndian 32 secret ++ message)).octets % (order - 1) + 1

end BridgeLedger.P256
