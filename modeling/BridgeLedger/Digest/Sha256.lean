import BridgeLedger.Octets

/-! The hash function SHA-256 on byte strings. Everything is structural recursion on lists, so that the
digest of a concrete message can also be computed inside a proof. -/
namespace BridgeLedger.Sha256

structure Words where
  (a b c d e f g h : UInt32)
deriving DecidableEq

def roundConstants : List UInt32 := [
  0x428a2f98, 0x71374491, 0xb5c0fbcf, 0xe9b5dba5, 0x3956c25b, 0x59f111f1, 0x923f82a4, 0xab1c5ed5,
  0xd807aa98, 0x12835b01, 0x243185be, 0x550c7dc3, 0x72be5d74, 0x80deb1fe, 0x9bdc06a7, 0xc19bf174,
  0xe49b69c1, 0xefbe4786, 0x0fc19dc6, 0x240ca1cc, 0x2de92c6f, 0x4a7484aa, 0x5cb0a9dc, 0x76f988da,
  0x983e5152, 0xa831c66d, 0xb00327c8, 0xbf597fc7, 0xc6e00bf3, 0xd5a79147, 0x06ca6351, 0x14292967,
  0x27b70a85, 0x2e1b2138, 0x4d2c6dfc, 0x53380d13, 0x650a7354, 0x766a0abb, 0x81c2c92e, 0x92722c85,
  0xa2bfe8a1, 0xa81a664b, 0xc24b8b70, 0xc76c51a3, 0xd192e819, 0xd6990624, 0xf40e3585, 0x106aa070,
  0x19a4c116, 0x1e376c08, 0x2748774c, 0x34b0bcb5, 0x391c0cb3, 0x4ed8aa4a, 0x5b9cca4f, 0x682e6ff3,
  0x748f82ee, 0x78a5636f, 0x84c87814, 0x8cc70208, 0x90befffa, 0xa4506ceb, 0xbef9a3f7, 0xc67178f2]

def initial : Words :=
  ⟨0x6a09e667, 0xbb67ae85, 0x3c6ef372, 0xa54ff53a, 0x510e527f, 0x9b05688c, 0x1f83d9ab, 0x5be0cd19⟩

def rotate (x n : UInt32) : UInt32 := (x >>> n) ||| (x <<< (32 - n))

/-- One round; `k` is the round constant plus the scheduled word. -/
def round (s : Words) (k : UInt32) : Words :=
  let s1 := rotate s.e 6 ^^^ rotate s.e 11 ^^^ rotate s.e 25
  let choice := (s.e &&& s.f) ^^^ (~~~ s.e &&& s.g)
  let t := s.h + s1 + choice + k
  let s0 := rotate s.a 2 ^^^ rotate s.a 13 ^^^ rotate s.a 22
  let majority := (s.a &&& s.b) ^^^ (s.a &&& s.c) ^^^ (s.b &&& s.c)
  ⟨t + (s0 + majority), s.a, s.b, s.c, s.d + t, s.e, s.f, s.g⟩

def nextWord : List UInt32 → UInt32
  | [w0, w1, _, _, _, _, _, _, _, w9, _, _, _, _, w14, _] =>
    let s0 := rotate w1 7 ^^^ rotate w1 18 ^^^ (w1 >>> 3)
    let s1 := rotate w14 17 ^^^ rotate w14 19 ^^^ (w14 >>> 10)
    w0 + s0 + w9 + s1
  | _ => 0

def rounds : List UInt32 → List UInt32 → Words → Words
  | [], _, s => s
  | k :: ks, window, s => rounds ks (window.tail ++ [nextWord window]) (round s (k + window.headD 0))

def compress (s : Words) (block : List UInt32) : Words :=
  let t := rounds roundConstants block s
  ⟨s.a + t.a, s.b + t.b, s.c + t.c, s.d + t.d, s.e + t.e, s.f + t.f, s.g + t.g, s.h + t.h⟩

def words : Octets → List UInt32
  | a :: b :: c :: d :: rest =>
    (a.toUInt32 <<< 24 ||| b.toUInt32 <<< 16 ||| c.toUInt32 <<< 8 ||| d.toUInt32) :: words rest
  | _ => []

def blockCount (n : Nat) : Nat := (n + 72) / 64

/-- The message, a one bit, zero bits up to a full block, and the bit length in the last eight bytes. -/
def pad (message : Octets) : Octets :=
  let n := message.length
  message ++ 0x80 :: List.replicate (blockCount n * 64 - (n + 9)) 0 ++ bigEndian 8 (n * 8)

def absorb : (count : Nat) → List UInt32 → Words → Words
  | 0, _, s => s
  | count + 1, ws, s => absorb count (ws.drop 16) (compress s (ws.take 16))

def Words.octets (s : Words) : Octets :=
  [s.a, s.b, s.c, s.d, s.e, s.f, s.g, s.h].flatMap fun w => bigEndian 4 w.toNat

theorem Words.length_octets (s : Words) : s.octets.length = 32 := by simp [Words.octets]

def digest (message : Octets) : Block 32 :=
  let s := absorb (blockCount message.length) (words (pad message)) initial
  ⟨s.octets, s.length_octets⟩

end BridgeLedger.Sha256
