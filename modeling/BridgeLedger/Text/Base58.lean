import BridgeLedger.Octets

/-! Base-58 text of byte strings. The bytes are read as one big-endian number whose leading zero bytes,
which the number forgets, are written as leading ones. -/
namespace BridgeLedger.Base58

/-- The fifty-eight digits: no zero, no capital O or I, no small l. -/
def alphabet : List Char := "123456789ABCDEFGHJKLMNPQRSTUVWXYZabcdefghijkmnopqrstuvwxyz".toList

/-- Digits of `n` in a base, least significant first; zero has none. -/
def digits (base n : Nat) : List Nat :=
  if _ : 1 < base ∧ 0 < n then n % base :: digits base (n / base) else []
termination_by n
decreasing_by rename_i h; exact Nat.div_lt_self h.2 h.1

/-- A one for every leading zero byte, then the number in base fifty-eight. -/
def encode (bytes : Octets) : String :=
  let zeros := (bytes.takeWhile (· = 0)).map fun _ => '1'
  let number := (digits 58 (ofBigEndian bytes)).reverse.map fun d => alphabet.getD d '1'
  String.ofList (zeros ++ number)

def decode? (text : String) : Option Octets := do
  let values ← text.toList.mapM alphabet.idxOf?
  let zeros := (values.takeWhile (· = 0)).map fun _ => 0
  let number := values.foldl (fun n d => n * 58 + d) 0
  return zeros ++ (digits 256 number).reverse.map UInt8.ofNat

end BridgeLedger.Base58
