import BridgeLedger.Octets

/-! Hexadecimal text of byte strings: lower case when written, either case when read. -/
namespace BridgeLedger.Hex

def digit (n : Nat) : Char := if n < 10 then Char.ofNat (48 + n) else Char.ofNat (87 + n)

def digitValue? (c : Char) : Option Nat :=
  if '0' ≤ c ∧ c ≤ '9' then some (c.toNat - 48)
  else if 'a' ≤ c ∧ c ≤ 'f' then some (c.toNat - 87)
  else if 'A' ≤ c ∧ c ≤ 'F' then some (c.toNat - 55)
  else none

def encode (bytes : Octets) : String :=
  String.ofList (bytes.flatMap fun b => [digit (b.toNat / 16), digit (b.toNat % 16)])

private def decodeChars : List Char → Option Octets
  | [] => some []
  | [_] => none
  | a :: b :: rest => do
    let high ← digitValue? a
    let low ← digitValue? b
    let bytes ← decodeChars rest
    return UInt8.ofNat (high * 16 + low) :: bytes

def decode? (text : String) : Option Octets := decodeChars text.toList

end BridgeLedger.Hex
