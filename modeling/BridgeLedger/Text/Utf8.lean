import BridgeLedger.Octets

/-! Text as UTF-8 bytes, and bytes as text where every fault is replaced. A fault is a longest run of bytes
that starts some well-formed sequence and cannot be continued; each becomes one replacement character. -/
namespace BridgeLedger.Utf8

def encode (text : String) : Octets := text.toList.flatMap String.utf8EncodeChar

/-- What a started sequence still waits for: how many bytes, the range of the next one, the bits so far. -/
structure Pending where
  missing : Nat
  low : UInt8
  high : UInt8
  bits : Nat

inductive Start where
  | character (c : Char)
  | sequence (pending : Pending)
  | fault

/-- The role of a byte that no sequence waits for. The ranges exclude overlong forms, surrogates and
numbers past the last code point. -/
def start (b : UInt8) : Start :=
  let n := b.toNat
  if n < 0x80 then .character (Char.ofNat n)
  else if n < 0xC2 then .fault
  else if n < 0xE0 then .sequence ⟨1, 0x80, 0xBF, n - 0xC0⟩
  else if n < 0xF0 then
    .sequence ⟨2, if n = 0xE0 then 0xA0 else 0x80, if n = 0xED then 0x9F else 0xBF, n - 0xE0⟩
  else if n < 0xF5 then
    .sequence ⟨3, if n = 0xF0 then 0x90 else 0x80, if n = 0xF4 then 0x8F else 0xBF, n - 0xF0⟩
  else .fault

def replacement : Char := Char.ofNat 0xFFFD

def decodeFrom : Option Pending → Octets → List Char
  | none, [] => []
  | some _, [] => [replacement]
  | none, b :: rest =>
    match start b with
    | .character c => c :: decodeFrom none rest
    | .sequence p => decodeFrom (some p) rest
    | .fault => replacement :: decodeFrom none rest
  | some p, b :: rest =>
    if p.low ≤ b ∧ b ≤ p.high then
      let bits := p.bits * 64 + (b.toNat - 0x80)
      if p.missing ≤ 1 then Char.ofNat bits :: decodeFrom none rest
      else decodeFrom (some ⟨p.missing - 1, 0x80, 0xBF, bits⟩) rest
    else
      replacement :: match start b with
        | .character c => c :: decodeFrom none rest
        | .sequence q => decodeFrom (some q) rest
        | .fault => replacement :: decodeFrom none rest

def decodeLossy (bytes : Octets) : String := String.ofList (decodeFrom none bytes)

/-- The text of some bytes, when they have no fault: then the text has just these bytes. -/
def decode? (bytes : Octets) : Option String :=
  let text := decodeLossy bytes
  if encode text = bytes then some text else none

end BridgeLedger.Utf8
