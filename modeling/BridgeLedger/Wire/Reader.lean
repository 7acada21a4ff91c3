import BridgeLedger.Wire.Writer

/-! Readers consume the front of their input. A reader that fails keeps the position it had reached:
a field that was read and then refused stays consumed. -/
namespace BridgeLedger

abbrev Reader (α : Type) := EStateM WireError Octets α

namespace Reader

/-- The next `n` bytes; input that is too short is left as it is. -/
def take (n : Nat) : Reader Octets := fun input =>
  if n ≤ input.length then .ok (input.take n) (input.drop n) else .error .truncated input

def block (n : Nat) : Reader (Block n) := fun input =>
  if h : n ≤ input.length then .ok ⟨input.take n, by simp [h]⟩ (input.drop n) else .error .truncated input

def number (n : Nat) : Reader Nat := ofBigEndian <$> take n

def require (condition : Bool) (e : WireError) : Reader Unit := if condition then pure () else throw e

def uint8 : Reader UInt8 := UInt8.ofNat <$> number 1

def bool : Reader Bool := do
  match ← uint8 with
  | 0 => return false
  | 1 => return true
  | _ => throw .invalidBool

def uint16 : Reader UInt16 := UInt16.ofNat <$> number 2

def uint32 : Reader UInt32 := UInt32.ofNat <$> number 4

def uint64 (required : Bool) : Reader UInt64 := do
  let v ← UInt64.ofNat <$> number 8
  require (!required || v != 0) .missing
  return v

def int64 : Reader Int64 := (fun n => (UInt64.ofNat n).toInt64) <$> number 8

def identifier (required : Bool) : Reader Identifier := do
  let x ← Identifier.mk <$> block 32
  require (!required || !x.isEmpty) .missing
  return x

def address : Reader Address := Address.mk <$> block 32

/-- A byte string after its length: at most `max` bytes, and not empty when one is required. -/
def prefixed (max : Nat) (required : Bool) : Reader Octets := do
  let n ← UInt16.toNat <$> uint16
  require (n ≤ max) .tooLarge
  require (!required || n != 0) .missing
  take n

def finish : Reader Unit := fun input =>
  if input.isEmpty then .ok () input else .error .trailingBytes input

def readAll {α : Type} (r : Reader α) (bytes : Octets) : Except WireError α :=
  match (do let v ← r; finish; return v : Reader α) bytes with
  | .ok v _ => .ok v
  | .error e _ => .error e

end Reader
end BridgeLedger
