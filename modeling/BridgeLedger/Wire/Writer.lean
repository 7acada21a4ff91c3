import BridgeLedger.Identity
import BridgeLedger.Wire.Error

/-! How single fields are written. Numbers are big-endian of fixed width, a byte string follows its
two-byte length, and only a byte string that is too long for that length cannot be written. -/
namespace BridgeLedger.Wire

def ofBool (v : Bool) : Octets := [if v then 1 else 0]

def ofUInt16 (v : UInt16) : Octets := bigEndian 2 v.toNat

def ofUInt32 (v : UInt32) : Octets := bigEndian 4 v.toNat

def ofUInt64 (v : UInt64) : Octets := bigEndian 8 v.toNat

def ofInt64 (v : Int64) : Octets := ofUInt64 v.toUInt64

/-- The longest byte string that a two-byte length can announce. -/
def maxPrefixed : Nat := 65535

def ofPrefixed (bytes : Octets) : Except WireError Octets :=
  if bytes.length ≤ maxPrefixed then .ok (ofUInt16 (UInt16.ofNat bytes.length) ++ bytes) else .error .tooLarge

end BridgeLedger.Wire
