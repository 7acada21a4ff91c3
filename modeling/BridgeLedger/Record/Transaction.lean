import BridgeLedger.Resources

/-! Records of executed transactions. -/
namespace BridgeLedger

structure TransactionRecord where
  /-- block time in milliseconds -/
  timestamp : Int64
  success : Bool
  resources : Resources
  fee : UInt64
deriving DecidableEq

namespace TransactionRecord

def encode (r : TransactionRecord) : Octets :=
  Wire.ofInt64 r.timestamp ++ Wire.ofBool r.success ++ r.resources.octets ++ Wire.ofUInt64 r.fee

def read : Reader TransactionRecord := do
  return {
    timestamp := ← Reader.int64
    success := ← Reader.bool
    resources := ← Resources.read
    fee := ← Reader.uint64 false }

def decode (bytes : Octets) : Except WireError TransactionRecord := Reader.readAll read bytes

end TransactionRecord
end BridgeLedger
