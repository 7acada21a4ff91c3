import BridgeLedger.Wire.Reader

/-! What the execution of a transaction consumed. -/
namespace BridgeLedger

structure Resources where
  bandwidth : UInt64
  compute : UInt64
  reads : UInt64
  allocations : UInt64
  writes : UInt64
deriving DecidableEq

namespace Resources

def toList (r : Resources) : List UInt64 := [r.bandwidth, r.compute, r.reads, r.allocations, r.writes]

def octets (r : Resources) : Octets := r.toList.flatMap Wire.ofUInt64

def read : Reader Resources := do
  return {
    bandwidth := ← Reader.uint64 false
    compute := ← Reader.uint64 false
    reads := ← Reader.uint64 false
    allocations := ← Reader.uint64 false
    writes := ← Reader.uint64 false }

end Resources
end BridgeLedger
