import BridgeLedger.Wire.OptionalSection

/-! What a bridged transfer offers besides its value: a reward for whoever imports it, and a swap. -/
namespace BridgeLedger.Bridge

/-- A swap on the destination: part of the value against another asset. All zero when there is none. -/
structure SwapTerms where
  amountIn : UInt64
  assetOut : Identifier
  amountOut : UInt64
  /-- the time in milliseconds until which the importer is bound to the swap -/
  expiry : Int64
deriving DecidableEq

structure Terms where
  reward : UInt64
  swap : SwapTerms
deriving DecidableEq

namespace SwapTerms

def offered (s : SwapTerms) : Bool := 0 < s.amountIn

/-- Whether the terms fit a transfer of `value`: no more than the value is offered and something is wanted
for it, or nothing is offered and all terms are zero. -/
def valid (s : SwapTerms) (value : UInt64) : Bool :=
  if s.expiry < 0 ∨ value < s.amountIn then false
  else if s.offered then 0 < s.amountOut
  else s.assetOut.isEmpty && s.amountOut == 0 && s.expiry == 0

end SwapTerms

namespace Terms

def toSection (t : Terms) : Wire.OptionalSection :=
  ⟨[.uint64 t.reward, .uint64 t.swap.amountIn, .identifier t.swap.assetOut, .uint64 t.swap.amountOut,
    .int64 t.swap.expiry], by simp [Wire.maxFields]⟩

def octets (t : Terms) : Octets := t.toSection.octets

def read : Reader Terms := do
  let mask ← Reader.uint8
  let reward ← Wire.optionalUInt64 mask 0
  let amountIn ← Wire.optionalUInt64 mask 1
  let assetOut ← Wire.optionalIdentifier mask 2
  let amountOut ← Wire.optionalUInt64 mask 3
  let expiry ← Wire.optionalInt64 mask 4
  Wire.endSection mask 5
  return { reward, swap := { amountIn, assetOut, amountOut, expiry } }

end Terms
end BridgeLedger.Bridge
