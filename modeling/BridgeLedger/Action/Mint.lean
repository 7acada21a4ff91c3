import BridgeLedger.Action.Script

/-! Minting of an asset by its owner. -/
namespace BridgeLedger.Action

structure Mint where
  recipient : Address
  asset : Identifier
  value : UInt64
deriving DecidableEq

namespace Mint

def computeUnits : UInt64 := 2

def encode (a : Mint) : Octets := a.recipient.octets ++ a.asset.octets ++ Wire.ofUInt64 a.value

def read : Reader Mint := do
  return {
    recipient := ← Reader.address
    asset := ← Reader.identifier true
    value := ← Reader.uint64 true }

def execute (a : Mint) (ctx : Context) : ActionScript Yield := do
  refuseIf a.asset.isEmpty .nativeAsset
  refuseIf (a.value == 0) .valueZero
  let some record ← Ledger.asset? a.asset | refuse .assetMissing
  refuseIf (record.owner != ctx.actor) .wrongOwner
  refuseIf record.bridged .bridgedAsset
  let some supply := Amount.add? record.supply a.value | refuse .maxSupplyExceeded
  refuseIf (record.maxSupply < supply) .maxSupplyExceeded
  Ledger.addBalance a.recipient a.asset a.value true
  Ledger.setAsset a.asset { record with supply }
  return {}

end Mint
end BridgeLedger.Action
