import BridgeLedger.Action.Script

/-! Creation of fungible assets. -/
namespace BridgeLedger.Action

structure CreateAsset where
  symbol : Octets
  decimals : UInt8
  metadata : Octets
  maxSupply : UInt64
deriving DecidableEq

namespace CreateAsset

def computeUnits : UInt64 := 10

def encode (a : CreateAsset) : Except WireError Octets := do
  let symbol ← Wire.ofPrefixed a.symbol
  let metadata ← Wire.ofPrefixed a.metadata
  return symbol ++ [a.decimals] ++ metadata ++ Wire.ofUInt64 a.maxSupply

def read : Reader CreateAsset := do
  return {
    symbol := ← Reader.prefixed Limits.maxSymbol true
    decimals := ← Reader.uint8
    metadata := ← Reader.prefixed Limits.maxMetadata true
    maxSupply := ← Reader.uint64 true }

def execute (a : CreateAsset) (ctx : Context) : ActionScript Yield := do
  refuseIf a.symbol.isEmpty .symbolEmpty
  refuseIf (Limits.maxSymbol < a.symbol.length) .symbolTooLarge
  refuseIf (Limits.maxDecimals < a.decimals) .decimalsTooLarge
  refuseIf a.metadata.isEmpty .metadataEmpty
  refuseIf (Limits.maxMetadata < a.metadata.length) .metadataTooLarge
  refuseIf (Limits.maxSupply < a.maxSupply) .maxSupplyTooLarge
  Ledger.setAsset ctx.transaction {
    symbol := a.symbol
    decimals := a.decimals
    metadata := a.metadata
    supply := 0
    maxSupply := a.maxSupply
    owner := ctx.actor
    bridged := false }
  return {}

end CreateAsset
end BridgeLedger.Action
