import BridgeLedger.Action.Script

/-! Creation of non-fungible tokens. -/
namespace BridgeLedger.Action

/-- Registers a token that is named by the transaction. Its owner need not be the actor. -/
structure CreateNft where
  metadata : Octets
  owner : Address
  url : Octets
deriving DecidableEq

namespace CreateNft

def computeUnits : UInt64 := 10

def encode (a : CreateNft) : Except WireError Octets := do
  let metadata ← Wire.ofPrefixed a.metadata
  let url ← Wire.ofPrefixed a.url
  return metadata ++ a.owner.octets ++ url

def read : Reader CreateNft := do
  return {
    metadata := ← Reader.prefixed Limits.maxMetadata true
    owner := ← Reader.address
    url := ← Reader.prefixed Limits.maxUrl true }

def execute (a : CreateNft) (ctx : Context) : ActionScript Yield := do
  refuseIf a.metadata.isEmpty .metadataEmpty
  refuseIf (Limits.maxMetadata < a.metadata.length) .metadataTooLarge
  refuseIf a.url.isEmpty .urlEmpty
  refuseIf (Limits.maxUrl < a.url.length) .urlTooLarge
  Ledger.setNft ctx.transaction { metadata := a.metadata, owner := a.owner, url := a.url }
  return {}

end CreateNft
end BridgeLedger.Action
