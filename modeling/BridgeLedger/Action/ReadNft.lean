import BridgeLedger.Action.Script

/-! Look-up of non-fungible tokens. -/
namespace BridgeLedger.Action

structure ReadNft where
  nft : Identifier
deriving DecidableEq

namespace ReadNft

def computeUnits : UInt64 := 10

def encode (a : ReadNft) : Octets := a.nft.octets

def read : Reader ReadNft := ReadNft.mk <$> Reader.identifier false

def execute (a : ReadNft) : ActionScript Yield := do
  refuseIf a.nft.isEmpty .nftUnnamed
  let some record ← Ledger.nft? a.nft | refuse .nftMissing
  return { output := record.url }

end ReadNft
end BridgeLedger.Action
