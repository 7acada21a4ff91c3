import BridgeLedger.Action.Script

/-! Transfers of non-fungible tokens. -/
namespace BridgeLedger.Action

/-- Gives a token of the actor to another owner; the empty address burns it. -/
structure TransferNft where
  recipient : Address
  nft : Identifier
  memo : Octets
deriving DecidableEq

namespace TransferNft

def computeUnits : UInt64 := 1

def encode (a : TransferNft) : Except WireError Octets := do
  let memo ← Wire.ofPrefixed a.memo
  return a.recipient.octets ++ a.nft.octets ++ memo

def read : Reader TransferNft := do
  return {
    recipient := ← Reader.address
    nft := ← Reader.identifier false
    memo := ← Reader.prefixed Limits.maxMemo false }

def execute (a : TransferNft) (ctx : Context) : ActionScript Yield := do
  refuseIf (Limits.maxMemo < a.memo.length) .memoTooLarge
  let some record ← Ledger.nft? a.nft | refuse .nftMissing
  refuseIf (record.owner != ctx.actor) .notNftOwner
  Ledger.setNft a.nft { record with owner := a.recipient }
  return {}

end TransferNft
end BridgeLedger.Action
