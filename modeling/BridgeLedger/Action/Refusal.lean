import BridgeLedger.Ledger.Error

/-! Why an action fails without effect. -/
namespace BridgeLedger

inductive Refusal where
  | valueZero
  | memoTooLarge
  | nativeAsset
  | assetMissing
  | bridgedAsset
  | notBridgedAsset
  | wrongOwner
  | symbolEmpty
  | symbolMismatch
  | symbolTooLarge
  | decimalsMismatch
  | decimalsTooLarge
  | metadataEmpty
  | metadataTooLarge
  | urlEmpty
  | urlTooLarge
  | conflictingAsset
  | maxSupplyTooLarge
  | maxSupplyExceeded
  | unverified
  | alreadyImported
  | localDestination
  | mustFill
  | noSwapToFill
  | invalidSwap
  | anyDestination
  | wrongDestination
  | nftUnnamed
  | nftMissing
  | notNftOwner
  | totalOverflow
  | accounting (e : LedgerError)
deriving DecidableEq

def Refusal.message : Refusal → String
  | .valueZero => "value is zero"
  | .memoTooLarge => "memo is too large"
  | .nativeAsset => "cannot mint native asset"
  | .assetMissing => "asset missing"
  | .bridgedAsset => "warp asset"
  | .notBridgedAsset => "not warp asset"
  | .wrongOwner => "wrong owner"
  | .symbolEmpty => "symbol is empty"
  | .symbolMismatch => "symbol is incorrect"
  | .symbolTooLarge => "symbol is too large"
  | .decimalsMismatch => "decimal is incorrect"
  | .decimalsTooLarge => "decimal is too large"
  | .metadataEmpty => "metadata is empty"
  | .metadataTooLarge => "metadata is too large"
  | .urlEmpty => "url is empty"
  | .urlTooLarge => "url is too large"
  | .conflictingAsset => "warp has same asset as another"
  | .maxSupplyTooLarge => "max supply is too large"
  | .maxSupplyExceeded => "max supply exceeded"
  | .unverified => "warp verification failed"
  | .alreadyImported => "warp message already imported"
  | .localDestination => "invalid destination"
  | .mustFill => "must fill request"
  | .noSwapToFill => "no swap to fill"
  | .invalidSwap => "invalid swap params"
  | .anyDestination => "anycast output"
  | .wrongDestination => "wrong destination"
  | .nftUnnamed => "nft id is empty"
  | .nftMissing => "NFT not found"
  | .notNftOwner => "not owner of NFT"
  | .totalOverflow => "value plus reward overflows"
  | .accounting e => e.message

end BridgeLedger
