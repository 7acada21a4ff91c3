import BridgeLedger.Action.Script
import BridgeLedger.Bridge.Origin
import BridgeLedger.Bridge.Transfer

/-! Export of value to another chain. A local asset is lent to the destination; a bridged asset that goes home
is burned. -/
namespace BridgeLedger.Action

structure Export where
  recipient : Address
  asset : Identifier
  value : UInt64
  returning : Bool
  terms : Bridge.Terms
  destination : Identifier
deriving DecidableEq

namespace Export

def computeUnits : UInt64 := 10

def encode (a : Export) : Octets :=
  a.recipient.octets ++ a.asset.octets ++ Wire.ofUInt64 a.value ++ Wire.ofBool a.returning ++ a.terms.octets
    ++ a.destination.octets

def read : Reader Export := do
  let a : Export := {
    recipient := ← Reader.address
    asset := ← Reader.identifier false
    value := ← Reader.uint64 true
    returning := ← Reader.bool
    terms := ← Bridge.Terms.read
    destination := ← Reader.identifier true }
  Reader.require (a.terms.swap.valid a.value) .invalidObject
  return a

/-- Burns a bridged asset, whose record goes with its last unit. Yields the asset that it stood for. -/
def burn (a : Export) (record : AssetRecord) (actor : Address) (total : UInt64) : ActionScript Identifier := do
  let key := (StateKey.asset a.asset).octets
  refuseIf (!record.bridged) .notBridgedAsset
  let some origin := Bridge.Origin.ofMetadata? record.metadata
    | abort (corruptRecord key .originMetadata)
  refuseIf (origin.chain != a.destination) .wrongDestination
  Ledger.subBalance actor a.asset total
  let some supply := Amount.sub? record.supply total | abort (corruptRecord key .supplyBelowReturn)
  if supply = 0 then Ledger.deleteAsset a.asset else Ledger.setAsset a.asset { record with supply }
  return origin.asset

def lend (a : Export) (record : AssetRecord) (actor : Address) (total : UInt64) : ActionScript Identifier := do
  refuseIf record.bridged .bridgedAsset
  Ledger.subBalance actor a.asset total
  Ledger.addLoan a.asset a.destination total
  return a.asset

def toTransfer (a : Export) (record : AssetRecord) (asset transaction : Identifier) : Bridge.Transfer where
  recipient := a.recipient
  symbol := record.symbol
  decimals := record.decimals
  asset := asset
  value := a.value
  returning := a.returning
  terms := a.terms
  transaction := transaction
  destination := a.destination

def execute (a : Export) (ctx : Context) : ActionScript Yield := do
  refuseIf (a.value == 0) .valueZero
  refuseIf a.destination.isEmpty .anyDestination
  refuseIf (a.destination == ctx.chain) .localDestination
  refuseIf (!a.terms.swap.valid a.value) .invalidSwap
  let some total := Amount.add? a.value a.terms.reward | refuse .totalOverflow
  let some record ← Ledger.asset? a.asset | refuse .assetMissing
  let message ← Script.staged do
    let asset ← if a.returning then burn a record ctx.actor total else lend a record ctx.actor total
    let payload ← match (toTransfer a record asset ctx.transaction).encode with
      | .ok payload => pure payload
      | .error e => abort (corruptRecord (StateKey.asset a.asset).octets (.wire e))
    let message : Bridge.Message := { network := ctx.network, source := ctx.chain, payload }
    Ledger.storeOutgoing ctx.transaction message
    return message
  return { message := some message }

end Export
end BridgeLedger.Action
