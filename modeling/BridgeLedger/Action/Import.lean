import BridgeLedger.Action.Script
import BridgeLedger.Bridge.Origin
import BridgeLedger.Bridge.Transfer

/-! Import of value that another chain sent. Value that comes home is released from the loan that was taken
when it left; other value is minted as a bridged asset. The recipient gets the value, the actor the reward. -/
namespace BridgeLedger.Action

structure Import where
  fill : Bool
  message : Bridge.Message
  transfer : Bridge.Transfer
  decoded : Bridge.Transfer.decode message.payload = .ok transfer
deriving DecidableEq

namespace Import

def computeUnits : UInt64 := 10

def ofMessage (message : Bridge.Message) (fill : Bool) : Except WireError Import :=
  match h : Bridge.Transfer.decode message.payload with
  | .ok transfer => .ok ⟨fill, message, transfer, h⟩
  | .error e => .error e

/-- A message has one import for each choice of whether to take the swap. -/
theorem ofMessage_iff {message : Bridge.Message} {fill : Bool} {a : Import} :
    ofMessage message fill = .ok a ↔ a.fill = fill ∧ a.message = message := by
  unfold ofMessage
  constructor
  · intro h
    split at h
    · cases h
      exact ⟨rfl, rfl⟩
    · cases h
  · rintro ⟨rfl, rfl⟩
    obtain ⟨fill, message, transfer, hdecoded⟩ := a
    split
    · rename_i t ht
      cases ht.symm.trans hdecoded
      rfl
    · rename_i e he
      cases he.symm.trans hdecoded

def encode (a : Import) : Octets := Wire.ofBool a.fill

def read (message : Option Bridge.Message) : Reader Import := do
  let fill ← Reader.bool
  let some message := message | throw .missing
  match ofMessage message fill with
  | .ok a => return a
  | .error e => throw e

def requireSameAsset (record : AssetRecord) (t : Bridge.Transfer) : ActionScript Unit := do
  refuseIf (record.symbol != t.symbol) .symbolMismatch
  refuseIf (record.decimals != t.decimals) .decimalsMismatch

def release (t : Bridge.Transfer) (source : Identifier) (total : UInt64) : ActionScript Identifier := do
  let some record ← Ledger.asset? t.asset | refuse .assetMissing
  refuseIf record.bridged .bridgedAsset
  requireSameAsset record t
  Ledger.subLoan t.asset source total
  return t.asset

def freshRecord (t : Bridge.Transfer) (origin : Bridge.Origin) : AssetRecord where
  symbol := t.symbol
  decimals := t.decimals
  metadata := origin.metadata
  supply := 0
  maxSupply := Limits.maxSupply
  owner := .empty
  bridged := true

def mint (t : Bridge.Transfer) (source : Identifier) (total : UInt64) : ActionScript Identifier := do
  let origin : Bridge.Origin := ⟨t.asset, source⟩
  let asset := origin.bridgedAsset
  let record ← match ← Ledger.asset? asset with
    | some record => do
      refuseIf (!record.bridged) .conflictingAsset
      requireSameAsset record t
      pure record
    | none => pure (freshRecord t origin)
  let some supply := Amount.add? record.supply total | refuse .maxSupplyExceeded
  refuseIf (record.maxSupply < supply) .maxSupplyExceeded
  Ledger.setAsset asset { record with supply }
  return asset

def settleSwap (t : Bridge.Transfer) (asset : Identifier) (actor : Address) : ActionScript Unit := do
  let swap := t.terms.swap
  Ledger.subBalance actor swap.assetOut swap.amountOut
  Ledger.addBalance t.recipient swap.assetOut swap.amountOut true
  Ledger.subBalance t.recipient asset swap.amountIn
  Ledger.addBalance actor asset swap.amountIn true

/-- Releases or mints, credits, settles the swap unless it has lapsed, and marks the message. -/
def execute (a : Import) (ctx : Context) : ActionScript Yield := do
  let t := a.transfer
  let swap := t.terms.swap
  let source := a.message.source
  refuseIf (!ctx.verified) .unverified
  refuseIf (a.message.network != ctx.network || t.destination != ctx.chain) .wrongDestination
  refuseIf (a.fill && !swap.offered) .noSwapToFill
  refuseIf (swap.offered && !a.fill && ctx.timestamp < swap.expiry) .mustFill
  let message ← match a.message.identifier with
    | .ok x => pure x
    | .error e => abort (.corrupt .message (.wire e))
  refuseIf (← Ledger.imported source message) .alreadyImported
  let some total := t.total? | refuse .totalOverflow
  Script.staged do
    let asset ← if t.returning then release t source total else mint t source total
    Ledger.addBalance t.recipient asset t.value true
    if 0 < t.terms.reward then Ledger.addBalance ctx.actor asset t.terms.reward true
    if a.fill && ctx.timestamp ≤ swap.expiry then settleSwap t asset ctx.actor
    Ledger.markImported source message
  return {}

end Import
end BridgeLedger.Action
