import BridgeLedger.Action.Script

/-! Transfers of the native asset. -/
namespace BridgeLedger.Action

structure Payment where
  recipient : Address
  value : UInt64
  memo : Octets
deriving DecidableEq

namespace Payment

def computeUnits : UInt64 := 1

def encode (a : Payment) : Except WireError Octets := do
  let memo ← Wire.ofPrefixed a.memo
  return a.recipient.octets ++ Wire.ofUInt64 a.value ++ memo

def read : Reader Payment := do
  return {
    recipient := ← Reader.address
    value := ← Reader.uint64 true
    memo := ← Reader.prefixed Limits.maxMemo false }

def execute (a : Payment) (ctx : Context) : ActionScript Yield := do
  refuseIf (a.value == 0) .valueZero
  refuseIf (Limits.maxMemo < a.memo.length) .memoTooLarge
  Script.staged do
    Ledger.subBalance ctx.actor .empty a.value
    Ledger.addBalance a.recipient .empty a.value true
  return {}

end Payment
end BridgeLedger.Action
