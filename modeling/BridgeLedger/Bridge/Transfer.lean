import BridgeLedger.Amount
import BridgeLedger.Bridge.Terms
import BridgeLedger.Limits

/-! Value on its way from one chain to another: the payload of a bridge message. -/
namespace BridgeLedger.Bridge

structure Transfer where
  recipient : Address
  symbol : Octets
  decimals : UInt8
  /-- the asset, by its name on the chain that created it -/
  asset : Identifier
  value : UInt64
  /-- whether the value goes back to the chain that created the asset -/
  returning : Bool
  terms : Terms
  /-- the transaction that sent the value; no two messages share it -/
  transaction : Identifier
  destination : Identifier
deriving DecidableEq

namespace Transfer

def total? (t : Transfer) : Option UInt64 := Amount.add? t.value t.terms.reward

def encode (t : Transfer) : Except WireError Octets := do
  let symbol ← Wire.ofPrefixed t.symbol
  return t.recipient.octets ++ symbol ++ [t.decimals] ++ t.asset.octets ++ Wire.ofUInt64 t.value
    ++ Wire.ofBool t.returning ++ t.terms.octets ++ t.transaction.octets ++ t.destination.octets

def read : Reader Transfer := do
  return {
    recipient := ← Reader.address
    symbol := ← Reader.prefixed Limits.maxSymbol true
    decimals := ← Reader.uint8
    asset := ← Reader.identifier false
    value := ← Reader.uint64 true
    returning := ← Reader.bool
    terms := ← Terms.read
    transaction := ← Reader.identifier true
    destination := ← Reader.identifier true }

/-- The transfer that some bytes are; the terms of its swap are checked last. -/
def decode (bytes : Octets) : Except WireError Transfer := do
  let t ← Reader.readAll read bytes
  if t.terms.swap.valid t.value then return t else throw .invalidObject

end Transfer
end BridgeLedger.Bridge
