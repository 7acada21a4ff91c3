import BridgeLedger.Ledger.Records

/-! Readable reports of stored records: identifiers in hexadecimal, addresses in base 58, byte strings as text.
An absent record has no report. -/
namespace BridgeLedger

structure AssetReport where
  symbol : String
  decimals : UInt8
  metadata : String
  supply : UInt64
  maxSupply : UInt64
  owner : String
  bridged : Bool

structure NftReport where
  metadata : String
  owner : String
  url : String

structure MessageReport where
  network : UInt32
  source : String
  identifier : String
  payload : String

namespace Report

def asset? (asset : Identifier) : LedgerRead (Option AssetReport) := do
  return (← Ledger.asset? asset).map fun r => {
    symbol := Utf8.decodeLossy r.symbol
    decimals := r.decimals
    metadata := Utf8.decodeLossy r.metadata
    supply := r.supply
    maxSupply := r.maxSupply
    owner := r.owner.text
    bridged := r.bridged }

def nft? (nft : Identifier) : LedgerRead (Option NftReport) := do
  return (← Ledger.nft? nft).map fun r => {
    metadata := Utf8.decodeLossy r.metadata
    owner := r.owner.text
    url := Utf8.decodeLossy r.url }

def outgoing? (transaction : Identifier) : LedgerRead (Option MessageReport) := do
  let some m ← Ledger.outgoing? transaction | return none
  match m.identifier with
  | .ok identifier => return some {
      network := m.network
      source := m.source.text
      identifier := identifier.text
      payload := Hex.encode m.payload }
  | .error e => throw (.corrupt (.outgoing transaction) (.wire e))

end Report
end BridgeLedger
