import BridgeLedger.Bridge.Message
import BridgeLedger.Ledger.Cell
import BridgeLedger.Record.Asset
import BridgeLedger.Record.Nft
import BridgeLedger.Record.Transaction

/-! Assets, tokens, transactions and bridge messages under their keys. Bytes that are no record are corrupt. -/
namespace BridgeLedger.Ledger

def readRecord {α : Type} (key : Octets) (decode : Octets → Except WireError α) : LedgerRead (Option α) := do
  match ← Lookup.read key with
  | none => return none
  | some bytes =>
    match decode bytes with
    | .ok record => return some record
    | .error e => throw (corruptRecord key (.wire e))

def writeRecord (key : Octets) (bytes : Except WireError Octets) : LedgerScript Unit :=
  match bytes with
  | .ok bytes => Script.insert key bytes
  | .error e => throw (corruptRecord key (.wire e))

def asset? (asset : Identifier) : LedgerRead (Option AssetRecord) :=
  readRecord (StateKey.asset asset).octets AssetRecord.decode

def setAsset (asset : Identifier) (record : AssetRecord) : LedgerScript Unit :=
  writeRecord (StateKey.asset asset).octets record.encode

def deleteAsset (asset : Identifier) : LedgerScript Unit := Script.remove (StateKey.asset asset).octets

def nft? (nft : Identifier) : LedgerRead (Option NftRecord) :=
  readRecord (StateKey.nft nft).octets NftRecord.decode

def setNft (nft : Identifier) (record : NftRecord) : LedgerScript Unit :=
  writeRecord (StateKey.nft nft).octets record.encode

def transaction? (transaction : Identifier) : LedgerRead (Option TransactionRecord) :=
  readRecord (transactionKey transaction) TransactionRecord.decode

/-- Stores the record of a transaction, in the metadata keyspace; it is written once. -/
def storeTransaction (transaction : Identifier) (record : TransactionRecord) : LedgerScript Unit := do
  if (← Lookup.read (transactionKey transaction)).isSome then throw (.duplicate (transactionKey transaction))
  Script.insert (transactionKey transaction) record.encode

def imported (source message : Identifier) : LedgerRead Bool := do
  return (← Lookup.read (StateKey.incoming source message).octets).isSome

def markImported (source message : Identifier) : LedgerScript Unit :=
  Script.insert (StateKey.incoming source message).octets []

def outgoing? (transaction : Identifier) : LedgerRead (Option Bridge.Message) :=
  readRecord (StateKey.outgoing transaction).octets Bridge.Message.decode

def storeOutgoing (transaction : Identifier) (message : Bridge.Message) : LedgerScript Unit :=
  writeRecord (StateKey.outgoing transaction).octets message.encode

end BridgeLedger.Ledger
