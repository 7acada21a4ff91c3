import BridgeLedger.StateKey
import BridgeLedger.Store.Keyspace
import BridgeLedger.Text.Hex
import BridgeLedger.Wire.Error

/-! Errors of the ledger. Only an amount that does not fit is the fault of a transaction; the others say that
the stored data or the store itself is at fault. -/
namespace BridgeLedger

inductive CellKind where
  | balance
  | loan
deriving DecidableEq

def CellKind.word : CellKind → String
  | .balance => "balance"
  | .loan => "loan"

inductive Place where
  | record (key : Octets)
  | message
  | outgoing (transaction : Identifier)
deriving DecidableEq

def Place.text : Place → String
  | .record key => Hex.encode key
  | .message => "warp message"
  | .outgoing transaction => transaction.text

inductive Corruption where
  | wire (e : WireError)
  | zeroAmount
  | originMetadata
  | supplyBelowReturn
deriving DecidableEq

def Corruption.message : Corruption → String
  | .wire e => e.message
  | .zeroAmount => "zero amount persisted"
  | .originMetadata => "bridged asset metadata"
  | .supplyBelowReturn => "supply below returned amount"

inductive LedgerError where
  | store (fault : StoreFault)
  | corrupt (place : Place) (reason : Corruption)
  /-- a record that is written once is there already -/
  | duplicate (key : Octets)
  | overflow (kind : CellKind) (asset : Identifier) (current amount : UInt64)
  | underflow (kind : CellKind) (asset : Identifier) (current amount : UInt64)
deriving DecidableEq

namespace LedgerError

/-- Whether the error is a failure of the transaction and not a fault of the ledger. -/
def isTerminal : LedgerError → Bool
  | .overflow .. | .underflow .. => true
  | _ => false

private def amounts (asset : Identifier) (current amount : UInt64) : String :=
  "(asset=" ++ asset.text ++ ", current=" ++ current.toNat.repr ++ ", amount=" ++ amount.toNat.repr ++ ")"

def message : LedgerError → String
  | .store fault => "state: " ++ fault.message
  | .corrupt place reason => "corrupt record " ++ place.text ++ ": " ++ reason.message
  | .duplicate key => "record already exists: " ++ Hex.encode key
  | .overflow kind asset current amount => "could not add " ++ kind.word ++ " " ++ amounts asset current amount
  | .underflow kind asset current amount =>
    "could not subtract " ++ kind.word ++ " " ++ amounts asset current amount

end LedgerError
end BridgeLedger
