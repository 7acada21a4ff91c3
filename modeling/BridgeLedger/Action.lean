import BridgeLedger.Action.CreateAsset
import BridgeLedger.Action.CreateNft
import BridgeLedger.Action.Export
import BridgeLedger.Action.Import
import BridgeLedger.Action.Mint
import BridgeLedger.Action.Payment
import BridgeLedger.Action.ReadNft
import BridgeLedger.Action.TransferNft

/-! The closed catalogue of actions: their tags, names and costs, their bytes, and what they do. -/
namespace BridgeLedger

inductive Action where
  | payment (a : Action.Payment)
  | mint (a : Action.Mint)
  | createAsset (a : Action.CreateAsset)
  | createNft (a : Action.CreateNft)
  | readNft (a : Action.ReadNft)
  | importAsset (a : Action.Import)
  | exportAsset (a : Action.Export)
  | transferNft (a : Action.TransferNft)
deriving DecidableEq

inductive Outcome where
  | success (units : UInt64) (result : Yield)
  | failure (units : UInt64) (reason : Refusal)
deriving DecidableEq

namespace Outcome

def succeeded : Outcome → Bool
  | .success .. => true
  | .failure .. => false

def units : Outcome → UInt64
  | .success units _ => units
  | .failure units _ => units

def output : Outcome → Octets
  | .success _ result => result.output
  | .failure _ reason => Utf8.encode reason.message

def message? : Outcome → Option Bridge.Message
  | .success _ result => result.message
  | .failure .. => none

/-- What an action comes to, a refusal being an outcome that costs as much as a success. -/
def ofScript (units : UInt64) (x : ActionScript Yield) : LedgerScript Outcome := ExceptT.mk do
  match ← x.run with
  | .ok result => return .ok (.success units result)
  | .error (.refused reason) => return .ok (.failure units reason)
  | .error (.aborted e) => return .error e

end Outcome

namespace Action

def tag : Action → UInt8
  | .payment _ => 0
  | .mint _ => 1
  | .createAsset _ => 2
  | .createNft _ => 3
  | .readNft _ => 4
  | .importAsset _ => 5
  | .exportAsset _ => 6
  | .transferNft _ => 7

def name : Action → String
  | .payment _ => "transfer"
  | .mint _ => "mint_asset"
  | .createAsset _ => "create_asset"
  | .createNft _ => "create_nft"
  | .readNft _ => "get_nft"
  | .importAsset _ => "import_asset"
  | .exportAsset _ => "export_asset"
  | .transferNft _ => "transfer_nft"

def computeUnits : Action → UInt64
  | .payment _ => Payment.computeUnits
  | .mint _ => Mint.computeUnits
  | .createAsset _ => CreateAsset.computeUnits
  | .createNft _ => CreateNft.computeUnits
  | .readNft _ => ReadNft.computeUnits
  | .importAsset _ => Import.computeUnits
  | .exportAsset _ => Export.computeUnits
  | .transferNft _ => TransferNft.computeUnits

def needsMessage : Action → Bool
  | .importAsset _ => true
  | _ => false

def attachedMessage? : Action → Option Bridge.Message
  | .importAsset a => some a.message
  | _ => none

def encodeBody : Action → Except WireError Octets
  | .payment a => a.encode
  | .mint a => .ok a.encode
  | .createAsset a => a.encode
  | .createNft a => a.encode
  | .readNft a => .ok a.encode
  | .importAsset a => .ok a.encode
  | .exportAsset a => .ok a.encode
  | .transferNft a => a.encode

def encode (a : Action) : Except WireError Octets := do
  let body ← a.encodeBody
  return a.tag :: body

def perform (a : Action) (ctx : Context) : ActionScript Yield :=
  match a with
  | .payment a => a.execute ctx
  | .mint a => a.execute ctx
  | .createAsset a => a.execute ctx
  | .createNft a => a.execute ctx
  | .readNft a => a.execute
  | .importAsset a => a.execute ctx
  | .exportAsset a => a.execute ctx
  | .transferNft a => a.execute ctx

def script (a : Action) (ctx : Context) : LedgerScript Outcome :=
  match a with
  | .payment a => Outcome.ofScript Payment.computeUnits (a.execute ctx)
  | .mint a => Outcome.ofScript Mint.computeUnits (a.execute ctx)
  | .createAsset a => Outcome.ofScript CreateAsset.computeUnits (a.execute ctx)
  | .createNft a => Outcome.ofScript CreateNft.computeUnits (a.execute ctx)
  | .readNft a => Outcome.ofScript ReadNft.computeUnits (a.execute)
  | .importAsset a => Outcome.ofScript Import.computeUnits (a.execute ctx)
  | .exportAsset a => Outcome.ofScript Export.computeUnits (a.execute ctx)
  | .transferNft a => Outcome.ofScript TransferNft.computeUnits (a.execute ctx)

theorem script_eq (a : Action) (ctx : Context) : a.script ctx = Outcome.ofScript a.computeUnits (a.perform ctx) := by
  cases a <;> rfl

end Action
end BridgeLedger
