import BridgeLedger.Action.Refusal
import BridgeLedger.Ledger.Records
import BridgeLedger.Store.Overlay

/-! What actions are made of: ledger operations, and two ways to stop early. A refused action failed by its
own fault; an aborted one met a fault of the ledger. -/
namespace BridgeLedger

structure Context where
  actor : Address
  /-- the transaction, which names the assets and tokens that it creates -/
  transaction : Identifier
  timestamp : Int64
  chain : Identifier
  network : UInt32
  /-- whether the attached message was verified -/
  verified : Bool
deriving DecidableEq

structure Yield where
  output : Octets := []
  message : Option Bridge.Message := none
deriving DecidableEq

inductive Halt where
  | refused (reason : Refusal)
  | aborted (e : LedgerError)
deriving DecidableEq

abbrev ActionScript (α : Type) := ExceptT Halt Script α

/-- An amount that does not fit refuses the action; every other error aborts it. -/
def Halt.ofLedger (e : LedgerError) : Halt := if e.isTerminal then .refused (.accounting e) else .aborted e

instance : MonadLift (ExceptT LedgerError Script) (ExceptT Halt Script) :=
  ⟨fun x => ExceptT.adapt Halt.ofLedger x⟩

def refuse {α : Type} (reason : Refusal) : ActionScript α := throw (.refused reason)

def refuseIf (condition : Bool) (reason : Refusal) : ActionScript Unit :=
  if condition then refuse reason else pure ()

def abort {α : Type} (e : LedgerError) : ActionScript α := throw (.aborted e)

end BridgeLedger
