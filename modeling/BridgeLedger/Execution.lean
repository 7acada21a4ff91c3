import BridgeLedger.Action
import BridgeLedger.Store.Journal

/-! Execution of transactions. An action runs on an overlay of the state; its writes reach the state as one
batch and only if it succeeded. A recorded execution also keeps a record of the transaction, under which the
same transaction cannot run again, and commits both batches through a journal. -/
namespace BridgeLedger

structure Chain where
  identifier : Identifier
  network : UInt32
deriving DecidableEq

def Chain.context (c : Chain) (actor : Address) (transaction : Identifier) (timestamp : Int64)
    (verified : Bool) : Context :=
  { actor, transaction, timestamp, chain := c.identifier, network := c.network, verified }

inductive ExecutionError where
  | ledger (e : LedgerError)
  | wire (e : WireError)
  | store (fault : StoreFault)
deriving DecidableEq

def ExecutionError.message : ExecutionError → String
  | .ledger e => "ledger: " ++ e.message
  | .wire e => "codec: " ++ e.message
  | .store fault => "state: " ++ fault.message

structure Receipt where
  outcome : Outcome
  resources : Resources
deriving DecidableEq

namespace LedgerScript

variable {σ α : Type} [Keyspace σ]

def runOn (x : LedgerScript α) : EStateM LedgerError σ α := do
  match ← withError LedgerError.store x.run.run with
  | .ok a => return a
  | .error e => throw e

end LedgerScript

namespace LedgerRead

variable {σ α : Type} [Keyspace σ]

def runOn (x : LedgerRead α) (s : σ) : Except LedgerError α :=
  match x.run.run (Keyspace.get s) with
  | .ok result => result
  | .error fault => .error (.store fault)

end LedgerRead

namespace Execution

variable {σ μ ω : Type} [Keyspace σ] [Keyspace μ] [Journal ω σ μ]

/-- What is charged: a failed action allocates and writes nothing. -/
def charge (bytes : Octets) (outcome : Outcome) (o : Overlay) : Resources where
  bandwidth := UInt64.ofNat bytes.length
  compute := outcome.units
  reads := UInt64.ofNat o.readCount
  allocations := if outcome.succeeded then UInt64.ofNat o.allocateCount else 0
  writes := if outcome.succeeded then UInt64.ofNat o.writeCount else 0

def observe (s : σ) (ctx : Context) (action : Action) : Except LedgerError (Outcome × Overlay) :=
  match ((action.script ctx).run.onOverlay .empty).run (Keyspace.get s) with
  | .error fault => .error (.store fault)
  | .ok (.error e, _) => .error e
  | .ok (.ok outcome, o) => .ok (outcome, o)

/-- The batch to apply: only a successful action writes. -/
def batch (outcome : Outcome) (o : Overlay) : List Write := if outcome.succeeded then o.writes else []

/-- Runs an action on an overlay of a state. Yields the receipt and the batch to apply. -/
def stage (s : σ) (ctx : Context) (action : Action) : Except ExecutionError (Receipt × List Write) := do
  let bytes ← action.encode.mapError .wire
  let (outcome, o) ← (observe s ctx action).mapError .ledger
  return (⟨outcome, charge bytes outcome o⟩, batch outcome o)

def execute (ctx : Context) (action : Action) : EStateM ExecutionError σ Receipt := do
  let (receipt, writes) ← MonadExcept.ofExcept (stage (← get) ctx action)
  if !writes.isEmpty then withError .store (Keyspace.apply writes)
  return receipt

def recordWrites (s : μ) (transaction : Identifier) (record : TransactionRecord) :
    Except LedgerError (List Write) :=
  match ((Ledger.storeTransaction transaction record).run.onOverlay .empty).run (Keyspace.get s) with
  | .error fault => .error (.store fault)
  | .ok (.error e, _) => .error e
  | .ok (.ok (), o) => .ok o.writes

/-- Runs an action and commits its batch together with the record of the transaction. The cost of checking
its signature is added to its compute units. -/
def executeRecorded (ctx : Context) (action : Action) (signatureUnits fee : UInt64) :
    EStateM ExecutionError ω Receipt := do
  let journal ← get
  let known ← MonadExcept.ofExcept
    (((Ledger.transaction? ctx.transaction).runOn (Journal.metadata journal)).mapError .ledger)
  if known.isSome then throw (.ledger (.duplicate (transactionKey ctx.transaction)))
  let (receipt, writes) ← MonadExcept.ofExcept (stage (Journal.state journal) ctx action)
  let resources :=
    { receipt.resources with compute := Amount.addSaturating receipt.resources.compute signatureUnits }
  let record : TransactionRecord :=
    { timestamp := ctx.timestamp, success := receipt.outcome.succeeded, resources, fee }
  let recordBatch ← MonadExcept.ofExcept
    ((recordWrites (Journal.metadata journal) ctx.transaction record).mapError .ledger)
  withError .store (Journal.commit writes recordBatch)
  return { receipt with resources }

end Execution
end BridgeLedger
