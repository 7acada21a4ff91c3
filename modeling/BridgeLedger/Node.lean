import BridgeLedger.Genesis
import BridgeLedger.Metrics

/-! A node: one chain with its two keyspaces and, if wanted, counters of what it executed. A request keeps
what it wrote before it failed; only executed transactions are counted. -/
namespace BridgeLedger

inductive Backend where
  | memory (state metadata : FaultyStore)
  | database (d : Database)

namespace Backend

def emptyMemory : Backend := .memory (.ofStore .empty) (.ofStore .empty)

def emptyDatabase : Backend := .database .empty

def state : Backend → Store
  | .memory state _ => state.contents
  | .database d => d.state.contents

def metadata : Backend → Store
  | .memory _ metadata => metadata.contents
  | .database d => d.metadata.contents

def injectFaults (b : Backend) (inMetadata : Bool) (fault : StoreFault)
    (unreadable unwritable undeletable : List Octets) : Backend :=
  match b with
  | .memory state metadata =>
    if inMetadata then .memory state ⟨metadata.contents, fault, unreadable, unwritable, undeletable⟩
    else .memory ⟨state.contents, fault, unreadable, unwritable, undeletable⟩ metadata
  | .database d => .database d

end Backend

structure Node where
  chain : Chain
  metrics : Option Metrics
  backend : Backend

/-- A request that any keyspace can carry out. -/
abbrev Request (ε α : Type) := {σ : Type} → [Keyspace σ] → EStateM ε σ α

namespace Node

variable {ε α : Type}

def onState (x : Request ε α) : EStateM ε Node α := fun n =>
  match n.backend with
  | .memory state metadata => runWithin x state fun state => { n with backend := .memory state metadata }
  | .database d => runWithin x d.state fun state => { n with backend := .database { d with state } }

def onMetadata (x : Request ε α) : EStateM ε Node α := fun n =>
  match n.backend with
  | .memory state metadata => runWithin x metadata fun metadata => { n with backend := .memory state metadata }
  | .database d => runWithin x d.metadata fun metadata => { n with backend := .database { d with metadata } }

def ledger (x : LedgerScript α) : EStateM LedgerError Node α := onState x.runOn

def metadataLedger (x : LedgerScript α) : EStateM LedgerError Node α := onMetadata x.runOn

def count (action : Action) (receipt : Receipt) : EStateM ε Node Unit :=
  modify fun n => { n with metrics := n.metrics.map (·.observeReceipt action receipt) }

def execute (ctx : Context) (action : Action) : EStateM ExecutionError Node Receipt := do
  let receipt ← onState (Execution.execute ctx action)
  count action receipt
  return receipt

def executeRecorded (ctx : Context) (action : Action) (signatureUnits fee : UInt64) :
    EStateM ExecutionError Node Receipt := do
  let receipt ← fun n =>
    match n.backend with
    | .memory state metadata =>
      runWithin (Execution.executeRecorded ctx action signatureUnits fee) (state, metadata)
        fun (state, metadata) => { n with backend := .memory state metadata }
    | .database d =>
      runWithin (Execution.executeRecorded ctx action signatureUnits fee) d
        fun d => { n with backend := .database d }
  count action receipt
  return receipt

def perform (ctx : Context) (action : Action) : EStateM LedgerError Node Outcome :=
  ledger (action.script ctx)

def distribute (g : Genesis) : EStateM GenesisError Node UInt64 := onState g.apply

end Node
end BridgeLedger
