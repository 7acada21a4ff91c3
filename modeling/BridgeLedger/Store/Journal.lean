import BridgeLedger.Store.Keyspace

/-! Pairs of a state keyspace and a metadata keyspace that a recorded transaction commits to together. -/
namespace BridgeLedger

class Journal (ω : Type) (σ μ : outParam Type) [Keyspace σ] [Keyspace μ] where
  state : ω → σ
  metadata : ω → μ
  commit : (state metadata : List Write) → EStateM StoreFault ω Unit

/-- Runs on a part of a larger state, which is put together again from what the part has become. -/
def runWithin {ε σ τ α : Type} (x : EStateM ε σ α) (part : σ) (rebuild : σ → τ) : EStateM.Result ε τ α :=
  match x part with
  | .ok a part => .ok a (rebuild part)
  | .error e part => .error e (rebuild part)

def withError {ε δ σ α : Type} (f : ε → δ) (x : EStateM ε σ α) : EStateM δ σ α := fun s =>
  match x s with
  | .ok a s => .ok a s
  | .error e s => .error (f e) s

def atomically {ε σ α : Type} (x : EStateM ε σ α) : EStateM ε σ α := fun s =>
  match x s with
  | .ok a s' => .ok a s'
  | .error e _ => .error e s

def onFirst {ε σ μ α : Type} (x : EStateM ε σ α) : EStateM ε (σ × μ) α := fun s =>
  runWithin x s.1 fun first => (first, s.2)

def onSecond {ε σ μ α : Type} (x : EStateM ε μ α) : EStateM ε (σ × μ) α := fun s =>
  runWithin x s.2 fun second => (s.1, second)

/-- Two independent stores: the state batch is applied first. -/
instance {σ μ : Type} [Keyspace σ] [Keyspace μ] : Journal (σ × μ) σ μ where
  state := Prod.fst
  metadata := Prod.snd
  commit state metadata := do
    onFirst (Keyspace.apply state)
    onSecond (Keyspace.apply metadata)

/-- A tree of a database. It applies a batch as a whole or not at all, and whatever its disk refuses is an input or
output fault. -/
structure Database.Tree where
  store : FaultyStore

namespace Database.Tree

def ofStore (contents : Store) : Tree := ⟨.ofStore contents⟩

def contents (t : Tree) : Store := t.store.contents

def onStore {α : Type} (x : EStateM StoreFault FaultyStore α) : EStateM StoreFault Tree α :=
  withError (fun _ => .io) fun t => runWithin x t.store mk

instance : Keyspace Tree where
  get t key := (Keyspace.get t.store key).mapError fun _ => .io
  put key value := onStore (Keyspace.put key value)
  delete key := onStore (Keyspace.delete key)
  apply writes := atomically (onStore (Keyspace.apply writes))

end Database.Tree

structure Database where
  state : Database.Tree
  metadata : Database.Tree

namespace Database

def empty : Database := ⟨.ofStore .empty, .ofStore .empty⟩

/-- Both batches are committed in one transaction. -/
instance : Journal Database Tree Tree where
  state := Database.state
  metadata := Database.metadata
  commit state metadata := atomically fun d =>
    runWithin (Journal.commit state metadata) (d.state, d.metadata) fun trees => ⟨trees.1, trees.2⟩

end Database
end BridgeLedger
