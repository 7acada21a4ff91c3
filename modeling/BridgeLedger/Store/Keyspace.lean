import BridgeLedger.Store.KeyMap

/-! Keyspaces: stores that read, write and delete values under byte-string keys and may refuse any request. -/
namespace BridgeLedger

inductive StoreFault where
  | unavailable
  | io
  | conflict
deriving DecidableEq

def StoreFault.message : StoreFault → String
  | .unavailable => "db open"
  | .io => "db io"
  | .conflict => "tx conflict"

inductive Write where
  | put (key value : Octets)
  | delete (key : Octets)
deriving DecidableEq

def Write.key : Write → Octets
  | .put key _ => key
  | .delete key => key

/-- The operations of a store. Reading an absent key is not a fault, nor is deleting one. A batch is
carried out write by write, and the writes before a fault stay, unless the store does better. -/
class Keyspace (σ : Type) where
  get : σ → Octets → Except StoreFault (Option Octets)
  put : Octets → Octets → EStateM StoreFault σ Unit
  delete : Octets → EStateM StoreFault σ Unit
  apply : List Write → EStateM StoreFault σ Unit := fun writes => writes.forM fun
    | .put key value => put key value
    | .delete key => delete key

abbrev Store := KeyMap Octets

namespace Store

def write (s : Store) : Write → Store
  | .put key value => s.insert key value
  | .delete key => s.erase key

def writeAll (s : Store) (writes : List Write) : Store := writes.foldl write s

end Store

instance : Keyspace Store where
  get s key := .ok (s.find? key)
  put key value := modify fun s => s.insert key value
  delete key := modify fun s => s.erase key

/-- A store in memory with keys on which it refuses to read, to write or to delete. -/
structure FaultyStore where
  contents : Store
  fault : StoreFault
  unreadable : List Octets
  unwritable : List Octets
  undeletable : List Octets

namespace FaultyStore

def ofStore (contents : Store) : FaultyStore := ⟨contents, .io, [], [], []⟩

def update (f : Store → Store) (s : FaultyStore) : FaultyStore := { s with contents := f s.contents }

end FaultyStore

instance : Keyspace FaultyStore where
  get s key := if key ∈ s.unreadable then .error s.fault else .ok (s.contents.find? key)
  put key value := do
    let s ← get
    if key ∈ s.unwritable then throw s.fault else set (s.update (·.insert key value))
  delete key := do
    let s ← get
    if key ∈ s.undeletable then throw s.fault else set (s.update (·.erase key))

end BridgeLedger
