import BridgeLedger.MerkleTree
import BridgeLedger.Store.Keyspace

/-! The root of a store and proofs of its bindings, over the pairs in ascending key order. -/
namespace BridgeLedger

structure ProvenBinding where
  key : Octets
  value : Octets
  root : MerkleTree.Hash
  proof : MerkleTree.Proof

namespace Store

def root (s : Store) : MerkleTree.Hash := MerkleTree.root s.entries

def prove? (s : Store) (key : Octets) : Option ProvenBinding := do
  let index ← s.index? key
  let (key, value) ← s.entries[index]?
  let proof ← MerkleTree.prove? s.entries index
  return ⟨key, value, s.root, proof⟩

end Store
end BridgeLedger
