import BridgeLedger.Digest.Sha256
import BridgeLedger.Text.Utf8

/-! Binary hash trees over a list of key-value pairs. Leaves and inner nodes are hashed under different
labels, an odd node at the end of a level is paired with itself, and the root of no pairs is zero. -/
namespace BridgeLedger.MerkleTree

abbrev Hash := Block 32

def leafLabel : Octets := Utf8.encode "Warpledger-State-Leaf-v1"

def nodeLabel : Octets := Utf8.encode "Warpledger-State-Node-v1"

def join (label : Octets) (a b : Hash) : Hash := Sha256.digest (label ++ a.octets ++ b.octets)

def leaf (key value : Octets) : Hash := join leafLabel (Sha256.digest key) (Sha256.digest value)

def node (left right : Hash) : Hash := join nodeLabel left right

def nextLevel : List Hash → List Hash
  | a :: b :: rest => node a b :: nextLevel rest
  | [a] => [node a a]
  | [] => []

/-- The single node that is left after at most `height` levels. -/
def top : (height : Nat) → List Hash → Hash
  | _, [] => Block.zero 32
  | _, [a] => a
  | 0, a :: _ => a
  | height + 1, level => top height (nextLevel level)

def leaves (pairs : List (Octets × Octets)) : List Hash := pairs.map fun p => leaf p.1 p.2

/-- The root over pairs in the given order. A tree is never higher than it has leaves. -/
def root (pairs : List (Octets × Octets)) : Hash := top pairs.length (leaves pairs)

inductive Side where
  | left
  | right
deriving DecidableEq

structure Proof where
  leaf : Hash
  path : List (Side × Hash)
deriving DecidableEq

/-- The siblings of the node at `index` and of those above it, up to a level with one node. -/
def siblings : (height : Nat) → List Hash → (index : Nat) → List (Side × Hash)
  | 0, _, _ => []
  | height + 1, level, index =>
    if level.length ≤ 1 then []
    else
      let own := level.getD index (Block.zero 32)
      let sibling := if index % 2 = 1 then (.left, level.getD (index - 1) own)
        else (.right, level.getD (index + 1) own)
      sibling :: siblings height (nextLevel level) (index / 2)

def prove? (pairs : List (Octets × Octets)) (index : Nat) : Option Proof :=
  pairs[index]?.map fun p => ⟨leaf p.1 p.2, siblings pairs.length (leaves pairs) index⟩

def climb (current : Hash) (step : Side × Hash) : Hash :=
  match step.1 with
  | .left => node step.2 current
  | .right => node current step.2

def Proof.verifies (proof : Proof) (root : Hash) : Bool := proof.path.foldl climb proof.leaf = root

end BridgeLedger.MerkleTree
