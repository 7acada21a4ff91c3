import BridgeLedger.Proofs.HashedPaths
import BridgeLedger.Store.StateRoot

/-! Every pair below a root can be proven. The siblings that are collected on the way up lead from the leaf of the pair to
the root, however many levels end with an odd node, and a store proves exactly the bindings that it holds. -/
namespace BridgeLedger

namespace MerkleTree

theorem prove?_eq_none_iff (pairs : List (Octets × Octets)) (index : Nat) :
    prove? pairs index = none ↔ pairs.length ≤ index := by
  rw [prove?, Option.map_eq_none_iff, List.getElem?_eq_none_iff]

/-- The proof of a pair starts at its leaf and leads to the root. -/
theorem prove?_of_getElem? {pairs : List (Octets × Octets)} {index : Nat} {p : Octets × Octets}
    (h : pairs[index]? = some p) :
    ∃ proof, prove? pairs index = some proof ∧ proof.leaf = leaf p.1 p.2 ∧ proof.verifies (root pairs) = true := by
  refine ⟨⟨leaf p.1 p.2, siblings pairs.length (leaves pairs) index⟩, by rw [prove?, h]; rfl, rfl, ?_⟩
  exact decide_eq_true (siblings_lead h).1

end MerkleTree

namespace Store

variable {s : Store} {key value : Octets}

/-- A key that is stored is found where its binding stands in the order of the keys. -/
theorem exists_index?_of_find? (h : s.find? key = some value) :
    ∃ index, s.index? key = some index ∧ s.entries[index]? = some (key, value) := by
  obtain ⟨index, hindex⟩ := List.mem_iff_getElem?.1 ((s.find?_eq_some_iff_mem key value).1 h)
  exact ⟨index, (s.index?_eq_some_iff key index).2 ⟨value, hindex⟩, hindex⟩

theorem index?_of_find?_eq_none (h : s.find? key = none) : s.index? key = none := by
  rw [Option.eq_none_iff_forall_ne_some]
  intro index hindex
  obtain ⟨value, hvalue⟩ := (s.index?_eq_some_iff key index).1 hindex
  have hfound := (s.find?_eq_some_iff_mem key value).2 (List.mem_of_getElem? hvalue)
  cases h.symm.trans hfound

end Store

namespace MerkleTree

/-- There is a proof for each place in a list of pairs and for no other one. It names the leaf of the pair at that place and
is accepted against the root over the list. So a store proves a key exactly if it is stored, by its value, the root of the
store and a proof that is accepted against it. -/
theorem proofs_complete :
    (∀ (pairs : List (Octets × Octets)) (index : Nat), prove? pairs index = none ↔ pairs.length ≤ index) ∧
    (∀ (pairs : List (Octets × Octets)) (index : Fin pairs.length), ∃ proof, prove? pairs index = some proof ∧
      proof.leaf = leaf (pairs.get index).1 (pairs.get index).2 ∧ proof.verifies (root pairs) = true) ∧
    ∀ (s : Store) (key : Octets), match s.find? key with
      | none => s.prove? key = none
      | some value => ∃ proof, s.prove? key = some ⟨key, value, s.root, proof⟩ ∧
          proof.leaf = leaf key value ∧ proof.verifies s.root = true := by
  refine ⟨prove?_eq_none_iff, fun pairs index => prove?_of_getElem? (List.getElem?_eq_getElem index.isLt), ?_⟩
  intro s key
  cases h : s.find? key with
  | none => rw [Store.prove?, Store.index?_of_find?_eq_none h]; rfl
  | some value =>
    obtain ⟨index, hindex, hentry⟩ := Store.exists_index?_of_find? h
    obtain ⟨proof, hproof, hleaf, hverifies⟩ := prove?_of_getElem? hentry
    refine ⟨proof, ?_, hleaf, hverifies⟩
    rw [Store.prove?, hindex, Option.bind_eq_bind, Option.bind_some, hentry, Option.bind_eq_bind, Option.bind_some, hproof]
    rfl

end MerkleTree
end BridgeLedger
