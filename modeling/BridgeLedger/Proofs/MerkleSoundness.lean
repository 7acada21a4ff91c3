import BridgeLedger.Proofs.HashedPaths

/-! Proofs against a hash tree cannot be forged. A path may have any length, turn to either side at each step and name any
siblings. If it leads from the leaf of a pair to the root, then the pair is below the root, unless two of the inputs that
are hashed have one digest or one of them has the digest zero. -/
namespace BridgeLedger.MerkleTree

/-- A path to the top of a level passes through the level, unless it starts above it, at a node. -/
theorem passes_level {inputs : List Octets} (hashes : DigestsApart inputs) {height : Nat} {level : List Hash}
    (hlength : level.length ≤ height + 1) (hnonempty : level ≠ []) (hlevel : inputsAbove height level ⊆ inputs)
    {start : Hash} {path : List (Side × Hash)} (hpath : pathInputs start path ⊆ inputs)
    (htop : path.foldl climb start = top height level) :
    (∃ before after, path = before ++ after ∧ before.foldl climb start ∈ level) ∨
      ∃ a b, joined nodeLabel a b ∈ inputs ∧ start = Sha256.digest (joined nodeLabel a b) := by
  induction height generalizing level with
  | zero =>
    obtain ⟨a, rfl⟩ | htwo := eq_singleton_or_two_le hnonempty
    · exact .inl ⟨path, [], (List.append_nil path).symm, List.mem_singleton.2 htop⟩
    · omega
  | succ height ih =>
    obtain ⟨a, rfl⟩ | htwo := eq_singleton_or_two_le hnonempty
    · exact .inl ⟨path, [], (List.append_nil path).symm, List.mem_singleton.2 htop⟩
    obtain ⟨htop', hinputs⟩ := top_succ height htwo
    rw [htop'] at htop
    rw [hinputs, List.append_subset] at hlevel
    have hlength' := length_nextLevel level
    have hnonempty' : nextLevel level ≠ [] := by
      rw [← List.length_pos_iff]
      omega
    obtain ⟨before, after, rfl, hmem⟩ | hstart := ih (by omega) hnonempty' hlevel.2 htop
    · obtain ⟨a, ha, b, hb, hinput, hdigest⟩ := exists_below hmem
      obtain rfl | ⟨before, step, rfl, hstep, hclimb⟩ := ends_in_step start before
      · exact .inr ⟨a, b, hlevel.1 hinput, hdigest⟩
      · rw [pathInputs_append, List.append_subset] at hpath
        have heq := hashes.injective _ (hpath.1 hstep) _ (hlevel.1 hinput) (hclimb.symm.trans hdigest)
        obtain ⟨c, d, hcd, hcurrent⟩ := climbInput_eq (before.foldl climb start) step
        obtain ⟨rfl, rfl⟩ := joined_inj (hcd.symm.trans heq)
        refine .inl ⟨before, step :: after, by simp, ?_⟩
        obtain h | h := hcurrent
        · exact h ▸ ha
        · exact h ▸ hb
    · exact .inr hstart

theorem leaf_inj {inputs : List Octets} (hashes : DigestsApart inputs) {key value key' value' : Octets}
    (h : leafInputs key value ⊆ inputs) (h' : leafInputs key' value' ⊆ inputs)
    (heq : leaf key value = leaf key' value') : key = key' ∧ value = value' := by
  simp only [leafInputs, List.cons_subset] at h h'
  obtain ⟨hkey, hvalue⟩ := joined_inj (hashes.injective _ h.2.2.1 _ h'.2.2.1 heq)
  exact ⟨hashes.injective _ h.1 _ h'.1 hkey, hashes.injective _ h.2.1 _ h'.2.1 hvalue⟩

/-- A leaf is not hashed like a node. -/
theorem leaf_ne_node {inputs : List Octets} (hashes : DigestsApart inputs) {key value : Octets}
    (h : leafInputs key value ⊆ inputs) {a b : Hash} (hnode : joined nodeLabel a b ∈ inputs) :
    leaf key value ≠ Sha256.digest (joined nodeLabel a b) := by
  simp only [leafInputs, List.cons_subset] at h
  exact fun heq => joined_leaf_ne_node _ _ _ _ (hashes.injective _ h.2.2.1 _ hnode heq)

/-- A path from the leaf of a pair to the root starts below the root. -/
theorem mem_of_climbs {inputs : List Octets} (hashes : DigestsApart inputs) {pairs : List (Octets × Octets)}
    (hroot : rootInputs pairs ⊆ inputs) {key value : Octets} (hleaf : leafInputs key value ⊆ inputs)
    {path : List (Side × Hash)} (hpath : pathInputs (leaf key value) path ⊆ inputs)
    (h : path.foldl climb (leaf key value) = root pairs) : (key, value) ∈ pairs := by
  cases pairs with
  | nil =>
    obtain rfl | ⟨before, step, rfl, hstep, hclimb⟩ := ends_in_step (leaf key value) path
    · have hinput : joined leafLabel (Sha256.digest key) (Sha256.digest value) ∈ inputs := hleaf (by simp [leafInputs])
      exact absurd h (hashes.nonzero _ hinput)
    · exact absurd (hclimb.symm.trans h) (hashes.nonzero _ (hpath hstep))
  | cons p rest =>
    have hlevel := (List.append_subset.1 hroot).2
    obtain ⟨before, after, rfl, hmem⟩ | ⟨a, b, hnode, heq⟩ :=
      passes_level hashes (by simp [leaves]) (by simp [leaves]) hlevel hpath h
    · obtain ⟨q, hq, heq⟩ := List.mem_map.1 hmem
      have hleaf' := List.Subset.trans (leafInputs_subset hq) hroot
      obtain rfl | ⟨before, step, rfl, hstep, hclimb⟩ := ends_in_step (leaf key value) before
      · obtain ⟨rfl, rfl⟩ := leaf_inj hashes hleaf' hleaf heq
        exact hq
      · rw [pathInputs_append, List.append_subset] at hpath
        obtain ⟨c, d, hcd, -⟩ := climbInput_eq (before.foldl climb (leaf key value)) step
        rw [hcd] at hstep hclimb
        exact absurd (heq.trans hclimb) (leaf_ne_node hashes hleaf' (hpath.1 hstep))
    · exact absurd heq (leaf_ne_node hashes hleaf hnode)

/-- A proof that a pair's leaf is below the root is accepted only for a pair of the tree, whatever siblings it names and
however many, unless digests collide or vanish among what is hashed for the tree and to check the proof. -/
theorem accepted_proof_is_of_member (pairs : List (Octets × Octets)) (key value : Octets) (proof : Proof)
    (hleaf : proof.leaf = leaf key value)
    (hashes : DigestsApart (rootInputs pairs ++ leafInputs key value ++ proof.inputs))
    (h : proof.verifies (root pairs) = true) : (key, value) ∈ pairs := by
  obtain ⟨start, path⟩ := proof
  obtain rfl : start = leaf key value := hleaf
  refine mem_of_climbs hashes ?_ ?_ ?_ (of_decide_eq_true h)
  · exact fun x hx => by simp [hx]
  · exact fun x hx => by simp [hx]
  · exact fun x hx => by simp [Proof.inputs, hx]

namespace OddMember

def pairs : List (Octets × Octets) := [([0], [3]), ([1], [4]), ([2], [5])]

def proof : Proof := ⟨leaf [2] [5], [(.right, leaf [2] [5]), (.left, node (leaf [0] [3]) (leaf [1] [4]))]⟩

/-- The last pair is proven by its own leaf and the node above the other two. -/
theorem proven : proof.leaf = leaf [2] [5] ∧
    DigestsApart (rootInputs pairs ++ leafInputs [2] [5] ++ proof.inputs) ∧
    proof.verifies (root pairs) = true ∧ ([2], [5]) ∈ pairs := by
  have hdistinct : (Block.zero 32 :: (rootInputs pairs).map Sha256.digest).Nodup := by decide +kernel
  have hpath : proof.inputs ⊆ rootInputs pairs :=
    List.subset_append_of_subset_right _ (climbs_siblings 3 (leaves pairs) (by decide) 2 (by decide)).2
  have hashes : DigestsApart (rootInputs pairs ++ leafInputs [2] [5] ++ proof.inputs) :=
    (DigestsApart.of_nodup hdistinct).mono (List.append_subset.2
      ⟨List.append_subset.2 ⟨List.Subset.refl _, leafInputs_subset (p := ([2], [5])) (by decide)⟩, hpath⟩)
  have hverifies : proof.verifies (root pairs) = true := decide_eq_true rfl
  exact ⟨rfl, hashes, hverifies, accepted_proof_is_of_member pairs [2] [5] proof rfl hashes hverifies⟩

end OddMember
end BridgeLedger.MerkleTree
