import BridgeLedger.MerkleTree

/-! What is hashed for a hash tree and on a path in it. The siblings of a node and of those above it lead from the node to
the root, and what they hash is hashed for the tree already. -/
namespace BridgeLedger.MerkleTree

def joined (label : Octets) (a b : Hash) : Octets := label ++ a.octets ++ b.octets

def leafInputs (key value : Octets) : List Octets :=
  [key, value, joined leafLabel (Sha256.digest key) (Sha256.digest value)]

def levelInputs : List Hash → List Octets
  | a :: b :: rest => joined nodeLabel a b :: levelInputs rest
  | [a] => [joined nodeLabel a a]
  | [] => []

def inputsAbove : (height : Nat) → List Hash → List Octets
  | _, [] => []
  | _, [_] => []
  | 0, _ => []
  | height + 1, level => levelInputs level ++ inputsAbove height (nextLevel level)

def rootInputs (pairs : List (Octets × Octets)) : List Octets :=
  (pairs.flatMap fun p => leafInputs p.1 p.2) ++ inputsAbove pairs.length (leaves pairs)

def climbInput (current : Hash) (step : Side × Hash) : Octets :=
  match step.1 with
  | .left => joined nodeLabel step.2 current
  | .right => joined nodeLabel current step.2

def pathInputs : Hash → List (Side × Hash) → List Octets
  | _, [] => []
  | current, step :: path => climbInput current step :: pathInputs (climb current step) path

def Proof.inputs (proof : Proof) : List Octets := pathInputs proof.leaf proof.path

/-- Different inputs have different digests, and none has the digest zero, which is the root of no pairs. -/
structure DigestsApart (inputs : List Octets) : Prop where
  injective : ∀ x ∈ inputs, ∀ y ∈ inputs, Sha256.digest x = Sha256.digest y → x = y
  nonzero : ∀ x ∈ inputs, Sha256.digest x ≠ Block.zero 32

theorem DigestsApart.mono {inputs inputs' : List Octets} (h : DigestsApart inputs') (hsub : inputs ⊆ inputs') :
    DigestsApart inputs :=
  ⟨fun x hx y hy => h.injective x (hsub hx) y (hsub hy), fun x hx => h.nonzero x (hsub hx)⟩

/-- Whether the digests are apart can be checked. -/
theorem DigestsApart.of_nodup {inputs : List Octets} (h : (Block.zero 32 :: inputs.map Sha256.digest).Nodup) :
    DigestsApart inputs := by
  rw [List.nodup_cons, List.nodup_iff_pairwise_ne, List.pairwise_map] at h
  have hall := List.Pairwise.forall_of_forall_of_flip (l := inputs)
    (R := fun x y => Sha256.digest x = Sha256.digest y → x = y) (fun _ _ _ => rfl)
    (h.2.imp fun hne heq => absurd heq hne) (h.2.imp fun hne heq => absurd heq.symm hne)
  exact ⟨fun x hx y hy => hall hx hy, fun x hx hzero => h.1 (List.mem_map.2 ⟨x, hx, hzero⟩)⟩

theorem climb_eq_digest (current : Hash) (step : Side × Hash) :
    climb current step = Sha256.digest (climbInput current step) := by
  obtain ⟨_ | _, sibling⟩ := step <;> rfl

/-- A step hashes the node that it comes from together with another one. -/
theorem climbInput_eq (current : Hash) (step : Side × Hash) :
    ∃ a b, climbInput current step = joined nodeLabel a b ∧ (current = a ∨ current = b) := by
  obtain ⟨_ | _, sibling⟩ := step
  · exact ⟨sibling, current, rfl, .inr rfl⟩
  · exact ⟨current, sibling, rfl, .inl rfl⟩

theorem joined_inj {label : Octets} {a b c d : Hash} (h : joined label a b = joined label c d) : a = c ∧ b = d := by
  unfold joined at h
  simp only [List.append_assoc, List.append_cancel_left_eq] at h
  obtain ⟨hac, hbd⟩ := List.append_inj h (a.length_octets.trans c.length_octets.symm)
  exact ⟨Block.ext hac, Block.ext hbd⟩

/-- The labels have one length and differ, so no input is hashed both for a leaf and for a node. -/
theorem joined_leaf_ne_node (a b c d : Hash) : joined leafLabel a b ≠ joined nodeLabel c d := by
  intro h
  unfold joined at h
  simp only [List.append_assoc] at h
  have hlabels : leafLabel = nodeLabel := (List.append_inj h (by decide +kernel)).1
  exact absurd hlabels (by decide +kernel)

/-- Each node of a level is hashed from nodes of the level below. -/
theorem exists_below {level : List Hash} {x : Hash} (h : x ∈ nextLevel level) :
    ∃ a ∈ level, ∃ b ∈ level, joined nodeLabel a b ∈ levelInputs level ∧ x = Sha256.digest (joined nodeLabel a b) := by
  induction level using nextLevel.induct with
  | case1 a b rest ih =>
    obtain rfl | h := List.mem_cons.1 h
    · exact ⟨a, by simp, b, by simp, List.mem_cons_self, rfl⟩
    · obtain ⟨c, hc, d, hd, hinput, rfl⟩ := ih h
      exact ⟨c, by simp [hc], d, by simp [hd], List.mem_cons_of_mem _ hinput, rfl⟩
  | case2 a =>
    obtain rfl := List.mem_singleton.1 h
    exact ⟨a, by simp, a, by simp, List.mem_singleton_self _, rfl⟩
  | case3 => cases h

theorem length_nextLevel (level : List Hash) : (nextLevel level).length = (level.length + 1) / 2 := by
  induction level using nextLevel.induct with
  | case1 a b rest ih =>
    simp only [nextLevel, List.length_cons, ih]
    omega
  | case2 a => simp [nextLevel]
  | case3 => simp [nextLevel]

theorem eq_singleton_or_two_le {level : List Hash} (h : level ≠ []) : (∃ a, level = [a]) ∨ 2 ≤ level.length := by
  match level, h with
  | [a], _ => exact .inl ⟨a, rfl⟩
  | a :: b :: rest, _ => exact .inr (by simp)

/-- Two nodes or more are joined before the top is taken. -/
theorem top_succ (height : Nat) {level : List Hash} (h : 2 ≤ level.length) :
    top (height + 1) level = top height (nextLevel level) ∧
      inputsAbove (height + 1) level = levelInputs level ++ inputsAbove height (nextLevel level) := by
  match level, h with
  | a :: b :: rest, _ => exact ⟨rfl, rfl⟩

theorem pathInputs_append (start : Hash) (before after : List (Side × Hash)) :
    pathInputs start (before ++ after) = pathInputs start before ++ pathInputs (before.foldl climb start) after := by
  induction before generalizing start with
  | nil => rfl
  | cons step before ih => exact congrArg (_ :: ·) (ih (climb start step))

/-- A path that is not empty ends with a step, which hashes a node. -/
theorem ends_in_step (start : Hash) (path : List (Side × Hash)) :
    path = [] ∨ ∃ before step, path = before ++ [step] ∧
      climbInput (before.foldl climb start) step ∈ pathInputs start path ∧
      path.foldl climb start = Sha256.digest (climbInput (before.foldl climb start) step) := by
  obtain rfl | ⟨before, step, rfl⟩ := List.eq_nil_or_concat path
  · exact .inl rfl
  · refine .inr ⟨before, step, List.concat_eq_append, ?_, ?_⟩
    · rw [List.concat_eq_append, pathInputs_append]
      exact List.mem_append_right _ List.mem_cons_self
    · rw [List.concat_eq_append, List.foldl_append, List.foldl_cons, List.foldl_nil, climb_eq_digest]

theorem leafInputs_subset {pairs : List (Octets × Octets)} {p : Octets × Octets} (hp : p ∈ pairs) :
    leafInputs p.1 p.2 ⊆ rootInputs pairs :=
  List.subset_append_of_subset_left _ fun _ hx => List.mem_flatMap.2 ⟨p, hp, hx⟩

/-- The sibling of a node and its side; an odd node at the end of a level is its own. -/
def sibling (level : List Hash) (index : Nat) : Side × Hash :=
  let own := level.getD index (Block.zero 32)
  if index % 2 = 1 then (.left, level.getD (index - 1) own) else (.right, level.getD (index + 1) own)

theorem siblings_succ (height : Nat) {level : List Hash} (h : 2 ≤ level.length) (index : Nat) :
    siblings (height + 1) level index = sibling level index :: siblings height (nextLevel level) (index / 2) := by
  rw [siblings, if_neg (by omega)]
  rfl

theorem sibling_add_two (a b : Hash) (rest : List Hash) (index : Nat) :
    sibling (a :: b :: rest) (index + 2) = sibling rest index := by
  unfold sibling
  rw [Nat.add_mod_right]
  split
  · obtain ⟨before, rfl⟩ : ∃ before, index = before + 1 := ⟨index - 1, by omega⟩
    rfl
  · rfl

/-- The sibling of a node leads to the node above them. -/
theorem climb_sibling {level : List Hash} {index : Nat} (h : index < level.length) :
    climb (level.getD index (Block.zero 32)) (sibling level index) =
        (nextLevel level).getD (index / 2) (Block.zero 32) ∧
      climbInput (level.getD index (Block.zero 32)) (sibling level index) ∈ levelInputs level := by
  induction level using nextLevel.induct generalizing index with
  | case1 a b rest ih =>
    match index with
    | 0 => exact ⟨rfl, List.mem_cons_self⟩
    | 1 => exact ⟨rfl, List.mem_cons_self⟩
    | index + 2 =>
      have hindex : index < rest.length := by simpa using h
      obtain ⟨hclimb, hinput⟩ := ih hindex
      rw [sibling_add_two, Nat.add_div_right index (by decide)]
      exact ⟨hclimb, List.mem_cons_of_mem _ hinput⟩
  | case2 a =>
    obtain rfl : index = 0 := by simpa using h
    exact ⟨rfl, List.mem_singleton_self _⟩
  | case3 => simp at h

/-- The siblings of a node lead to the top, and only what is hashed for the levels above is hashed on the way. -/
theorem climbs_siblings (height : Nat) (level : List Hash) (hlength : level.length ≤ height + 1) (index : Nat)
    (hindex : index < level.length) :
    (siblings height level index).foldl climb (level.getD index (Block.zero 32)) = top height level ∧
      pathInputs (level.getD index (Block.zero 32)) (siblings height level index) ⊆ inputsAbove height level := by
  have hnonempty : level ≠ [] := List.ne_nil_of_length_pos (by omega)
  induction height generalizing level index with
  | zero =>
    obtain ⟨a, rfl⟩ | htwo := eq_singleton_or_two_le hnonempty
    · obtain rfl : index = 0 := by simpa using hindex
      exact ⟨rfl, List.nil_subset _⟩
    · omega
  | succ height ih =>
    obtain ⟨a, rfl⟩ | htwo := eq_singleton_or_two_le hnonempty
    · obtain rfl : index = 0 := by simpa using hindex
      exact ⟨rfl, List.nil_subset _⟩
    obtain ⟨htop, hinputs⟩ := top_succ height htwo
    obtain ⟨hclimb, hinput⟩ := climb_sibling hindex
    have hlength' := length_nextLevel level
    obtain ⟨hreaches, hsub⟩ := ih (nextLevel level) (by omega) (index / 2) (by omega)
      (List.ne_nil_of_length_pos (by omega))
    rw [siblings_succ height htwo, htop, hinputs, List.foldl_cons, pathInputs, hclimb]
    exact ⟨hreaches, List.cons_subset.2 ⟨List.mem_append_left _ hinput, List.subset_append_of_subset_right _ hsub⟩⟩

/-- The siblings of a pair lead from its leaf to the root, and nothing is hashed on the way that is not hashed for the root. -/
theorem siblings_lead {pairs : List (Octets × Octets)} {index : Nat} {p : Octets × Octets} (h : pairs[index]? = some p) :
    (siblings pairs.length (leaves pairs) index).foldl climb (leaf p.1 p.2) = root pairs ∧
      pathInputs (leaf p.1 p.2) (siblings pairs.length (leaves pairs) index) ⊆ rootInputs pairs := by
  obtain ⟨hindex, -⟩ := List.getElem?_eq_some_iff.1 h
  have hleaf : (leaves pairs).getD index (Block.zero 32) = leaf p.1 p.2 := by
    rw [leaves, List.getD_eq_getElem?_getD, List.getElem?_map, h]
    rfl
  obtain ⟨hreaches, hsub⟩ := climbs_siblings pairs.length (leaves pairs) (by simp [leaves]) index
    (by simpa [leaves] using hindex)
  rw [hleaf] at hreaches hsub
  exact ⟨hreaches, List.subset_append_of_subset_right _ hsub⟩

theorem exists_path {pairs : List (Octets × Octets)} {key value : Octets} (h : (key, value) ∈ pairs) :
    ∃ path : List (Side × Hash), path.foldl climb (leaf key value) = root pairs ∧
      pathInputs (leaf key value) path ⊆ rootInputs pairs := by
  obtain ⟨index, hindex⟩ := List.mem_iff_getElem?.1 h
  obtain ⟨hreaches, hsub⟩ := siblings_lead hindex
  exact ⟨siblings pairs.length (leaves pairs) index, hreaches, hsub⟩

end BridgeLedger.MerkleTree
