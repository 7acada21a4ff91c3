import BridgeLedger.Proofs.DirectExecution
import BridgeLedger.Proofs.MerkleSoundness
import BridgeLedger.Store.StateRoot

/-! The root of a store stands for its bindings. However they were written, in which order and in which batches, equal
bindings have one root, and one root means equal bindings as long as the digests of what is hashed are apart. -/
namespace BridgeLedger

open MerkleTree

/-- Batches of writes, one after the other, from an empty state on. -/
inductive History where
  | memory (batches : List (List Write))
  /-- batches that a database commits, each with a batch for the metadata -/
  | database (commits : List (List Write × List Write))

namespace History

def state : History → Store
  | memory batches => endState (batches.forM Keyspace.apply) .empty
  | database commits => (endState (commits.forM fun c => Journal.commit c.1 c.2) Database.empty).state.contents

def writes : History → List Write
  | memory batches => batches.flatten
  | database commits => (commits.map Prod.fst).flatten

def lastValue? (h : History) (key : Octets) : Option Octets :=
  (h.writes.reverse.find? (·.key = key)).bind Write.value?

end History

namespace Store

def rootInputs (s : Store) : List Octets := MerkleTree.rootInputs s.entries

/-- A binding of a store is a binding of every store with the same root. -/
theorem find?_of_root_eq {s t : Store} (hashes : DigestsApart (s.rootInputs ++ t.rootInputs)) (hroot : s.root = t.root)
    {key value : Octets} (h : s.find? key = some value) : t.find? key = some value := by
  have hmem := (KeyMap.find?_eq_some_iff_mem s key value).1 h
  obtain ⟨path, hreaches, hinputs⟩ := exists_path hmem
  rw [KeyMap.find?_eq_some_iff_mem]
  refine mem_of_climbs hashes (List.subset_append_right _ _) ?_ ?_ (hreaches.trans hroot)
  · exact List.subset_append_of_subset_left _ (leafInputs_subset hmem)
  · exact List.subset_append_of_subset_left _ hinputs

theorem root_eq_iff {s t : Store} (hashes : DigestsApart (s.rootInputs ++ t.rootInputs)) :
    s.root = t.root ↔ ∀ key value, s.find? key = some value ↔ t.find? key = some value := by
  constructor
  · intro hroot key value
    have hashes' : DigestsApart (t.rootInputs ++ s.rootInputs) :=
      hashes.mono (List.append_subset.2 ⟨List.subset_append_right _ _, List.subset_append_left _ _⟩)
    exact ⟨find?_of_root_eq hashes hroot, find?_of_root_eq hashes' hroot.symm⟩
  · intro h
    have hsame : s = t := KeyMap.ext fun key => Option.ext fun value => h key value
    rw [hsame]

end Store

namespace History

private theorem forM_apply (batches : List (List Write)) (s : Store) :
    (batches.forM Keyspace.apply : EStateM StoreFault Store Unit) s = .ok () (s.writeAll batches.flatten) := by
  induction batches generalizing s with
  | nil => rfl
  | cons batch rest ih =>
    change (Keyspace.apply batch >>= fun _ => rest.forM Keyspace.apply : EStateM StoreFault Store Unit) s = _
    simp only [bind, EStateM.bind, Store.apply_store]
    exact (ih _).trans (congrArg (EStateM.Result.ok ()) (Store.writeAll_append ..).symm)

private theorem apply_faultyStore (writes : List Write) (s : Store) :
    (Keyspace.apply writes : EStateM StoreFault FaultyStore Unit) (.ofStore s) = .ok () (.ofStore (s.writeAll writes)) := by
  induction writes generalizing s with
  | nil => rfl
  | cons w rest ih =>
    cases w with
    | put key value => exact ih (s.insert key value)
    | delete key => exact ih (s.erase key)

private theorem apply_tree (writes : List Write) (s : Store) :
    (Keyspace.apply writes : EStateM StoreFault Database.Tree Unit) (.ofStore s) = .ok () (.ofStore (s.writeAll writes)) := by
  change atomically (Database.Tree.onStore (Keyspace.apply writes)) (.ofStore s) = _
  simp only [atomically, Database.Tree.onStore, withError, runWithin, Database.Tree.ofStore, apply_faultyStore]

private theorem commit_database (stateBatch recordBatch : List Write) (s m : Store) :
    (Journal.commit stateBatch recordBatch : EStateM StoreFault Database Unit) ⟨.ofStore s, .ofStore m⟩ =
      .ok () ⟨.ofStore (s.writeAll stateBatch), .ofStore (m.writeAll recordBatch)⟩ := by
  change atomically (fun d : Database => runWithin (Journal.commit stateBatch recordBatch) (d.state, d.metadata)
    fun trees => ⟨trees.1, trees.2⟩) _ = _
  simp only [atomically, runWithin, Execution.commit_pair, apply_tree]

private theorem forM_commit (commits : List (List Write × List Write)) (s m : Store) :
    ∃ metadata, (commits.forM fun c => Journal.commit c.1 c.2 : EStateM StoreFault Database Unit)
        ⟨.ofStore s, .ofStore m⟩ =
      .ok () ⟨.ofStore (s.writeAll (commits.map Prod.fst).flatten), metadata⟩ := by
  induction commits generalizing s m with
  | nil => exact ⟨.ofStore m, rfl⟩
  | cons c rest ih =>
    obtain ⟨metadata, hrest⟩ := ih (s.writeAll c.1) (m.writeAll c.2)
    refine ⟨metadata, ?_⟩
    change (Journal.commit c.1 c.2 >>= fun _ => rest.forM fun c => Journal.commit c.1 c.2 :
      EStateM StoreFault Database Unit) _ = _
    simp only [bind, EStateM.bind, commit_database]
    rw [List.map_cons, List.flatten_cons, Store.writeAll_append]
    exact hrest

theorem state_eq_writeAll (h : History) : h.state = Store.writeAll .empty h.writes := by
  cases h with
  | memory batches =>
    change endState (batches.forM Keyspace.apply : EStateM StoreFault Store Unit) .empty = _
    unfold endState
    rw [forM_apply batches .empty]
    rfl
  | database commits =>
    obtain ⟨metadata, hcommits⟩ := forM_commit commits .empty .empty
    change (endState (commits.forM fun c => Journal.commit c.1 c.2 : EStateM StoreFault Database Unit)
      .empty).state.contents = _
    unfold endState Database.empty
    rw [hcommits]
    rfl

theorem find?_state (h : History) (key : Octets) : h.state.find? key = h.lastValue? key := by
  rw [state_eq_writeAll, Store.find?_writeAll, lastValue?, KeyMap.find?_empty]
  cases h.writes.reverse.find? (·.key = key) <;> rfl

/-- The states in which two histories end have one root exactly if they hold the same values under the same keys, which
are the ones that were written last. -/
theorem roots_eq_iff_same_bindings (h h' : History)
    (hashes : DigestsApart (h.state.rootInputs ++ h'.state.rootInputs)) :
    (h.state.root = h'.state.root ↔
      ∀ key value, h.state.find? key = some value ↔ h'.state.find? key = some value) ∧
    ∀ key, h.state.find? key = h.lastValue? key ∧ h'.state.find? key = h'.lastValue? key :=
  ⟨Store.root_eq_iff hashes, fun key => ⟨h.find?_state key, h'.find?_state key⟩⟩

namespace TwoKeys

def rewritten : History := .memory [[.put [1] [9], .put [0] [3]], [.delete [0], .put [1] [4]], [.put [0] [3]]]

def committed : History := .database [([.put [0] [3], .put [2] [5]], []), ([.delete [2], .put [1] [4]], [.put [7] [7]])]

def deleted : History := .memory [[.put [1] [4], .put [0] [3]], [.delete [1]]]

/-- The two histories with the same bindings have one root, the third one has another. -/
theorem told_apart :
    DigestsApart (rewritten.state.rootInputs ++ committed.state.rootInputs) ∧
    DigestsApart (rewritten.state.rootInputs ++ deleted.state.rootInputs) ∧
    rewritten.state.root = committed.state.root ∧ rewritten.state.root ≠ deleted.state.root := by
  have hrewritten : rewritten.state.entries = [([0], [3]), ([1], [4])] := by decide
  have hcommitted : committed.state = rewritten.state := by decide
  have hdeleted : deleted.state.entries = [([0], [3])] := by decide
  have hdistinct : (Block.zero 32 :: rewritten.state.rootInputs.map Sha256.digest).Nodup := by
    unfold Store.rootInputs
    rw [hrewritten]
    decide +kernel
  have hashes := DigestsApart.of_nodup hdistinct
  have hsame : DigestsApart (rewritten.state.rootInputs ++ committed.state.rootInputs) := by
    rw [hcommitted]
    exact hashes.mono (List.append_subset.2 ⟨List.Subset.refl _, List.Subset.refl _⟩)
  have hother : DigestsApart (rewritten.state.rootInputs ++ deleted.state.rootInputs) := by
    refine hashes.mono (List.append_subset.2 ⟨List.Subset.refl _, ?_⟩)
    unfold Store.rootInputs
    rw [hrewritten, hdeleted]
    exact leafInputs_subset (p := ([0], [3])) (List.mem_cons_self)
  refine ⟨hsame, hother, ?_, ?_⟩
  · exact (roots_eq_iff_same_bindings rewritten committed hsame).1.2 fun key value => by rw [hcommitted]
  · intro hroot
    have hbindings := (roots_eq_iff_same_bindings rewritten deleted hother).1.1 hroot [1] [4]
    exact absurd (hbindings.1 (by decide)) (by decide)

end TwoKeys
end History
end BridgeLedger
