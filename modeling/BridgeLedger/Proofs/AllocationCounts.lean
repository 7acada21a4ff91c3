import BridgeLedger.Proofs.OverlayAccounts

/-! How many keys an overlay counts as allocated. They are the keys that its staged writes create in the base, except those
that were deleted on the way: a deletion withdraws a key from the count, and a value that is put again does not bring it
back. -/
namespace BridgeLedger

variable {α : Type}

namespace Overlay

/-- The keys for which a value is staged and which the base lacks. -/
def created (o : Overlay) (s : Store) : List Octets :=
  (o.staged.entries.filter fun e => e.2.isSome && !s.contains e.1).map Prod.fst

theorem mem_created_iff {o : Overlay} {s : Store} {key : Octets} :
    key ∈ o.created s ↔ s.find? key = none ∧ ∃ value, o.staged.find? key = some (some value) := by
  unfold created
  rw [List.mem_map]
  constructor
  · rintro ⟨⟨_, v⟩, hmem, rfl⟩
    obtain ⟨hentry, hcreated⟩ := List.mem_filter.1 hmem
    rw [Bool.and_eq_true, Bool.not_eq_true', KeyMap.contains_eq_false_iff, Option.isSome_iff_exists] at hcreated
    obtain ⟨⟨value, rfl⟩, hlacks⟩ := hcreated
    exact ⟨hlacks, value, (o.staged.find?_eq_some_iff_mem _ _).2 hentry⟩
  · rintro ⟨hlacks, value, hstaged⟩
    refine ⟨(key, some value), List.mem_filter.2 ⟨(o.staged.find?_eq_some_iff_mem key _).1 hstaged, ?_⟩, rfl⟩
    rw [Bool.and_eq_true, Bool.not_eq_true', KeyMap.contains_eq_false_iff]
    exact ⟨rfl, hlacks⟩

theorem nodup_created (o : Overlay) (s : Store) : (o.created s).Nodup :=
  o.staged.nodup_keys.sublist (List.filter_sublist.map _)

theorem length_created_le (o : Overlay) (s : Store) : (o.created s).length ≤ o.writeCount := by
  rw [created, List.length_map]
  exact List.length_filter_le _ _

/-- A value is staged for a key that was never deleted if one was put at all. -/
theorem exists_staged_iff {ws : List Write} {key : Octets} (h : .delete key ∉ ws) :
    (∃ value, (ws.foldl stage .empty).find? key = some (some value)) ↔ ∃ value, .put key value ∈ ws := by
  constructor
  · rintro ⟨value, hstaged⟩
    obtain ⟨w, hmem, rfl, hvalue⟩ := exists_write_of_staged hstaged
    cases w with
    | put key value => exact ⟨value, hmem⟩
    | delete key => cases hvalue
  · rintro ⟨value, hmem⟩
    cases hstaged : (ws.foldl stage .empty).find? key with
    | none => exact absurd rfl ((stageAll_eq_none_iff.1 hstaged).2 _ hmem)
    | some v =>
      obtain ⟨w, hlast, rfl, rfl⟩ := exists_write_of_staged hstaged
      cases w with
      | put key value => exact ⟨value, rfl⟩
      | delete key => exact absurd hlast h

/-- A key is recorded as allocated if it is created and no write that was asked for deletes it. -/
theorem allocated_iff (x : Script α) (s : Store) (key : Octets) :
    ((x.onOverlay .empty).eval s).2.allocated.contains key = true ↔
      key ∈ ((x.onOverlay .empty).eval s).2.created s ∧ .delete key ∉ x.requested s := by
  have haccounts := accounts_new x s
  rw [haccounts.allocated, mem_created_iff, haccounts.staged]
  by_cases hdelete : .delete key ∈ x.requested s
  · simp [hdelete]
  · have hstaged := exists_staged_iff hdelete
    simp [empty, KeyMap.contains, hdelete, hstaged]

theorem allocateCount_eq (x : Script α) (s : Store) :
    ((x.onOverlay .empty).eval s).2.allocateCount =
      ((((x.onOverlay .empty).eval s).2.created s).filter fun key => .delete key ∉ x.requested s).length := by
  refine KeyMap.size_eq_length ((nodup_created _ s).filter _) fun key => ?_
  rw [allocated_iff, List.mem_filter, decide_eq_true_iff]

/-- Whatever an overlay is asked to read, to put, to delete and to apply, each request possibly chosen by earlier answers,
it counts as allocated the keys that have a value staged in the end and that the base lacks, less those among them that were
deleted on the way. So the count is the number of keys that are created exactly if none of them was ever deleted. -/
theorem allocations_counted (x : Script α) (s : Store) :
    ∃ a o, (x.onOverlay .empty).run (Keyspace.get s) = .ok (a, o) ∧
      o.allocateCount = ((o.created s).filter fun key => .delete key ∉ x.requested s).length ∧
      (o.allocateCount = (o.created s).length ↔ ∀ key ∈ o.created s, .delete key ∉ x.requested s) := by
  refine ⟨_, _, Lookup.run_store s _, allocateCount_eq x s, ?_⟩
  rw [allocateCount_eq, List.length_filter_eq_length_iff]
  simp

namespace Recreated

def rewrite : Script Unit := do
  Script.remove [0]
  Script.insert [0] [1]

/-- In an empty base the key is created, but the overlay does not count it. -/
theorem uncounted : ∃ o, (rewrite.onOverlay .empty).run (Keyspace.get (KeyMap.empty : Store)) = .ok ((), o) ∧
    o.created KeyMap.empty = [[0]] ∧ o.allocateCount = 0 :=
  ⟨_, Lookup.run_store _ _, by decide⟩

end Recreated
end Overlay
end BridgeLedger
