import BridgeLedger.Proofs.AllocationCounts
import BridgeLedger.Proofs.IndependentExecutions
import BridgeLedger.Proofs.RequestedWrites
import BridgeLedger.Proofs.SupplyConservation
import BridgeLedger.Proofs.WireLengths
import Mathlib.Data.List.Nodup

/-! What a receipt charges is what happened: the bytes of the action, its fixed cost, the keys that the state gained and
those that were written. No action deletes a key that it creates in its overlay, so none escapes the count. -/
namespace BridgeLedger

namespace Store

def gained (s s' : Store) : List Octets := (s'.entries.map Prod.fst).filter fun key => !s.contains key

theorem mem_gained_iff {s s' : Store} {key : Octets} :
    key ∈ s.gained s' ↔ s.find? key = none ∧ s'.contains key = true := by
  rw [gained, List.mem_filter, KeyMap.mem_keys_iff, Bool.not_eq_true', KeyMap.contains_eq_false_iff, and_comm]

theorem nodup_gained (s s' : Store) : (s.gained s').Nodup := s'.nodup_keys.filter _

end Store

namespace Overlay

/-- A store gains the keys that are created in an overlay above it. -/
theorem length_created (o : Overlay) (s : Store) : (o.created s).length = (s.gained (o.laidOn s)).length := by
  have hsame (key : Octets) : key ∈ o.created s ↔ key ∈ s.gained (o.laidOn s) := by
    rw [mem_created_iff, Store.mem_gained_iff]
    refine and_congr_right fun hlacks => ?_
    rw [KeyMap.contains, find?_laidOn, hlacks]
    obtain _ | _ | value := o.staged.find? key <;> simp
  exact ((List.perm_ext_iff_of_nodup (o.nodup_created s) (s.nodup_gained _)).2 hsame).length_eq

/-- What is created was put, so it was not deleted if no key was written twice. -/
theorem not_deleted_of_created {o : Overlay} {s : Store} {ws : List Write} (hstaged : o.staged = ws.foldl stage .empty)
    (hnodup : (ws.map Write.key).Nodup) {key : Octets} (hcreated : key ∈ o.created s) : .delete key ∉ ws := by
  intro hdelete
  obtain ⟨-, value, hvalue⟩ := mem_created_iff.1 hcreated
  obtain ⟨w, hmem, hkey, hput⟩ := exists_write_of_staged (hstaged ▸ hvalue)
  obtain rfl : w = .delete key := List.inj_on_of_nodup_map hnodup hmem hdelete hkey
  cases hput

end Overlay

namespace Action

/-- That a refusal is an answer adds no writes to those of the action. -/
theorem requested_script (action : Action) (ctx : Context) (s : Store) :
    (action.script ctx).run.requested s = (action.perform ctx).run.requested s := by
  rw [script_eq, Outcome.ofScript, ExceptT.run_mk, Script.requested_bind]
  obtain (_ | _) | _ := ((action.perform ctx).run.exec s).1 <;> exact List.append_nil _

end Action

namespace Execution

variable {s s' : Store} {ctx : Context} {action : Action} {outcome : Outcome} {o : Overlay}

theorem writeCount_of_observe (h : observe s ctx action = .ok (outcome, o)) : o.writeCount ≤ Action.maxWrites := by
  have hstaged := (Overlay.accounts_new (action.script ctx).run s).staged
  rw [observe_iff.1 h, Action.requested_script] at hstaged
  rw [← Overlay.length_writes]
  exact Nat.le_trans (Overlay.length_writes_le hstaged) (action.asks ctx s).1

/-- No action deletes what it creates. -/
theorem allocateCount_of_observe (h : observe s ctx action = .ok (outcome, o)) :
    o.allocateCount = (s.gained (o.laidOn s)).length := by
  have hstaged := (Overlay.accounts_new (action.script ctx).run s).staged
  have hcount := Overlay.allocateCount_eq (action.script ctx).run s
  rw [observe_iff.1 h] at hstaged hcount
  rw [hcount, ← Overlay.length_created, List.length_filter_eq_length_iff]
  intro key hcreated
  have hnodup := (action.asks ctx s).2
  rw [← Action.requested_script] at hnodup
  exact decide_eq_true (Overlay.not_deleted_of_created hstaged hnodup hcreated)

theorem committed_of_stage {receipt : Receipt} {writes : List Write}
    (h : stage s ctx action = .ok (receipt, writes)) : committed s ctx action = writes := by
  rw [committed, h]

/-- A receipt meters the execution. It charges the bytes of the action and its fixed cost. After a success it charges as many
allocations as there are keys that the state has gained, and as many writes as there are keys in the batch that was applied,
each of them once and among them every key with another value than before; after a failure it charges neither, and the state
is as it was. -/
theorem change_metered {receipt : Receipt} (h : execute ctx action s = .ok receipt s') :
    (∃ bytes, action.encode = .ok bytes ∧ receipt.resources.bandwidth.toNat = bytes.length) ∧
      receipt.resources.compute = action.computeUnits ∧
      (receipt.outcome.succeeded = true →
        s' = s.writeAll (committed s ctx action) ∧
        receipt.resources.allocations.toNat = (s.gained s').length ∧
        receipt.resources.writes.toNat = (committed s ctx action).length ∧
        ((committed s ctx action).map Write.key).Nodup ∧
        ∀ key, s'.find? key ≠ s.find? key → ∃ w ∈ committed s ctx action, w.key = key) ∧
      (receipt.outcome.succeeded = false →
        s' = s ∧ receipt.resources.allocations = 0 ∧ receipt.resources.writes = 0) := by
  obtain ⟨writes, hstage, rfl⟩ := of_execute h
  rw [committed_of_stage hstage]
  obtain ⟨bytes, outcome, o, hbytes, hobserve, rfl, rfl⟩ := of_stage hstage
  have hbandwidth := UInt64.toNat_ofNat_of_lt' (Nat.lt_of_le_of_lt (Action.length_of_encode hbytes) (by decide))
  refine ⟨⟨bytes, hbytes, hbandwidth⟩, units_of_observe hobserve, fun hsucceeded => ?_, fun hfailed => ?_⟩
  · have hbatch : batch outcome o = o.writes := if_pos hsucceeded
    have hallocations : (charge bytes outcome o).allocations = UInt64.ofNat o.allocateCount := if_pos hsucceeded
    have hwrites : (charge bytes outcome o).writes = UInt64.ofNat o.writeCount := if_pos hsucceeded
    have hgained := allocateCount_of_observe hobserve
    have hwritten := Nat.lt_of_le_of_lt (writeCount_of_observe hobserve) (by decide : Action.maxWrites < UInt64.size)
    have hcreated : o.allocateCount < UInt64.size := by
      rw [hgained, ← Overlay.length_created]
      exact Nat.lt_of_le_of_lt (o.length_created_le s) hwritten
    rw [hbatch, hallocations, hwrites, UInt64.toNat_ofNat_of_lt' hcreated, UInt64.toNat_ofNat_of_lt' hwritten]
    refine ⟨rfl, hgained, o.length_writes.symm, o.nodup_writes, fun key hchanged => ?_⟩
    refine Decidable.byContradiction fun hunwritten => hchanged (s.find?_writeAll_of_not_mem o.writes ?_)
    exact fun w hw hkey => hunwritten ⟨w, hw, hkey⟩
  · have hrefused : ¬outcome.succeeded = true := hfailed ▸ Bool.false_ne_true
    rw [batch, if_neg hrefused]
    exact ⟨rfl, if_neg hrefused, if_neg hrefused⟩

end Execution

namespace LentUnits

/-- The export of the units creates the loan and the message, and changes the balance of the sender. -/
theorem lending_metered : ∃ receipt s', Execution.execute context lending genesis.opening = .ok receipt s' ∧
    receipt.outcome.succeeded = true ∧ receipt.resources.allocations.toNat = (Store.gained genesis.opening s').length ∧
    receipt.resources.allocations = 2 ∧ receipt.resources.writes = 3 := by
  have hexecutes : Execution.succeeded (Execution.execute context lending) genesis.opening = true := by decide +kernel
  obtain ⟨receipt, s', hrun, hsucceeded⟩ := Execution.succeeded_iff.1 hexecutes
  obtain ⟨-, -, hmetered, -⟩ := Execution.change_metered hrun
  obtain ⟨-, hgained, -⟩ := hmetered hsucceeded
  have hunits : (answer (Execution.execute context lending) genesis.opening).toOption.map (fun r =>
      (r.resources.allocations, r.resources.writes)) = some (2, 3) := by decide +kernel
  rw [answer, hrun] at hunits
  obtain ⟨hallocations, hwrites⟩ := Prod.mk.inj (Option.some.inj hunits)
  exact ⟨receipt, s', hrun, hsucceeded, hgained, hallocations, hwrites⟩

end LentUnits
end BridgeLedger
