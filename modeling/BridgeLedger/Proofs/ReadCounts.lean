import BridgeLedger.Proofs.OverlayAccounts

/-! What a second overlay costs in reads. A script leaves the same writes staged whether it runs on an overlay or on one above
it whose writes are applied in the end. But the upper overlay looks for each key whose first write puts a value, and the
lower one counts that look as a read, which it does not do when it is asked to put the value itself. -/
namespace BridgeLedger

variable {α β : Type}

namespace Script

/-- After a lookup, which writes nothing, all that is looked at counts. -/
theorem looked_toScript_bind (x : Lookup α) (f : α → Script β) (s : Store) :
    (x.toScript >>= f).looked s = x.asked s ++ (f (x.eval s)).looked s := by
  change (x.toScript.bind f).looked s = _
  induction x with
  | done a => rfl
  | get key next ih => exact congrArg (key :: ·) (ih (s.find? key))

/-- Runs a script on a new overlay and applies the writes that are staged there. -/
def nested (x : Script α) : Script α := do
  let (a, o) ← (x.onOverlay .empty).toScript
  applyAll o.writes
  return a

theorem requested_nested (x : Script α) (s : Store) :
    x.nested.requested s = ((x.onOverlay .empty).eval s).2.writes := by
  rw [nested, requested_bind, requested_toScript, exec_toScript]
  exact List.append_nil _

/-- The overlay above looks at all that it asks of its base. -/
theorem looked_nested (x : Script α) (s : Store) : x.nested.looked s = (x.onOverlay .empty).asked s := by
  rw [nested, looked_toScript_bind]
  exact List.append_nil _

theorem exec_nested (x : Script α) (s : Store) : (x.nested.exec s).1 = (x.exec s).1 := by
  have hanswer := (exec_onOverlay x .empty s).1
  rw [Overlay.laidOn_empty] at hanswer
  rw [nested, exec_bind, exec_toScript, ← hanswer]
  rfl

end Script

namespace Overlay

/-- The writes of an overlay stage what the requests stage from which they come. -/
theorem stageAll_writes {o : Overlay} {ws : List Write} (h : o.staged = ws.foldl stage .empty)
    (staged : KeyMap (Option Octets)) : o.writes.foldl stage staged = ws.foldl stage staged := by
  apply KeyMap.ext
  intro key
  have hlast := o.find?_writes key
  rw [h, find?_stageAll] at hlast
  rw [find?_stageAll, find?_stageAll]
  cases hup : o.writes.reverse.find? (·.key = key) <;> cases hdown : ws.reverse.find? (·.key = key) <;>
    simp_all [KeyMap.find?_empty]

section

variable (x : Script α) (o : Overlay) (s : Store)

theorem answer_above : ((x.nested.onOverlay o).eval s).1 = ((x.onOverlay o).eval s).1 := by
  rw [(Script.exec_onOverlay x.nested o s).1, (Script.exec_onOverlay x o s).1, Script.exec_nested]

theorem staged_above : ((x.nested.onOverlay o).eval s).2.staged = ((x.onOverlay o).eval s).2.staged := by
  have hinner := (accounts_new x (o.laidOn s)).staged
  rw [(accounts_onOverlay x.nested o s).staged, (accounts_onOverlay x o s).staged, Script.requested_nested,
    stageAll_writes hinner]

/-- From above, also the look before a first put is read. -/
theorem reads_above_iff (key : Octets) : ((x.nested.onOverlay o).eval s).2.reads.contains key = true ↔
    ((x.onOverlay o).eval s).2.reads.contains key = true ∨
      o.staged.find? key = none ∧ Write.putsFirst key (x.requested (o.laidOn s)) = true := by
  have hinner := (accounts_new x (o.laidOn s)).asked key
  rw [(accounts_onOverlay x.nested o s).reads, (accounts_onOverlay x o s).reads, Script.looked_nested, hinner, or_assoc,
    ← and_or_left]
  exact or_congr_right (and_congr_right fun _ => and_iff_right rfl)

/-- The keys, of those with nothing staged before, that a script puts first and does not read. -/
def probed : List Octets :=
  let after := ((x.onOverlay o).eval s).2
  (after.staged.entries.map Prod.fst).filter fun key =>
    o.staged.find? key = none ∧ Write.putsFirst key (x.requested (o.laidOn s)) = true ∧ after.reads.contains key = false

variable {x o s} in
theorem mem_probed_iff {key : Octets} : key ∈ probed x o s ↔
    (o.staged.find? key = none ∧ Write.putsFirst key (x.requested (o.laidOn s)) = true) ∧
      ((x.onOverlay o).eval s).2.reads.contains key = false := by
  rw [probed, List.mem_filter, decide_eq_true_iff, KeyMap.mem_keys_iff, and_assoc]
  exact and_iff_right_of_imp fun ⟨_, hputs, _⟩ => (accounts_onOverlay x o s).contains_staged hputs

theorem readCount_above : ((x.nested.onOverlay o).eval s).2.readCount =
    ((x.onOverlay o).eval s).2.readCount + (probed x o s).length := by
  have hapart : (((x.onOverlay o).eval s).2.reads.entries.map Prod.fst ++ probed x o s).Nodup := by
    refine List.nodup_append.2 ⟨KeyMap.nodup_keys _, (KeyMap.nodup_keys _).filter _, ?_⟩
    rintro key hread _ hprobed rfl
    cases (KeyMap.mem_keys_iff.1 hread).symm.trans (mem_probed_iff.1 hprobed).2
  have hsize := KeyMap.size_eq_length hapart fun key => by
    rw [reads_above_iff, List.mem_append, KeyMap.mem_keys_iff, mem_probed_iff]
    cases ((x.onOverlay o).eval s).2.reads.contains key <;> simp
  rw [readCount, hsize, List.length_append, List.length_map]
  rfl

end

/-- A script on an overlay answers and leaves staged the same whether it runs there or above it. From above it is charged one
more read for each key that it puts first, that had nothing staged before and that it does not read itself; so the reads are
the same exactly if it reads all such keys. -/
theorem nested_reads_counted (x : Script α) (o : Overlay) (s : Store) :
    ∃ a above direct, (x.nested.onOverlay o).run (Keyspace.get s) = .ok (a, above) ∧
      (x.onOverlay o).run (Keyspace.get s) = .ok (a, direct) ∧
      above.staged = direct.staged ∧ above.readCount = direct.readCount + (probed x o s).length ∧
      (above.readCount = direct.readCount ↔ ∀ key, o.staged.find? key = none →
        Write.putsFirst key (x.requested (o.laidOn s)) = true → direct.reads.contains key = true) := by
  refine ⟨_, _, _, ?_, Lookup.run_store s _, staged_above x o s, readCount_above x o s, ?_⟩
  · rw [Lookup.run_store, ← answer_above x o s]
  · rw [readCount_above, Nat.add_eq_left, List.length_eq_zero_iff, List.eq_nil_iff_forall_not_mem]
    refine forall_congr' fun key => ?_
    rw [mem_probed_iff, not_and, Bool.not_eq_false, and_imp]

namespace StoredAbove

def store : Script Unit := Script.insert [0] [1]

/-- On a new overlay the put is no read, from above it is one. -/
theorem charged : ∃ above direct,
    (store.nested.onOverlay .empty).run (Keyspace.get (KeyMap.empty : Store)) = .ok ((), above) ∧
      (store.onOverlay .empty).run (Keyspace.get (KeyMap.empty : Store)) = .ok ((), direct) ∧
      above.staged = direct.staged ∧ above.readCount = 1 ∧ direct.readCount = 0 :=
  ⟨_, _, Lookup.run_store _ _, Lookup.run_store _ _, by decide⟩

end StoredAbove
end Overlay
end BridgeLedger
