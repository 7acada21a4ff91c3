import BridgeLedger.Proofs.DirectExecution
import BridgeLedger.Proofs.OverlayAccounts

/-! Executions that do not meet. Whatever an execution asks of the state is in the end among the keys that its overlay
counts as read or has staged, so it goes the same way in every state with the same values there, and two executions that
write nothing of what the other one touches can change places. -/
namespace BridgeLedger

variable {α : Type}

/-- The value of a lookup depends on nothing but the keys that it asks. -/
theorem Lookup.eval_congr {x : Lookup α} {s t : Store} (h : ∀ key ∈ x.asked s, t.find? key = s.find? key) :
    x.eval t = x.eval s := by
  induction x with
  | done a => rfl
  | get key next ih =>
    change (next (t.find? key)).eval t = (next (s.find? key)).eval s
    rw [h key List.mem_cons_self]
    exact ih _ fun k hk => h k (List.mem_cons_of_mem _ hk)

namespace Overlay

def touched (o : Overlay) : List Octets := o.reads.entries.map Prod.fst ++ o.staged.entries.map Prod.fst

theorem mem_touched_iff {o : Overlay} {key : Octets} :
    key ∈ o.touched ↔ o.reads.contains key = true ∨ o.staged.contains key = true := by
  rw [touched, List.mem_append, KeyMap.mem_keys_iff, KeyMap.mem_keys_iff]

/-- A script on a new overlay asks its base for nothing that the overlay does not touch in the end. Staged bodies are no
exception, as the requests of their overlays go through this one. -/
theorem asked_subset_touched (x : Script α) (s : Store) :
    (x.onOverlay .empty).asked s ⊆ ((x.onOverlay .empty).eval s).2.touched := by
  have haccounts := accounts_new x s
  intro key hasked
  rw [mem_touched_iff]
  obtain ⟨hfree, hlooked | hputs⟩ := (haccounts.asked key).1 hasked
  · exact .inl ((haccounts.reads key).2 (.inr ⟨hfree, hlooked⟩))
  · exact .inr (haccounts.contains_staged hputs)

end Overlay

/-- Batches that write different keys can be applied in either order. -/
theorem Store.writeAll_comm {ws ws' : List Write} (h : ∀ w ∈ ws, ∀ w' ∈ ws', w.key ≠ w'.key) (s : Store) :
    (s.writeAll ws).writeAll ws' = (s.writeAll ws').writeAll ws := by
  apply KeyMap.ext
  intro key
  simp only [Store.find?_writeAll]
  cases hw : ws.reverse.find? (·.key = key) with
  | none => rfl
  | some w =>
    cases hw' : ws'.reverse.find? (·.key = key) with
    | none => rfl
    | some w' =>
      have hmem := List.mem_reverse.1 (List.mem_of_find?_eq_some hw)
      have hmem' := List.mem_reverse.1 (List.mem_of_find?_eq_some hw')
      have hkey : w.key = key := by simpa using List.find?_some hw
      have hkey' : w'.key = key := by simpa using List.find?_some hw'
      exact absurd (hkey.trans hkey'.symm) (h w hmem w' hmem')

def answer {ε σ α : Type} (x : EStateM ε σ α) (s : σ) : Except ε α :=
  match x s with
  | .ok a _ => .ok a
  | .error e _ => .error e

namespace Execution

/-- The keys that the overlay of an execution counts as read or has staged in the end, also if the action is refused
or aborts. An action that cannot be written gets no overlay. -/
def footprint (s : Store) (ctx : Context) (action : Action) : List Octets :=
  match action.encode with
  | .error _ => []
  | .ok _ => (((action.script ctx).run.onOverlay .empty).eval s).2.touched

def committed (s : Store) (ctx : Context) (action : Action) : List Write :=
  match stage s ctx action with
  | .error _ => []
  | .ok (_, writes) => writes

variable {s t : Store} {ctx ctx' : Context} {action action' : Action}

theorem answer_execute (s : Store) (ctx : Context) (action : Action) :
    answer (execute ctx action) s = (stage s ctx action).map Prod.fst := by
  unfold answer
  rw [execute_eq]
  cases stage s ctx action <;> rfl

theorem endState_eq_writeAll (s : Store) (ctx : Context) (action : Action) :
    endState (execute ctx action) s = s.writeAll (committed s ctx action) := by
  unfold endState committed
  rw [execute_eq]
  cases stage s ctx action <;> rfl

theorem footprint_of_observe {bytes : Octets} {outcome : Outcome} {o : Overlay} (hbytes : action.encode = .ok bytes)
    (h : observe s ctx action = .ok (outcome, o)) : footprint s ctx action = o.touched := by
  simp only [footprint, hbytes, observe_iff.1 h]

/-- What an execution writes it has staged. -/
theorem committed_subset (s : Store) (ctx : Context) (action : Action) :
    (committed s ctx action).map Write.key ⊆ footprint s ctx action := by
  unfold committed stage
  cases hbytes : action.encode with
  | error e => exact List.nil_subset _
  | ok bytes =>
    cases hobserve : observe s ctx action with
    | error e => exact List.nil_subset _
    | ok observed =>
      obtain ⟨outcome, o⟩ := observed
      rw [footprint_of_observe hbytes hobserve]
      change (batch outcome o).map Write.key ⊆ o.touched
      unfold batch
      split
      · rw [o.keys_writes]
        exact List.subset_append_right _ _
      · exact List.nil_subset _

/-- An execution goes the same way in all states that agree on its footprint. -/
theorem stage_congr (h : ∀ key ∈ footprint s ctx action, t.find? key = s.find? key) :
    stage t ctx action = stage s ctx action := by
  unfold footprint at h
  unfold stage
  cases hbytes : action.encode with
  | error e => rfl
  | ok bytes =>
    rw [hbytes] at h
    have hasked := Overlay.asked_subset_touched (action.script ctx).run s
    have hsame := Lookup.eval_congr fun key hkey => h key (hasked hkey)
    unfold observe
    rw [Lookup.run_store, Lookup.run_store, hsame]

theorem committed_congr (h : ∀ key ∈ footprint s ctx action, t.find? key = s.find? key) :
    committed t ctx action = committed s ctx action := by
  unfold committed
  rw [stage_congr h]

theorem answer_congr (h : ∀ key ∈ footprint s ctx action, t.find? key = s.find? key) :
    answer (execute ctx action) t = answer (execute ctx action) s := by
  rw [answer_execute, answer_execute, stage_congr h]

/-- An execution that writes nothing in a footprint leaves the values there as they are. -/
theorem agrees_after (h : ∀ w ∈ committed s ctx' action', w.key ∉ footprint s ctx action) :
    ∀ key ∈ footprint s ctx action, (endState (execute ctx' action') s).find? key = s.find? key := by
  intro key hkey
  rw [endState_eq_writeAll]
  refine s.find?_writeAll_of_not_mem _ fun w hw heq => ?_
  exact h w hw (heq ▸ hkey)

/-- Executions of which neither writes in the footprint of the other one end in the same state in either order. -/
theorem endState_comm (h : ∀ w ∈ committed s ctx' action', w.key ∉ footprint s ctx action)
    (h' : ∀ w ∈ committed s ctx action, w.key ∉ footprint s ctx' action') :
    endState (execute ctx' action') (endState (execute ctx action) s) =
      endState (execute ctx action) (endState (execute ctx' action') s) := by
  have hsecond := committed_congr (agrees_after h)
  have hsecond' := committed_congr (agrees_after h')
  simp only [endState_eq_writeAll] at hsecond hsecond' ⊢
  rw [hsecond, hsecond']
  apply Store.writeAll_comm
  intro w hw w' hw' heq
  exact h w' hw' (heq ▸ committed_subset s ctx action (List.mem_map_of_mem hw))

/-- In all states that agree on the footprint of an execution it gives the same answer and applies the same batch. Two
executions of which neither writes in the footprint of the other one give the same answers and end in the same state in
either order. -/
theorem independent_executions_commute :
    (∀ (s t : Store) (ctx : Context) (action : Action),
      (∀ key ∈ footprint s ctx action, t.find? key = s.find? key) →
        answer (execute ctx action) t = answer (execute ctx action) s ∧
        committed t ctx action = committed s ctx action ∧
        endState (execute ctx action) s = s.writeAll (committed s ctx action) ∧
        endState (execute ctx action) t = t.writeAll (committed s ctx action)) ∧
    ∀ (s : Store) (ctx ctx' : Context) (action action' : Action),
      (∀ w ∈ committed s ctx' action', w.key ∉ footprint s ctx action) →
      (∀ w ∈ committed s ctx action, w.key ∉ footprint s ctx' action') →
        answer (execute ctx action) (endState (execute ctx' action') s) = answer (execute ctx action) s ∧
        answer (execute ctx' action') (endState (execute ctx action) s) = answer (execute ctx' action') s ∧
        endState (execute ctx' action') (endState (execute ctx action) s) =
          endState (execute ctx action) (endState (execute ctx' action') s) := by
  constructor
  · intro s t ctx action h
    refine ⟨answer_congr h, committed_congr h, endState_eq_writeAll s ctx action, ?_⟩
    rw [endState_eq_writeAll t, committed_congr h]
  · intro s ctx ctx' action action' h h'
    exact ⟨answer_congr (agrees_after h), answer_congr (agrees_after h'), endState_comm h h'⟩

namespace LoanBesidePayment

def state : Store :=
  let record : AssetRecord := ⟨[84], 2, [109], 40, 100, .filled 1, false⟩
  ((Store.replace .empty (.asset (.filled 3)) record.encode.toOption).replace (.balance (.filled 1) (.filled 3))
    (Cell.ofAmount 40)).replace (.balance (.filled 2) .empty) (Cell.ofAmount 50)

def inhabited : Store := state.replace (.balance (.filled 4) .empty) (Cell.ofAmount 9)

def context (actor : Address) (transaction : Identifier) : Context := ⟨actor, transaction, 0, .filled 9, 1, false⟩

def lending : Action := .exportAsset ⟨.filled 2, .filled 3, 30, false, ⟨5, ⟨0, .empty, 0, 0⟩⟩, .filled 8⟩

def payment : Action := .payment ⟨.filled 4, 10, []⟩

def lend : EStateM ExecutionError Store Receipt := execute (context (.filled 1) (.filled 11)) lending

def pay : EStateM ExecutionError Store Receipt := execute (context (.filled 2) (.filled 12)) payment

theorem loan_and_payment_commute :
    succeeded lend state = true ∧ succeeded pay state = true ∧
    answer lend inhabited = answer lend state ∧ answer pay inhabited ≠ answer pay state ∧
    answer lend (endState pay state) = answer lend state ∧ answer pay (endState lend state) = answer pay state ∧
    endState pay (endState lend state) = endState lend (endState pay state) := by
  obtain ⟨hagree, hcommute⟩ := independent_executions_commute
  have hinhabited := hagree state inhabited (context (.filled 1) (.filled 11)) lending (by decide +kernel)
  have hboth := hcommute state (context (.filled 1) (.filled 11)) (context (.filled 2) (.filled 12)) lending payment
    (by decide +kernel) (by decide +kernel)
  have hdepends : (answer pay inhabited).toOption ≠ (answer pay state).toOption := by decide +kernel
  exact ⟨by decide +kernel, by decide +kernel, hinhabited.1, fun hsame => hdepends (congrArg Except.toOption hsame),
    hboth⟩

end LoanBesidePayment
end Execution
end BridgeLedger
