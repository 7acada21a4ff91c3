import BridgeLedger.Proofs.RecordedExecution
import BridgeLedger.Proofs.ScriptHalts

/-! Executions on stores in memory, with the record of the transaction and without it. What they answer and leave
behind is decided by the action alone: whether it can be written, and how it ends on the state. -/
namespace BridgeLedger

/-- The state in which a computation ends, whether it fails or not. -/
def endState {ε σ α : Type} (x : EStateM ε σ α) (s : σ) : σ :=
  match x s with
  | .ok _ s' => s'
  | .error _ s' => s'

namespace Execution

variable {s m : Store} {ctx : Context} {action : Action}

theorem observe_cases (s : Store) (ctx : Context) (action : Action) :
    (∃ e, Halts (action.perform ctx) s (.aborted e) ∧ observe s ctx action = .error e) ∨
      (∃ reason o, Halts (action.perform ctx) s (.refused reason) ∧
        observe s ctx action = .ok (.failure action.computeUnits reason, o)) ∨
      ∃ y o, Yields (action.perform ctx) s y (o.laidOn s) ∧ observe s ctx action = .ok (.success action.computeUnits y, o) := by
  obtain ⟨hvalue, hlaid⟩ := Script.exec_onOverlay (action.script ctx).run .empty s
  rw [Overlay.laidOn_empty] at hvalue hlaid
  unfold observe Halts Yields
  rw [Lookup.run_store]
  generalize ((action.script ctx).run.onOverlay .empty).eval s = seen at hvalue hlaid ⊢
  obtain ⟨result, o⟩ := seen
  dsimp only at hvalue hlaid ⊢
  rw [Action.script_eq, Outcome.ofScript, ExceptT.run_mk, Script.exec_bind] at hvalue hlaid
  generalize (action.perform ctx).run.exec s = performed at hvalue hlaid ⊢
  obtain ⟨(reason | e) | y, t⟩ := performed
  · exact .inr (.inl ⟨reason, o, rfl, by rw [hvalue]; rfl⟩)
  · exact .inl ⟨e, rfl, by rw [hvalue]; rfl⟩
  · exact .inr (.inr ⟨y, o, by rw [hlaid]; rfl, by rw [hvalue]; rfl⟩)

/-- The batch of a refused action is empty; that of a successful one makes the state what the action leaves. -/
theorem stage_cases (s : Store) (ctx : Context) (action : Action) :
    (∃ e, action.encode = .error e ∧ stage s ctx action = .error (.wire e)) ∨ ∃ bytes, action.encode = .ok bytes ∧
      ((∃ e, Halts (action.perform ctx) s (.aborted e) ∧ stage s ctx action = .error (.ledger e)) ∨
        ∃ receipt writes, stage s ctx action = .ok (receipt, writes) ∧
          ((∃ reason, Halts (action.perform ctx) s (.refused reason) ∧ receipt.outcome = .failure action.computeUnits reason ∧
              writes = []) ∨
            ∃ y, Yields (action.perform ctx) s y (s.writeAll writes) ∧ receipt.outcome = .success action.computeUnits y)) := by
  unfold stage
  cases hbytes : action.encode with
  | error e => exact .inl ⟨e, rfl, rfl⟩
  | ok bytes =>
    refine .inr ⟨bytes, rfl, ?_⟩
    obtain ⟨e, hhalts, hobserve⟩ | ⟨reason, o, hhalts, hobserve⟩ | ⟨y, o, hyields, hobserve⟩ := observe_cases s ctx action
    · exact .inl ⟨e, hhalts, by rw [hobserve]; rfl⟩
    · exact .inr ⟨_, _, by rw [hobserve]; rfl, .inl ⟨reason, hhalts, rfl, rfl⟩⟩
    · exact .inr ⟨_, _, by rw [hobserve]; rfl, .inr ⟨y, hyields, rfl⟩⟩

theorem execute_eq (s : Store) (ctx : Context) (action : Action) :
    execute ctx action s = match stage s ctx action with
      | .error e => .error e s
      | .ok (receipt, writes) => .ok receipt (s.writeAll writes) := by
  have hget : (EStateM.get : EStateM ExecutionError Store Store) s = .ok s s := rfl
  unfold execute
  simp only [bind, EStateM.bind, get, getThe, MonadStateOf.get, hget]
  cases stage s ctx action with
  | error e => rfl
  | ok staged =>
    obtain ⟨receipt, writes⟩ := staged
    cases writes with
    | nil => rfl
    | cons w ws =>
      simp only [MonadExcept.ofExcept, pure, EStateM.pure, List.isEmpty_cons, Bool.not_false, if_true, EStateM.bind,
        withError, Store.apply_store]

/-- A receipt is that of the staged action, whose batch has been applied. -/
theorem of_execute {s' : Store} {receipt : Receipt} (h : execute ctx action s = .ok receipt s') :
    ∃ writes, stage s ctx action = .ok (receipt, writes) ∧ s' = s.writeAll writes := by
  rw [execute_eq] at h
  cases hstage : stage s ctx action with
  | error e =>
    rw [hstage] at h
    cases h
  | ok staged =>
    rw [hstage] at h
    cases h
    exact ⟨staged.2, rfl, rfl⟩

/-- An execution in memory fails without effect when the action cannot be written or aborts. Otherwise it answers a
receipt: the action was refused without effect, or it took effect. -/
theorem execute_cases (s : Store) (ctx : Context) (action : Action) :
    (∃ e, action.encode = .error e ∧ execute ctx action s = .error (.wire e) s) ∨ ∃ bytes, action.encode = .ok bytes ∧
      ((∃ e, Halts (action.perform ctx) s (.aborted e) ∧ execute ctx action s = .error (.ledger e) s) ∨
        ∃ receipt s', execute ctx action s = .ok receipt s' ∧
          ((∃ reason, Halts (action.perform ctx) s (.refused reason) ∧ receipt.outcome = .failure action.computeUnits reason ∧ s' = s) ∨
            ∃ y, Yields (action.perform ctx) s y s' ∧ receipt.outcome = .success action.computeUnits y)) := by
  rw [execute_eq]
  obtain ⟨e, hbytes, hstage⟩ | ⟨bytes, hbytes, hrest⟩ := stage_cases s ctx action
  · exact .inl ⟨e, hbytes, by rw [hstage]⟩
  · refine .inr ⟨bytes, hbytes, ?_⟩
    obtain ⟨e, hhalts, hstage⟩ | ⟨receipt, writes, hstage, hrest⟩ := hrest
    · exact .inl ⟨e, hhalts, by rw [hstage]⟩
    · refine .inr ⟨receipt, s.writeAll writes, by rw [hstage], ?_⟩
      obtain ⟨reason, hhalts, houtcome, rfl⟩ | hsuccess := hrest
      · exact .inl ⟨reason, hhalts, houtcome, rfl⟩
      · exact .inr hsuccess

def succeeded {σ : Type} (x : EStateM ExecutionError σ Receipt) (s : σ) : Bool :=
  match x s with
  | .ok receipt _ => receipt.outcome.succeeded
  | .error _ _ => false

theorem succeeded_iff {σ : Type} {x : EStateM ExecutionError σ Receipt} {s : σ} :
    succeeded x s = true ↔ ∃ receipt s', x s = .ok receipt s' ∧ receipt.outcome.succeeded = true := by
  unfold succeeded
  cases x s <;> simp

def refusal? {σ : Type} (x : EStateM ExecutionError σ Receipt) (s : σ) : Option Refusal :=
  match x s with
  | .ok ⟨.failure _ reason, _⟩ _ => some reason
  | _ => none

/-- An execution either succeeds and carries out the action, or it leaves the state as it is. -/
theorem endState_cases (s : Store) (ctx : Context) (action : Action) :
    (succeeded (execute ctx action) s = true ∧
        ∃ y, Yields (action.perform ctx) s y (endState (execute ctx action) s)) ∨
      succeeded (execute ctx action) s = false ∧ endState (execute ctx action) s = s := by
  unfold endState succeeded
  obtain ⟨e, -, h⟩ | ⟨-, -, ⟨e, -, h⟩ | ⟨receipt, s', h, ⟨reason, -, hfailure, rfl⟩ | ⟨y, hyields, hsuccess⟩⟩⟩ :=
    execute_cases s ctx action
  · rw [h]
    exact .inr ⟨rfl, rfl⟩
  · rw [h]
    exact .inr ⟨rfl, rfl⟩
  · rw [h]
    exact .inr ⟨congrArg Outcome.succeeded hfailure, rfl⟩
  · rw [h]
    exact .inl ⟨congrArg Outcome.succeeded hsuccess, y, hyields⟩

theorem endState_execute (s : Store) (ctx : Context) (action : Action) :
    endState (execute ctx action) s = s ∨
      succeeded (execute ctx action) s = true ∧ ∃ y, Yields (action.perform ctx) s y (endState (execute ctx action) s) :=
  (endState_cases s ctx action).symm.imp_left And.right

theorem yields_of_succeeded (h : succeeded (execute ctx action) s = true) :
    ∃ y, Yields (action.perform ctx) s y (endState (execute ctx action) s) := by
  obtain ⟨-, hyields⟩ | ⟨hfails, -⟩ := endState_cases s ctx action
  · exact hyields
  · cases h.symm.trans hfails

private theorem stage_of_prepare {signatureUnits fee : UInt64} {p : Prepared}
    (h : prepare (s, m) ctx action signatureUnits fee = .ok p) :
    ∃ receipt, stage s ctx action = .ok (receipt, p.stateBatch) ∧ p.receipt.outcome = receipt.outcome := by
  unfold prepare at h
  obtain ⟨known, -, h⟩ := exists_ok_of_bind h
  cases known with
  | some record => cases h
  | none =>
    obtain ⟨⟨receipt, writes⟩, hstage, h⟩ := exists_ok_of_bind h
    obtain ⟨recordBatch, -, h⟩ := exists_ok_of_bind h
    cases h
    exact ⟨receipt, hstage, rfl⟩

/-- A recorded execution that answers a receipt has done to the state what an execution without a record does. -/
theorem executeRecorded_state (s m : Store) (ctx : Context) (action : Action) (signatureUnits fee : UInt64) :
    (∃ e, executeRecorded ctx action signatureUnits fee (s, m) = .error e (s, m)) ∨ ∃ receipt s' m',
      executeRecorded ctx action signatureUnits fee (s, m) = .ok receipt (s', m') ∧
        ((∃ reason, Halts (action.perform ctx) s (.refused reason) ∧ receipt.outcome = .failure action.computeUnits reason ∧ s' = s) ∨
          ∃ y, Yields (action.perform ctx) s y s' ∧ receipt.outcome = .success action.computeUnits y) := by
  rw [executeRecorded_eq]
  cases hp : prepare (s, m) ctx action signatureUnits fee with
  | error e => exact .inl ⟨e, rfl⟩
  | ok p =>
    refine .inr ⟨p.receipt, s.writeAll p.stateBatch, m.writeAll p.recordBatch, by simp only [commit_store], ?_⟩
    obtain ⟨receipt, hstage, houtcome⟩ := stage_of_prepare hp
    obtain ⟨e, -, herror⟩ | ⟨bytes, -, ⟨e, -, herror⟩ | ⟨receipt', writes, hok, hrest⟩⟩ := stage_cases s ctx action
    · cases hstage.symm.trans herror
    · cases hstage.symm.trans herror
    · cases hstage.symm.trans hok
      rw [houtcome]
      obtain ⟨reason, hhalts, hreason, hempty⟩ | hsuccess := hrest
      · exact .inl ⟨reason, hhalts, hreason, by rw [hempty]; rfl⟩
      · exact .inr hsuccess

end Execution
end BridgeLedger
