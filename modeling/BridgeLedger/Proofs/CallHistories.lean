import BridgeLedger.Proofs.ActionAccounting
import BridgeLedger.Proofs.DirectExecution
import BridgeLedger.Proofs.OpeningState

/-! Histories of one chain, as a sequence of calls that each execute a transaction on its ledger, with a record of the
transaction or without. Calls may come from any context and may name a transaction again. -/
namespace BridgeLedger

structure Call where
  context : Context
  action : Action
  /-- the cost of the signature check and the fee, when the transaction goes on record -/
  recording : Option (UInt64 × UInt64)

namespace Call

def run (c : Call) : EStateM ExecutionError (Store × Store) Receipt :=
  match c.recording with
  | none => onFirst (Execution.execute c.context c.action)
  | some (signatureUnits, fee) => Execution.executeRecorded c.context c.action signatureUnits fee

def runAll (start : Store × Store) (calls : List Call) : Store × Store :=
  calls.foldl (fun ledger c => endState c.run ledger) start

theorem runAll_append_singleton (start : Store × Store) (calls : List Call) (c : Call) :
    runAll start (calls ++ [c]) = endState c.run (runAll start calls) := List.foldl_append ..

theorem runAll_take_succ {start : Store × Store} {calls : List Call} {c : Call} {n : Nat} (hc : calls[n]? = some c) :
    runAll start (calls.take (n + 1)) = endState c.run (runAll start (calls.take n)) := by
  rw [List.take_add_one, hc, Option.toList_some, runAll_append_singleton]

theorem runAll_of_run {start ledger : Store × Store} {calls : List Call} {c : Call} {receipt : Receipt} {n : Nat}
    (hc : calls[n]? = some c) (hrun : c.run (runAll start (calls.take n)) = .ok receipt ledger) :
    runAll start (calls.take (n + 1)) = ledger := by rw [runAll_take_succ hc, endState, hrun]

/-- What the calls between two places of a history keep still holds at the later place. -/
theorem runAll_persists {p : Store × Store → Prop} {start : Store × Store} {calls : List Call} {i j : Nat} (hij : i ≤ j)
    (hi : p (runAll start (calls.take i)))
    (hstep : ∀ k c, i ≤ k → k < j → calls[k]? = some c → p (runAll start (calls.take k)) →
      p (endState c.run (runAll start (calls.take k)))) : p (runAll start (calls.take j)) := by
  induction hij with
  | refl => exact hi
  | @step j hij ih =>
    have hj := ih fun k c hik hkj => hstep k c hik (Nat.lt_succ_of_lt hkj)
    cases hc : calls[j]? with
    | none =>
      rw [List.take_of_length_le (List.getElem?_eq_none_iff.1 hc)] at hj
      rwa [List.take_of_length_le (Nat.le_succ_of_le (List.getElem?_eq_none_iff.1 hc))]
    | some c =>
      rw [runAll_take_succ hc]
      exact hstep j c hij (Nat.lt_succ_self j) hc hj

variable {c : Call} {ledger start : Store × Store}

/-- A call answers an error, or that the action was refused, or that it took effect; only the last changes the state. -/
theorem run_cases (c : Call) (ledger : Store × Store) :
    (∃ e, c.run ledger = .error e ledger) ∨ ∃ receipt ledger', c.run ledger = .ok receipt ledger' ∧
      ((∃ reason, Halts (c.action.perform c.context) ledger.1 (.refused reason) ∧
          receipt.outcome = .failure c.action.computeUnits reason ∧ ledger'.1 = ledger.1) ∨
        ∃ y, Yields (c.action.perform c.context) ledger.1 y ledger'.1 ∧ receipt.outcome = .success c.action.computeUnits y) := by
  obtain ⟨s, m⟩ := ledger
  obtain ⟨ctx, action, recording⟩ := c
  cases recording with
  | none =>
    simp only [run, onFirst, runWithin]
    obtain ⟨e, -, h⟩ | ⟨-, -, ⟨e, -, h⟩ | ⟨receipt, s', h, hends⟩⟩ := Execution.execute_cases s ctx action
    · exact .inl ⟨.wire e, by rw [h]⟩
    · exact .inl ⟨.ledger e, by rw [h]⟩
    · exact .inr ⟨receipt, (s', m), by rw [h], hends⟩
  | some costs =>
    obtain ⟨signatureUnits, fee⟩ := costs
    obtain herror | ⟨receipt, s', m', h, hends⟩ := Execution.executeRecorded_state s m ctx action signatureUnits fee
    · exact .inl herror
    · exact .inr ⟨receipt, (s', m'), h, hends⟩

theorem run_of_recording {units fee : UInt64} (h : c.recording = some (units, fee)) :
    c.run = Execution.executeRecorded c.context c.action units fee := by
  unfold run
  rw [h]

/-- A recorded call fails without effect, or its transaction is new and goes on record, and the action takes effect as
far as it succeeds. -/
theorem endState_recorded (hrecorded : c.recording.isSome) (ledger : Store × Store) :
    (Execution.succeeded c.run ledger = false ∧ endState c.run ledger = ledger) ∨
      ∃ (s' : Store) (record : TransactionRecord), ledger.2.find? (transactionKey c.context.transaction) = none ∧
        endState c.run ledger = (s', ledger.2.insert (transactionKey c.context.transaction) record.encode) ∧
        ((Execution.succeeded c.run ledger = false ∧ s' = ledger.1) ∨
          Execution.succeeded c.run ledger = true ∧ ∃ y, Yields (c.action.perform c.context) ledger.1 y s') := by
  obtain ⟨⟨units, fee⟩, hrecording⟩ := Option.isSome_iff_exists.1 hrecorded
  unfold endState Execution.succeeded
  rw [run_of_recording hrecording]
  obtain ⟨e, h⟩ | ⟨receipt, record, s', hnew, h, hends⟩ :=
    Execution.executeRecorded_cases ledger.1 ledger.2 c.context c.action units fee
  · rw [h]
    exact .inl ⟨rfl, rfl⟩
  · rw [h]
    refine .inr ⟨s', record, hnew, rfl, ?_⟩
    obtain ⟨reason, hfailure, hsame⟩ | ⟨y, hsuccess, hyields⟩ := hends
    · exact .inl ⟨congrArg Outcome.succeeded hfailure, hsame⟩
    · exact .inr ⟨congrArg Outcome.succeeded hsuccess, y, hyields⟩

/-- A call that answers a success has carried out its action. -/
theorem yields_of_run {receipt : Receipt} {ledger' : Store × Store} {units : UInt64} {y : Yield}
    (hrun : c.run ledger = .ok receipt ledger') (hsuccess : receipt.outcome = .success units y) :
    Yields (c.action.perform c.context) ledger.1 y ledger'.1 := by
  obtain ⟨e, herror⟩ | ⟨_, _, hrun', ⟨reason, -, hfailure, -⟩ | ⟨y', hyields, hsuccess'⟩⟩ := c.run_cases ledger
  · cases hrun.symm.trans herror
  · cases hrun.symm.trans hrun'
    cases hsuccess.symm.trans hfailure
  · cases hrun.symm.trans hrun'
    cases hsuccess.symm.trans hsuccess'
    exact hyields

theorem yields_of_succeeded (h : Execution.succeeded c.run ledger = true) :
    ∃ y, Yields (c.action.perform c.context) ledger.1 y (endState c.run ledger).1 := by
  obtain ⟨receipt, ledger', hrun, hsucceeded⟩ := Execution.succeeded_iff.1 h
  unfold endState
  rw [hrun]
  cases houtcome : receipt.outcome with
  | success units y => exact ⟨y, yields_of_run hrun houtcome⟩
  | failure units reason =>
    rw [houtcome] at hsucceeded
    cases hsucceeded

theorem unchanged_of_not_succeeded (h : Execution.succeeded c.run ledger = false) :
    (endState c.run ledger).1 = ledger.1 := by
  unfold Execution.succeeded at h
  unfold endState
  obtain ⟨e, hrun⟩ | ⟨receipt, ledger', hrun, ⟨-, -, -, hsame⟩ | ⟨y, -, hsuccess⟩⟩ := c.run_cases ledger
  · rw [hrun]
  · rw [hrun]
    exact hsame
  · rw [hrun] at h
    simp only [hsuccess] at h
    cases h

/-- What every successful action keeps of the state lasts through a history. -/
theorem runAll_keeps {p : Store → Prop} (hstart : p start.1)
    (hstep : ∀ (c : Call) (s s' : Store) (y : Yield), Yields (c.action.perform c.context) s y s' → p s → p s')
    (calls : List Call) : p (runAll start calls).1 := by
  induction calls generalizing start with
  | nil => exact hstart
  | cons c rest ih =>
    apply ih
    cases hsucceeded : Execution.succeeded c.run start with
    | false =>
      rw [unchanged_of_not_succeeded hsucceeded]
      exact hstart
    | true =>
      obtain ⟨y, hyields⟩ := yields_of_succeeded hsucceeded
      exact hstep c _ _ y hyields hstart

/-- One place later in a history the state is the same, or the action of a call has taken effect. -/
theorem runAll_succ_cases (start : Store × Store) (calls : List Call) (i : Nat) :
    (runAll start (calls.take (i + 1))).1 = (runAll start (calls.take i)).1 ∨
      ∃ c y, calls[i]? = some c ∧ Execution.succeeded c.run (runAll start (calls.take i)) = true ∧
        Yields (c.action.perform c.context) (runAll start (calls.take i)).1 y
          (runAll start (calls.take (i + 1))).1 := by
  cases hc : calls[i]? with
  | none =>
    left
    rw [List.take_add_one, hc, Option.toList_none, List.append_nil]
  | some c =>
    rw [runAll_take_succ hc]
    cases hsucceeded : Execution.succeeded c.run (runAll start (calls.take i)) with
    | false => exact .inl (unchanged_of_not_succeeded hsucceeded)
    | true =>
      obtain ⟨y, hyields⟩ := yields_of_succeeded hsucceeded
      exact .inr ⟨c, y, rfl, hsucceeded, hyields⟩

theorem halts_of_refusal {reason : Refusal} (h : Execution.refusal? c.run ledger = some reason) :
    Halts (c.action.perform c.context) ledger.1 (.refused reason) := by
  unfold Execution.refusal? at h
  obtain ⟨e, hrun⟩ | ⟨⟨outcome, resources⟩, ledger', hrun, ⟨reason', hhalts, rfl, -⟩ | ⟨y, -, rfl⟩⟩ := c.run_cases ledger
  · rw [hrun] at h
    cases h
  · rw [hrun] at h
    cases h
    exact hhalts
  · rw [hrun] at h
    cases h

end Call

/-- A state in which a chain may start: empty, or what a distribution leaves. -/
def Store.Opening (s : Store) : Prop := s = .empty ∨ ∃ g : Genesis, s = g.opening

/-- A chain starts with nothing but balances and the record of the native asset. -/
theorem Store.Opening.stored_eq_none {s : Store} (h : s.Opening) {k : StateKey} (hbalance : ¬k.IsBalance)
    (hasset : k ≠ .asset .empty) : s.stored k = none := by
  obtain rfl | ⟨g, rfl⟩ := h
  · rfl
  · exact g.opening_stored hbalance hasset

theorem Store.Opening.bridged?_eq_none {s : Store} (h : s.Opening) (x : Identifier) : s.bridged? x = none := by
  obtain rfl | ⟨g, rfl⟩ := h
  · rfl
  · exact g.opening_bridged? x

theorem Store.Opening.unmarked {s : Store} (h : s.Opening) (source id : Identifier) : s.marked source id = false := by
  rw [Store.marked, h.stored_eq_none (k := .incoming source id) (fun h => h) nofun]
  rfl

theorem Store.Opening.wellFormed {s : Store} (h : s.Opening) : s.WellFormed := by
  obtain rfl | ⟨g, rfl⟩ := h
  · exact .empty
  · obtain hempty | ⟨total, t, -, -, hwf, -⟩ := g.opening_cases
    · exact hempty ▸ .empty
    · exact hwf

theorem Call.runAll_wellFormed {start : Store × Store} (hstart : start.1.Opening) (calls : List Call) :
    (runAll start calls).1.WellFormed := by
  apply runAll_keeps hstart.wellFormed
  intro c s s' y hyields hwf
  exact (Action.keeps hyields hwf).wellFormed

end BridgeLedger
