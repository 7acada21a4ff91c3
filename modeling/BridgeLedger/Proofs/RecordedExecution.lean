import BridgeLedger.Execution
import BridgeLedger.Proofs.LedgerViews

/-! A recorded execution prepares its two batches without any change and then commits them. On stores in memory it
leaves everything as it is, or records a new transaction and carries out the action if that succeeds. -/
namespace BridgeLedger

theorem LedgerRead.runOn_store {α : Type} (x : LedgerRead α) (s : Store) : x.runOn s = x.run.eval s := by
  unfold runOn
  rw [Lookup.run_store]

def Receipt.withSignature (r : Receipt) (units : UInt64) : Receipt :=
  { r with resources := { r.resources with compute := Amount.addSaturating r.resources.compute units } }

def Receipt.record (r : Receipt) (timestamp : Int64) (fee : UInt64) : TransactionRecord :=
  ⟨timestamp, r.outcome.succeeded, r.resources, fee⟩

namespace Execution

variable {σ μ ω : Type} [Keyspace σ] [Keyspace μ] [Journal ω σ μ]

structure Prepared where
  receipt : Receipt
  stateBatch : List Write
  recordBatch : List Write

/-- A recorded execution up to its commit; the journal is only read. -/
def prepare (j : ω) (ctx : Context) (action : Action) (signatureUnits fee : UInt64) :
    Except ExecutionError Prepared := do
  let known ← ((Ledger.transaction? ctx.transaction).runOn (Journal.metadata j)).mapError .ledger
  if known.isSome then throw (.ledger (.duplicate (transactionKey ctx.transaction)))
  let (receipt, stateBatch) ← stage (Journal.state j) ctx action
  let resources :=
    { receipt.resources with compute := Amount.addSaturating receipt.resources.compute signatureUnits }
  let record : TransactionRecord :=
    { timestamp := ctx.timestamp, success := receipt.outcome.succeeded, resources, fee }
  let recordBatch ← (recordWrites (Journal.metadata j) ctx.transaction record).mapError .ledger
  return ⟨{ receipt with resources }, stateBatch, recordBatch⟩

/-- A recorded execution is its preparation and one commit. -/
theorem executeRecorded_eq (j : ω) (ctx : Context) (action : Action) (signatureUnits fee : UInt64) :
    executeRecorded ctx action signatureUnits fee j =
      match prepare j ctx action signatureUnits fee with
      | .error e => .error e j
      | .ok p => match Journal.commit p.stateBatch p.recordBatch j with
        | .ok () j' => .ok p.receipt j'
        | .error fault j' => .error (.store fault) j' := by
  unfold executeRecorded prepare
  have hget : (EStateM.get : EStateM ExecutionError ω ω) j = .ok j j := rfl
  simp only [bind, EStateM.bind, get, getThe, MonadStateOf.get, hget]
  cases ((Ledger.transaction? ctx.transaction).runOn (Journal.metadata j)).mapError ExecutionError.ledger with
  | error e => rfl
  | ok known =>
    cases known with
    | some record => rfl
    | none =>
      cases stage (Journal.state j) ctx action with
      | error e => rfl
      | ok staged =>
        obtain ⟨receipt, writes⟩ := staged
        simp only [Except.bind, MonadExcept.ofExcept, pure, EStateM.pure, Except.pure, EStateM.bind,
          Option.isSome_none, Bool.false_eq_true, if_false]
        generalize Except.mapError ExecutionError.ledger (recordWrites (Journal.metadata j) _ _) = recorded
        cases recorded with
        | error e => rfl
        | ok recordBatch =>
          simp only [withError, EStateM.pure]
          cases Journal.commit writes recordBatch j <;> rfl

/-- Two separate stores receive their batches one after the other. -/
theorem commit_pair (s : σ) (m : μ) (stateBatch recordBatch : List Write) :
    Journal.commit stateBatch recordBatch (s, m) =
      match Keyspace.apply stateBatch s with
      | .error fault s' => .error fault (s', m)
      | .ok () s' => match Keyspace.apply recordBatch m with
        | .ok () m' => .ok () (s', m')
        | .error fault m' => .error fault (s', m') := by
  simp only [Journal.commit, bind, EStateM.bind, onFirst, onSecond, runWithin]
  cases Keyspace.apply stateBatch s with
  | error fault s' => rfl
  | ok u s' => cases hm : Keyspace.apply recordBatch m <;> simp only [hm]

section InMemory

variable {s s' m : Store} {ctx : Context} {action : Action} {y : Yield}

theorem observe_iff {outcome : Outcome} {o : Overlay} :
    observe s ctx action = .ok (outcome, o) ↔
      ((action.script ctx).run.onOverlay .empty).eval s = (.ok outcome, o) := by
  unfold observe
  rw [Lookup.run_store]
  rcases ((action.script ctx).run.onOverlay .empty).eval s with ⟨_ | _, _⟩ <;> simp

/-- An outcome seen on an overlay is that of the action on the store: a refusal, or a success whose writes are
staged. -/
theorem of_observe {outcome : Outcome} {o : Overlay} (h : observe s ctx action = .ok (outcome, o)) :
    (∃ reason, outcome = .failure action.computeUnits reason) ∨
      ∃ y, outcome = .success action.computeUnits y ∧ Yields (action.perform ctx) s y (o.laidOn s) := by
  have hscript : Yields (action.script ctx) s outcome (o.laidOn s) := Yields.iff_onOverlay.2 ⟨o, observe_iff.1 h, rfl⟩
  unfold Yields at hscript ⊢
  rw [Action.script_eq, Outcome.ofScript, ExceptT.run_mk, Script.exec_bind] at hscript
  generalize (action.perform ctx).run.exec s = result at hscript ⊢
  obtain ⟨(reason | e) | y, t⟩ := result
  · cases hscript
    exact .inl ⟨reason, rfl⟩
  · cases hscript
  · cases hscript
    exact .inr ⟨y, rfl, rfl⟩

/-- Whatever comes of an action, its own cost is charged. -/
theorem units_of_observe {outcome : Outcome} {o : Overlay} (h : observe s ctx action = .ok (outcome, o)) :
    outcome.units = action.computeUnits := by
  obtain ⟨reason, rfl⟩ | ⟨y, rfl, -⟩ := of_observe h
  · rfl
  · rfl

theorem observe_of_yields (h : Yields (action.perform ctx) s y s') :
    ∃ o, observe s ctx action = .ok (.success action.computeUnits y, o) ∧ o.laidOn s = s' := by
  have hscript : Yields (action.script ctx) s (.success action.computeUnits y) s' := by
    unfold Yields at h ⊢
    rw [Action.script_eq, Outcome.ofScript, ExceptT.run_mk, Script.exec_bind, h]
    rfl
  obtain ⟨o, ho, hlaid⟩ := Yields.iff_onOverlay.1 hscript
  exact ⟨o, observe_iff.2 ho, hlaid⟩

private theorem storeTransaction_iff {transaction : Identifier} {record : TransactionRecord} {u : Unit} :
    Yields (Ledger.storeTransaction transaction record) m u s' ↔
      m.find? (transactionKey transaction) = none ∧ m.insert (transactionKey transaction) record.encode = s' := by
  unfold Ledger.storeTransaction
  rw [Yields.bind_iff]
  constructor
  · rintro ⟨found, t, hread, h⟩
    obtain ⟨hfound, rfl⟩ := Yields.lookup_iff.1 hread
    cases found with
    | none => exact ⟨hfound, Yields.insert_iff.1 h⟩
    | some bytes => exact absurd (Yields.bind_iff.1 h) fun ⟨_, _, hthrow, _⟩ => Yields.not_throw hthrow
  · rintro ⟨hfound, hinsert⟩
    exact ⟨none, m, Yields.lookup_iff.2 ⟨hfound, rfl⟩, Yields.insert_iff.2 hinsert⟩

private theorem recordWrites_iff {transaction : Identifier} {record : TransactionRecord} {batch : List Write} :
    recordWrites m transaction record = .ok batch ↔
      ∃ o, ((Ledger.storeTransaction transaction record).run.onOverlay .empty).eval m = (.ok (), o) ∧
        o.writes = batch := by
  unfold recordWrites
  rw [Lookup.run_store]
  rcases ((Ledger.storeTransaction transaction record).run.onOverlay .empty).eval m with ⟨_ | _, _⟩ <;> simp

/-- The batch that records a transaction is made only for a new one. -/
theorem of_recordWrites {transaction : Identifier} {record : TransactionRecord} {batch : List Write}
    (h : recordWrites m transaction record = .ok batch) :
    m.find? (transactionKey transaction) = none ∧
      m.writeAll batch = m.insert (transactionKey transaction) record.encode := by
  obtain ⟨o, ho, rfl⟩ := recordWrites_iff.1 h
  obtain ⟨hnew, hinsert⟩ := storeTransaction_iff.1 (Yields.iff_onOverlay.2 ⟨o, ho, rfl⟩)
  exact ⟨hnew, hinsert.symm⟩

theorem recordWrites_of_new {transaction : Identifier} (record : TransactionRecord)
    (h : m.find? (transactionKey transaction) = none) :
    ∃ batch, recordWrites m transaction record = .ok batch ∧
      m.writeAll batch = m.insert (transactionKey transaction) record.encode := by
  obtain ⟨o, ho, hlaid⟩ := Yields.iff_onOverlay.1 (storeTransaction_iff.2 ⟨h, rfl⟩)
  exact ⟨o.writes, recordWrites_iff.2 ⟨o, ho, rfl⟩, hlaid⟩

theorem mapError_eq_ok {ε δ α : Type} {f : ε → δ} {x : Except ε α} {a : α} (h : x.mapError f = .ok a) :
    x = .ok a := by
  cases x with
  | error e => cases h
  | ok b => exact congrArg Except.ok (Except.ok.inj h)

/-- A receipt is made from the bytes of the action and from what was seen of it on the overlay, the batch from the latter. -/
theorem of_stage {receipt : Receipt} {writes : List Write} (h : stage s ctx action = .ok (receipt, writes)) :
    ∃ bytes outcome o, action.encode = .ok bytes ∧ observe s ctx action = .ok (outcome, o) ∧
      receipt = ⟨outcome, charge bytes outcome o⟩ ∧ writes = batch outcome o := by
  obtain ⟨bytes, hbytes, h⟩ := exists_ok_of_bind h
  obtain ⟨⟨outcome, o⟩, hobserve, h⟩ := exists_ok_of_bind h
  cases h
  exact ⟨bytes, outcome, o, mapError_eq_ok hbytes, mapError_eq_ok hobserve, rfl, rfl⟩

/-- What is prepared in memory: the transaction is new, and the state batch is what a successful action writes. -/
theorem of_prepare {signatureUnits fee : UInt64} {p : Prepared}
    (h : prepare (s, m) ctx action signatureUnits fee = .ok p) :
    m.find? (transactionKey ctx.transaction) = none ∧
      (∃ record : TransactionRecord,
        m.writeAll p.recordBatch = m.insert (transactionKey ctx.transaction) record.encode) ∧
      ((∃ reason, p.receipt.outcome = .failure action.computeUnits reason ∧ p.stateBatch = []) ∨
        ∃ y, p.receipt.outcome = .success action.computeUnits y ∧ Yields (action.perform ctx) s y (s.writeAll p.stateBatch)) := by
  unfold prepare at h
  obtain ⟨known, -, h⟩ := exists_ok_of_bind h
  cases known with
  | some record => cases h
  | none =>
    obtain ⟨⟨receipt, stateBatch⟩, hstage, h⟩ := exists_ok_of_bind h
    obtain ⟨recordBatch, hrecord, h⟩ := exists_ok_of_bind h
    cases h
    obtain ⟨bytes, outcome, o, -, hobserve, rfl, rfl⟩ := of_stage hstage
    obtain ⟨hnew, hinsert⟩ := of_recordWrites (mapError_eq_ok hrecord)
    refine ⟨hnew, ⟨_, hinsert⟩, ?_⟩
    obtain ⟨reason, rfl⟩ | ⟨y, rfl, hyields⟩ := of_observe hobserve
    · exact .inl ⟨reason, rfl, rfl⟩
    · exact .inr ⟨y, rfl, hyields⟩

private theorem transaction?_of_new {transaction : Identifier} (hnew : m.find? (transactionKey transaction) = none) :
    (Ledger.transaction? transaction).runOn m = .ok none := by
  rw [LedgerRead.runOn_store]
  exact Yields.readRecord_iff.2 (by simp [hnew, Store.Decodes])

/-- What is prepared for a new transaction follows from the receipt and the batch of its action. -/
theorem prepare_of_stage (units fee : UInt64) {plain : Receipt} {writes : List Write}
    (hnew : m.find? (transactionKey ctx.transaction) = none) (hstage : stage s ctx action = .ok (plain, writes)) :
    ∃ batch, prepare (s, m) ctx action units fee = .ok ⟨plain.withSignature units, writes, batch⟩ ∧
      m.writeAll batch = m.insert (transactionKey ctx.transaction)
        ((plain.withSignature units).record ctx.timestamp fee).encode := by
  obtain ⟨batch, hbatch, hinsert⟩ := recordWrites_of_new ((plain.withSignature units).record ctx.timestamp fee) hnew
  refine ⟨batch, ?_, hinsert⟩
  unfold prepare
  simp only [Journal.metadata, Journal.state, transaction?_of_new hnew, hstage]
  change ((recordWrites m ctx.transaction ((plain.withSignature units).record ctx.timestamp fee)).mapError _ >>= _) = _
  rw [hbatch]
  rfl

theorem prepare_of_stage_error (units fee : UInt64) {e : ExecutionError}
    (hnew : m.find? (transactionKey ctx.transaction) = none) (hstage : stage s ctx action = .error e) :
    prepare (s, m) ctx action units fee = .error e := by
  unfold prepare
  simp only [Journal.metadata, Journal.state, transaction?_of_new hnew, hstage]
  rfl

/-- A new transaction whose action would succeed on the store is prepared. -/
theorem prepare_of_yields (signatureUnits fee : UInt64) (hnew : m.find? (transactionKey ctx.transaction) = none)
    (hbytes : ∃ bytes, action.encode = .ok bytes) (h : Yields (action.perform ctx) s y s') :
    ∃ p, prepare (s, m) ctx action signatureUnits fee = .ok p ∧ p.receipt.outcome = .success action.computeUnits y ∧
      s.writeAll p.stateBatch = s' := by
  obtain ⟨bytes, hbytes⟩ := hbytes
  obtain ⟨o, hobserve, hlaid⟩ := observe_of_yields h
  have hstage : stage s ctx action = .ok (⟨.success action.computeUnits y, charge bytes (.success action.computeUnits y) o⟩, o.writes) := by
    unfold stage
    rw [hbytes, hobserve]
    rfl
  obtain ⟨batch, hprepare, -⟩ := prepare_of_stage signatureUnits fee hnew hstage
  exact ⟨_, hprepare, rfl, hlaid⟩

theorem commit_store (s m : Store) (stateBatch recordBatch : List Write) :
    Journal.commit stateBatch recordBatch (s, m) = .ok () (s.writeAll stateBatch, m.writeAll recordBatch) := by
  simp only [commit_pair, Store.apply_store]

/-- A recorded execution in memory changes nothing, or it records a new transaction and carries out the action as far
as it succeeds. -/
theorem executeRecorded_cases (s m : Store) (ctx : Context) (action : Action) (signatureUnits fee : UInt64) :
    (∃ e, executeRecorded ctx action signatureUnits fee (s, m) = .error e (s, m)) ∨
      ∃ (receipt : Receipt) (record : TransactionRecord) (s' : Store), m.find? (transactionKey ctx.transaction) = none ∧
        executeRecorded ctx action signatureUnits fee (s, m) =
          .ok receipt (s', m.insert (transactionKey ctx.transaction) record.encode) ∧
        ((∃ reason, receipt.outcome = .failure action.computeUnits reason ∧ s' = s) ∨
          ∃ y, receipt.outcome = .success action.computeUnits y ∧ Yields (action.perform ctx) s y s') := by
  rw [executeRecorded_eq]
  cases hp : prepare (s, m) ctx action signatureUnits fee with
  | error e => exact .inl ⟨e, rfl⟩
  | ok p =>
    obtain ⟨hnew, ⟨record, hrecord⟩, houtcome⟩ := of_prepare hp
    refine .inr ⟨p.receipt, record, s.writeAll p.stateBatch, hnew, ?_, ?_⟩
    · simp only [commit_store, hrecord]
    · obtain ⟨reason, hreason, hempty⟩ | hyields := houtcome
      · exact .inl ⟨reason, hreason, by rw [hempty]; rfl⟩
      · exact .inr hyields

/-- A new transaction whose action would succeed on the store does succeed. -/
theorem executeRecorded_of_yields (signatureUnits fee : UInt64)
    (hnew : m.find? (transactionKey ctx.transaction) = none) (hbytes : ∃ bytes, action.encode = .ok bytes)
    (h : Yields (action.perform ctx) s y s') :
    ∃ receipt m', executeRecorded ctx action signatureUnits fee (s, m) = .ok receipt (s', m') ∧
      receipt.outcome = .success action.computeUnits y := by
  obtain ⟨p, hp, houtcome, hstate⟩ := prepare_of_yields signatureUnits fee hnew hbytes h
  refine ⟨p.receipt, m.writeAll p.recordBatch, ?_, houtcome⟩
  rw [executeRecorded_eq, hp]
  simp only [commit_store, hstate]

end InMemory
end Execution

def Identifier.filled (x : UInt8) : Identifier := ⟨⟨List.replicate 32 x, List.length_replicate⟩⟩

def Address.filled (x : UInt8) : Address := ⟨⟨List.replicate 32 x, List.length_replicate⟩⟩

end BridgeLedger
