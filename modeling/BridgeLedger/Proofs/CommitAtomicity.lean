import BridgeLedger.Proofs.RecordedExecution

/-! Recorded executions on stores that may fail. A failed execution leaves a journal that commits both batches at
once as it was. Two separate stores receive one batch each, and when the second one is refused the first one stays. -/
namespace BridgeLedger

/-- A refused batch leaves the store as it was. -/
def AllOrNothing (σ : Type) [Keyspace σ] : Prop :=
  ∀ (writes : List Write) (s s' : σ) (fault : StoreFault), Keyspace.apply writes s = .error fault s' → s' = s

/-- A refused commit leaves both keyspaces as they were. -/
def CommitsTogether (ω σ μ : Type) [Keyspace σ] [Keyspace μ] [Journal ω σ μ] : Prop :=
  ∀ (stateBatch recordBatch : List Write) (j j' : ω) (fault : StoreFault),
    Journal.commit stateBatch recordBatch j = .error fault j' → j' = j

theorem eq_of_atomically {ε σ α : Type} {x : EStateM ε σ α} {s s' : σ} {e : ε} (h : atomically x s = .error e s') :
    s' = s := by
  unfold atomically at h
  cases hx : x s with
  | ok a t =>
    rw [hx] at h
    cases h
  | error e' t =>
    rw [hx] at h
    cases h
    rfl

theorem Database.Tree.allOrNothing : AllOrNothing Database.Tree := fun _ _ _ _ h => eq_of_atomically h

theorem Store.allOrNothing : AllOrNothing Store := by
  intro writes s s' fault h
  rw [Store.apply_store] at h
  cases h

theorem Database.commitsTogether : CommitsTogether Database Database.Tree Database.Tree :=
  fun _ _ _ _ _ h => eq_of_atomically h

namespace Execution

variable {σ μ ω : Type} [Keyspace σ] [Keyspace μ] [Journal ω σ μ]

private theorem error_unchanged (hcommit : CommitsTogether ω σ μ) {ctx : Context} {action : Action}
    {signatureUnits fee : UInt64} {j j' : ω} {e : ExecutionError}
    (h : executeRecorded ctx action signatureUnits fee j = .error e j') : j' = j := by
  rw [executeRecorded_eq] at h
  split at h
  · cases h
    rfl
  · split at h
    · cases h
    · rename_i hfault
      cases h
      exact hcommit _ _ _ _ _ hfault

/-- Two separate stores refuse a commit if the first one refuses its batch, or if it takes it and the second one
refuses. -/
private theorem commit_error_iff (hσ : AllOrNothing σ) (hμ : AllOrNothing μ) {stateBatch recordBatch : List Write}
    {s : σ} {m : μ} {fault : StoreFault} {j : σ × μ} :
    Journal.commit stateBatch recordBatch (s, m) = .error fault j ↔
      (Keyspace.apply stateBatch s = .error fault s ∧ j = (s, m)) ∨
        ∃ s', Keyspace.apply stateBatch s = .ok () s' ∧ Keyspace.apply recordBatch m = .error fault m ∧
          j = (s', m) := by
  rw [commit_pair]
  cases hs : Keyspace.apply stateBatch s with
  | error fault' t =>
    obtain rfl := hσ _ _ _ _ hs
    constructor
    · intro h
      cases h
      exact .inl ⟨rfl, rfl⟩
    · rintro (⟨h, rfl⟩ | ⟨s', h, -⟩) <;> cases h
      rfl
  | ok u t =>
    cases hm : Keyspace.apply recordBatch m with
    | error fault' m' =>
      obtain rfl := hμ _ _ _ _ hm
      constructor
      · intro h
        cases h
        exact .inr ⟨t, rfl, rfl, rfl⟩
      · rintro (⟨h, -⟩ | ⟨s', h, hfault, rfl⟩) <;> cases h
        cases hfault
        rfl
    | ok u' m' =>
      constructor
      · intro h
        cases h
      · rintro (⟨h, -⟩ | ⟨s', -, hfault, -⟩)
        · cases h
        · cases hfault

/-- A failed execution changes two separate stores exactly if the state batch went through and the record of the
transaction was refused; the state then keeps the batch although nothing is on record. -/
theorem error_changed_iff (hσ : AllOrNothing σ) (hμ : AllOrNothing μ) {ctx : Context} {action : Action}
    {signatureUnits fee : UInt64} {s : σ} {m : μ} {e : ExecutionError} {j : σ × μ} :
    (executeRecorded ctx action signatureUnits fee (s, m) = .error e j ∧ j ≠ (s, m)) ↔
      ∃ p s' fault, prepare (s, m) ctx action signatureUnits fee = .ok p ∧
        Keyspace.apply p.stateBatch s = .ok () s' ∧ s' ≠ s ∧ Keyspace.apply p.recordBatch m = .error fault m ∧
        e = .store fault ∧ j = (s', m) := by
  constructor
  · rintro ⟨h, hne⟩
    rw [executeRecorded_eq] at h
    split at h
    · cases h
      exact absurd rfl hne
    · rename_i p hp
      split at h
      · cases h
      · rename_i hfault
        cases h
        obtain ⟨-, rfl⟩ | ⟨s', hs, hm, rfl⟩ := (commit_error_iff hσ hμ).1 hfault
        · exact absurd rfl hne
        · exact ⟨p, s', _, hp, hs, fun heq => hne (heq ▸ rfl), hm, rfl, rfl⟩
  · rintro ⟨p, s', fault, hp, hs, hne, hm, rfl, rfl⟩
    have hcommit := (commit_error_iff hσ hμ).2 (.inr ⟨s', hs, hm, rfl⟩)
    rw [executeRecorded_eq, hp]
    dsimp only
    rw [hcommit]
    exact ⟨rfl, fun heq => hne (Prod.mk.inj heq).1⟩

/-- What a failed recorded execution leaves behind, whatever is refused on the way. A journal that commits both batches
together is as it was, and so is a database. Two separate stores are as they were unless the state batch went through,
changed something, and the record of the transaction was refused. -/
theorem failed_execution_leaves (ctx : Context) (action : Action) (signatureUnits fee : UInt64) :
    (∀ (ω σ μ : Type) [Keyspace σ] [Keyspace μ] [Journal ω σ μ], CommitsTogether ω σ μ →
      ∀ (j j' : ω) (e : ExecutionError), executeRecorded ctx action signatureUnits fee j = .error e j' → j' = j) ∧
    (∀ (d d' : Database) (e : ExecutionError),
      executeRecorded ctx action signatureUnits fee d = .error e d' → d' = d) ∧
    ∀ (σ μ : Type) [Keyspace σ] [Keyspace μ], AllOrNothing σ → AllOrNothing μ →
      ∀ (s : σ) (m : μ) (e : ExecutionError) (j : σ × μ),
        (executeRecorded ctx action signatureUnits fee (s, m) = .error e j ∧ j ≠ (s, m)) ↔
          ∃ p s' fault, prepare (s, m) ctx action signatureUnits fee = .ok p ∧
            Keyspace.apply p.stateBatch s = .ok () s' ∧ s' ≠ s ∧ Keyspace.apply p.recordBatch m = .error fault m ∧
            e = .store fault ∧ j = (s', m) := by
  refine ⟨?_, ?_, ?_⟩
  · intro ω σ μ _ _ _ hcommit j j' e h
    exact error_unchanged hcommit h
  · intro d d' e h
    exact error_unchanged Database.commitsTogether h
  · intro σ μ _ _ hσ hμ s m e j
    exact error_changed_iff hσ hμ

namespace RefusedRecord

def payment : Action := .payment ⟨.filled 2, 10, []⟩

def context : Context := ⟨.filled 1, .filled 7, 0, .filled 9, 1, false⟩

def state (units : UInt64) : Store := Store.replace .empty (.balance (.filled 1) .empty) (Cell.ofAmount units)

def accepting : Database.Tree := .ofStore .empty

def refusing : Database.Tree := ⟨{ FaultyStore.ofStore .empty with unwritable := [transactionKey (.filled 7)] }⟩

def database : Database := ⟨.ofStore (state 100), refusing⟩

/-- The database refuses the commit, and stays as it is. Two separate stores do not. -/
theorem failed_payment_leaves :
    (∃ j, executeRecorded context payment 0 0 database = .error (.store .io) j ∧ j = database) ∧
    ∃ j, executeRecorded context payment 0 0 (state 100, refusing) = .error (.store .io) j ∧
      j ≠ (state 100, refusing) := by
  obtain ⟨htogether, -, happart⟩ := failed_execution_leaves context payment 0 0
  constructor
  · have hrefused : ∃ j, executeRecorded context payment 0 0 database = .error (.store .io) j := ⟨_, rfl⟩
    obtain ⟨j, hj⟩ := hrefused
    exact ⟨j, hj, htogether Database _ _ Database.commitsTogether _ _ _ hj⟩
  · have hiff := happart Store Database.Tree Store.allOrNothing Database.Tree.allOrNothing (state 100) refusing
      (.store .io)
    exact ⟨_, (hiff _).2 ⟨_, _, .io, rfl, rfl, by decide +kernel, rfl, rfl, rfl⟩⟩

/-- The execution fails and yet the payment is made. Executed again once the store works, it is made again. -/
theorem pays_twice : ∃ (s₁ s₂ : Store) (m : Database.Tree) (receipt : Receipt),
    executeRecorded context payment 0 0 (state 100, refusing) = .error (.store .io) (s₁, refusing) ∧
    executeRecorded context payment 0 0 (s₁, accepting) = .ok receipt (s₂, m) ∧
    (state 100).amount (.balance (.filled 2) .empty) = 0 ∧
    s₁.amount (.balance (.filled 2) .empty) = 10 ∧ s₂.amount (.balance (.filled 2) .empty) = 20 := by
  refine ⟨_, _, _, _, rfl, rfl, ?_, ?_, ?_⟩ <;> decide +kernel

end RefusedRecord
end Execution
end BridgeLedger
