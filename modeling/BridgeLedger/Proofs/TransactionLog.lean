import BridgeLedger.Proofs.CallHistories
import BridgeLedger.Proofs.SupplyConservation
import Mathlib.Algebra.Group.Nat.Defs

/-! The log of recorded transactions. A transaction is answered once; its record, and the message that it emitted, stay
as they are from then on. -/
namespace BridgeLedger

open Store

theorem transaction?_of_found {m : Store} {transaction : Identifier} {bytes : Octets} {record : TransactionRecord}
    (hfound : m.find? (transactionKey transaction) = some bytes)
    (hdecode : TransactionRecord.decode bytes = .ok record) :
    (Ledger.transaction? transaction).runOn m = .ok (some record) := by
  rw [LedgerRead.runOn_store]
  refine Yields.readRecord_iff.2 ⟨fun b hb => ⟨record, ?_⟩, decoded_eq_some.2 ⟨bytes, hfound, hdecode⟩⟩
  cases hfound.symm.trans hb
  exact hdecode

namespace Execution

variable {s s' m : Store} {ctx : Context} {action : Action} {units fee : UInt64}

/-- A transaction on record is not executed again. -/
theorem executeRecorded_of_known {bytes : Octets} {record : TransactionRecord}
    (hfound : m.find? (transactionKey ctx.transaction) = some bytes)
    (hdecode : TransactionRecord.decode bytes = .ok record) :
    executeRecorded ctx action units fee (s, m) =
      .error (.ledger (.duplicate (transactionKey ctx.transaction))) (s, m) := by
  rw [executeRecorded_eq]
  unfold prepare
  simp only [Journal.metadata, transaction?_of_found hfound hdecode]
  rfl

/-- A new transaction is executed, and its record is added to the metadata if there is a receipt. -/
theorem executeRecorded_of_new (hnew : m.find? (transactionKey ctx.transaction) = none) :
    executeRecorded ctx action units fee (s, m) = match execute ctx action s with
      | .error e _ => .error e (s, m)
      | .ok plain s' => .ok (plain.withSignature units)
          (s', m.insert (transactionKey ctx.transaction)
            ((plain.withSignature units).record ctx.timestamp fee).encode) := by
  rw [executeRecorded_eq, execute_eq]
  cases hstage : stage s ctx action with
  | error e => rw [prepare_of_stage_error units fee hnew hstage]
  | ok staged =>
    obtain ⟨plain, writes⟩ := staged
    obtain ⟨batch, hprepare, hinsert⟩ := prepare_of_stage units fee hnew hstage
    rw [hprepare]
    simp only [commit_store, hinsert]

theorem compute_of_execute {receipt : Receipt} (h : execute ctx action s = .ok receipt s') :
    receipt.resources.compute = action.computeUnits := by
  obtain ⟨writes, hstage, -⟩ := of_execute h
  obtain ⟨bytes, outcome, o, -, hobserve, rfl, -⟩ := of_stage hstage
  exact units_of_observe hobserve

end Execution

/-- Only its own message is posted under a transaction. -/
theorem Action.eq_of_touches_outgoing {action : Action} {ctx : Context} {transaction : Identifier}
    (h : action.Touches ctx (.outgoing transaction)) : transaction = ctx.transaction := by
  cases action with
  | exportAsset a => simpa [Touches, StateKey.IsBalance] using h
  | _ => simp [Touches, StateKey.IsBalance] at h

def Store.Logged (m : Store) : Prop :=
  ∀ transaction, Decodes TransactionRecord.decode (m.find? (transactionKey transaction))

theorem Store.Logged.empty : Logged .empty := fun _ _ h => nomatch h

/-- A later ledger holds the same record of a transaction, and the same message of it. -/
structure Retains (transaction : Identifier) (ledger later : Store × Store) : Prop where
  record : later.2.find? (transactionKey transaction) = ledger.2.find? (transactionKey transaction)
  message : later.1.stored (.outgoing transaction) = ledger.1.stored (.outgoing transaction)

theorem Retains.trans {transaction : Identifier} {ledger between later : Store × Store}
    (h : Retains transaction ledger between) (h' : Retains transaction between later) :
    Retains transaction ledger later := ⟨h'.record.trans h.record, h'.message.trans h.message⟩

namespace Call

variable {c : Call} {ledger start : Store × Store} {calls : List Call} {transaction : Identifier}

theorem logged_endState (hrecorded : c.recording.isSome) (h : ledger.2.Logged) : (endState c.run ledger).2.Logged := by
  obtain ⟨-, hsame⟩ | ⟨s', record, -, hend, -⟩ := endState_recorded hrecorded ledger
  · rwa [hsame]
  · rw [hend]
    intro transaction bytes hbytes
    rw [KeyMap.find?_insert] at hbytes
    split at hbytes
    · cases hbytes
      exact ⟨record, TransactionRecord.decode_encode record⟩
    · exact h transaction bytes hbytes

/-- A recorded call leaves alone what belongs to a transaction on record. -/
theorem retains_endState (hrecorded : c.recording.isSome)
    (hknown : ledger.2.find? (transactionKey transaction) ≠ none) :
    Retains transaction ledger (endState c.run ledger) := by
  obtain ⟨-, hsame⟩ | ⟨s', record, hnew, hend, hends⟩ := endState_recorded hrecorded ledger
  · rw [hsame]
    exact ⟨rfl, rfl⟩
  · have hother : transaction ≠ c.context.transaction := by
      rintro rfl
      exact hknown hnew
    rw [hend]
    refine ⟨?_, ?_⟩
    · rw [KeyMap.find?_insert, if_neg fun h => hother (transactionKey_injective h)]
    · obtain ⟨-, rfl⟩ | ⟨-, y, hyields⟩ := hends
      · rfl
      · exact Action.frame hyields _ fun htouches => hother (Action.eq_of_touches_outgoing htouches)

/-- What belongs to a transaction on record lasts through a history. -/
theorem retains_runAll (hrecorded : ∀ c ∈ calls, c.recording.isSome) {i j : Nat} (hij : i ≤ j)
    (hknown : (runAll start (calls.take i)).2.find? (transactionKey transaction) ≠ none) :
    Retains transaction (runAll start (calls.take i)) (runAll start (calls.take j)) := by
  refine runAll_persists (p := Retains transaction (runAll start (calls.take i))) hij ⟨rfl, rfl⟩
    fun k c _ _ hc hk => hk.trans ?_
  exact retains_endState (hrecorded c (List.mem_of_getElem? hc)) (by rwa [hk.record])

theorem logged_runAll (hrecorded : ∀ c ∈ calls, c.recording.isSome) (hstart : start.2.Logged) (i : Nat) :
    (runAll start (calls.take i)).2.Logged :=
  runAll_persists (p := fun ledger => ledger.2.Logged) (Nat.zero_le i) hstart fun _ c _ _ hc hk =>
    logged_endState (hrecorded c (List.mem_of_getElem? hc)) hk

/-- What a recorded call does that answers a receipt: it executes a new transaction and puts it on record. -/
structure Settles (c : Call) (units fee : UInt64) (before : Store × Store) (receipt : Receipt)
    (after : Store × Store) : Prop where
  fresh : before.2.find? (transactionKey c.context.transaction) = none
  /-- the state is what an execution without a record leaves -/
  executed : ∃ plain, Execution.execute c.context c.action before.1 = .ok plain after.1 ∧
    receipt.outcome = plain.outcome ∧ receipt.resources = { plain.resources with compute := receipt.resources.compute }
  unchanged : receipt.outcome.succeeded = false → after.1 = before.1
  compute : receipt.resources.compute.toNat = min (c.action.computeUnits.toNat + units.toNat) (2 ^ 64 - 1)
  recorded : after.2 = before.2.insert (transactionKey c.context.transaction)
    (TransactionRecord.encode ⟨c.context.timestamp, receipt.outcome.succeeded, receipt.resources, fee⟩)

variable {units fee : UInt64} {receipt : Receipt} {after : Store × Store}

theorem settles_of_run (hrecording : c.recording = some (units, fee)) (hrun : c.run ledger = .ok receipt after) :
    c.Settles units fee ledger receipt after := by
  have hunchanged : receipt.outcome.succeeded = false → after.1 = ledger.1 := fun hfailed => by
    have hend : endState c.run ledger = after := by rw [endState, hrun]
    rw [← hend]
    exact unchanged_of_not_succeeded (by rw [Execution.succeeded, hrun]; exact hfailed)
  rw [run_of_recording hrecording] at hrun
  obtain ⟨e, herror⟩ | ⟨_, _, _, hnew, -, -⟩ :=
    Execution.executeRecorded_cases ledger.1 ledger.2 c.context c.action units fee
  · cases hrun.symm.trans herror
  · have hanswer := hrun.symm.trans (Execution.executeRecorded_of_new (s := ledger.1) hnew)
    split at hanswer
    · cases hanswer
    · rename_i plain s' hexecute
      cases hanswer
      refine ⟨hnew, ⟨plain, hexecute, rfl, rfl⟩, hunchanged, ?_, rfl⟩
      rw [← Execution.compute_of_execute hexecute]
      exact Amount.toNat_addSaturating ..

theorem Settles.found (h : c.Settles units fee ledger receipt after) :
    after.2.find? (transactionKey c.context.transaction) =
      some (TransactionRecord.encode ⟨c.context.timestamp, receipt.outcome.succeeded, receipt.resources, fee⟩) := by
  rw [h.recorded, KeyMap.find?_insert, if_pos rfl]

theorem duplicate_of_known (hrecorded : c.recording.isSome) (hlogged : ledger.2.Logged)
    (hknown : ledger.2.contains (transactionKey c.context.transaction) = true) :
    c.run ledger = .error (.ledger (.duplicate (transactionKey c.context.transaction))) ledger := by
  obtain ⟨⟨units, fee⟩, hrecording⟩ := Option.isSome_iff_exists.1 hrecorded
  obtain ⟨bytes, hfound⟩ := Option.isSome_iff_exists.1 hknown
  obtain ⟨record, hdecode⟩ := hlogged _ bytes hfound
  rw [run_of_recording hrecording]
  exact Execution.executeRecorded_of_known hfound hdecode

theorem exists_receipt_of_new {plain : Receipt} {s' : Store} (hrecorded : c.recording.isSome)
    (hnew : ledger.2.contains (transactionKey c.context.transaction) = false)
    (hexecute : Execution.execute c.context c.action ledger.1 = .ok plain s') :
    ∃ receipt after, c.run ledger = .ok receipt after := by
  obtain ⟨⟨units, fee⟩, hrecording⟩ := Option.isSome_iff_exists.1 hrecorded
  have hanswer : Execution.executeRecorded c.context c.action units fee (ledger.1, ledger.2) = _ :=
    Execution.executeRecorded_of_new (Option.isNone_iff_eq_none.1 (Option.isSome_eq_false_iff.1 hnew))
  rw [hexecute] at hanswer
  rw [run_of_recording hrecording]
  exact ⟨_, _, hanswer⟩

/-- A successful export leaves its message under the transaction. -/
theorem message_of_run {a : Action.Export} (hrun : c.run ledger = .ok receipt after)
    (hexport : c.action = .exportAsset a) (hsucceeded : receipt.outcome.succeeded = true) :
    ∃ m bytes, receipt.outcome.message? = some m ∧ m.encode = .ok bytes ∧
      after.1.stored (.outgoing c.context.transaction) = some bytes := by
  cases houtcome : receipt.outcome with
  | failure reason =>
    rw [houtcome] at hsucceeded
    cases hsucceeded
  | success y =>
    have hyields := yields_of_run hrun houtcome
    rw [hexport] at hyields
    obtain ⟨-, -, -, -, record, total, asset, t, m, bytes, -, -, -, -, -, -, hbytes, hafter, rfl⟩ :=
      Action.Export.of_yields hyields
    exact ⟨m, bytes, rfl, hbytes, by rw [hafter, stored_replace_self]⟩

def AnswersAt (start : Store × Store) (calls : List Call) (transaction : Identifier) (i : Nat) : Prop :=
  ∃ c receipt after, calls[i]? = some c ∧ c.context.transaction = transaction ∧
    c.run (runAll start (calls.take i)) = .ok receipt after

/-- After a receipt its transaction is on record. -/
theorem AnswersAt.not_later (hrecorded : ∀ c ∈ calls, c.recording.isSome) {i j : Nat}
    (hi : AnswersAt start calls transaction i) (hj : AnswersAt start calls transaction j) : ¬i < j := by
  intro hij
  obtain ⟨c, receipt, after, hc, rfl, hrun⟩ := hi
  obtain ⟨c', receipt', after', hc', htransaction, hrun'⟩ := hj
  obtain ⟨⟨units, fee⟩, hrecording⟩ := Option.isSome_iff_exists.1 (hrecorded c (List.mem_of_getElem? hc))
  obtain ⟨⟨units', fee'⟩, hrecording'⟩ := Option.isSome_iff_exists.1 (hrecorded c' (List.mem_of_getElem? hc'))
  have hfound := (settles_of_run hrecording hrun).found
  rw [← runAll_of_run hc hrun] at hfound
  have hretains := retains_runAll hrecorded (Nat.succ_le_of_lt hij) (by rw [hfound]; nofun)
  have hfresh := (settles_of_run hrecording' hrun').fresh
  rw [htransaction, hretains.record, hfound] at hfresh
  cases hfresh

/-- In a history of recorded calls that starts with empty metadata a transaction is answered at most once. A call of a
transaction on record is refused as a duplicate and changes nothing; a call of a new one answers a receipt if the
execution without a record does. Such a call does to the state what that execution does, and puts the receipt on record;
from then on the record and the message of the transaction stay the same. -/
theorem transaction_recorded_once (s : Store) (calls : List Call) (hrecorded : ∀ c ∈ calls, c.recording.isSome) :
    (∀ transaction i j, AnswersAt (s, .empty) calls transaction i → AnswersAt (s, .empty) calls transaction j → i = j) ∧
    (∀ i c, calls[i]? = some c →
      ((runAll (s, .empty) (calls.take i)).2.contains (transactionKey c.context.transaction) = true →
        c.run (runAll (s, .empty) (calls.take i)) =
          .error (.ledger (.duplicate (transactionKey c.context.transaction))) (runAll (s, .empty) (calls.take i))) ∧
      ((runAll (s, .empty) (calls.take i)).2.contains (transactionKey c.context.transaction) = false →
        ∀ plain s', Execution.execute c.context c.action (runAll (s, .empty) (calls.take i)).1 = .ok plain s' →
          ∃ receipt after, c.run (runAll (s, .empty) (calls.take i)) = .ok receipt after)) ∧
    ∀ i c units fee receipt after, calls[i]? = some c → c.recording = some (units, fee) →
      c.run (runAll (s, .empty) (calls.take i)) = .ok receipt after →
      c.Settles units fee (runAll (s, .empty) (calls.take i)) receipt after ∧
      (∀ a, c.action = .exportAsset a → receipt.outcome.succeeded = true →
        ∃ m bytes, receipt.outcome.message? = some m ∧ m.encode = .ok bytes ∧
          after.1.stored (.outgoing c.context.transaction) = some bytes) ∧
      ∀ j, i < j → Retains c.context.transaction after (runAll (s, .empty) (calls.take j)) ∧
        (Ledger.transaction? c.context.transaction).runOn (runAll (s, .empty) (calls.take j)).2 =
          .ok (some ⟨c.context.timestamp, receipt.outcome.succeeded, receipt.resources, fee⟩) := by
  refine ⟨fun transaction i j hi hj => ?_, fun i c hc => ⟨?_, ?_⟩, ?_⟩
  · have hij := hi.not_later hrecorded hj
    have hji := hj.not_later hrecorded hi
    omega
  · have hlogged : (runAll (s, .empty) (calls.take i)).2.Logged := logged_runAll hrecorded .empty i
    exact duplicate_of_known (hrecorded c (List.mem_of_getElem? hc)) hlogged
  · exact fun hnew plain s' => exists_receipt_of_new (hrecorded c (List.mem_of_getElem? hc)) hnew
  · intro i c units fee receipt after hc hrecording hrun
    have hsettles := settles_of_run hrecording hrun
    refine ⟨hsettles, fun a => message_of_run hrun, fun j hij => ?_⟩
    have hfound := hsettles.found
    rw [← runAll_of_run hc hrun] at hfound ⊢
    have hretains := retains_runAll hrecorded (Nat.succ_le_of_lt hij) (by rw [hfound]; nofun)
    exact ⟨hretains, transaction?_of_found (hretains.record.trans hfound) (TransactionRecord.decode_encode _)⟩

end Call

namespace LentUnits

def recordedLending : Call := ⟨context, lending, some (18446744073709551615, 2)⟩

def reused : Call := ⟨{ context with timestamp := 5 }, .payment ⟨.filled 2, 1, []⟩, some (0, 0)⟩

def log : List Call := [recordedLending, reused, { reused with context.transaction := .filled 13 }]

theorem lending_on_record : (∀ c ∈ log, c.recording.isSome) ∧
    reused.run (Call.runAll (genesis.opening, .empty) (log.take 1)) =
      .error (.ledger (.duplicate (transactionKey (.filled 7)))) (Call.runAll (genesis.opening, .empty) (log.take 1)) ∧
    ∃ receipt after, recordedLending.run (genesis.opening, .empty) = .ok receipt after ∧
      receipt.resources.compute.toNat = 2 ^ 64 - 1 ∧ ∃ m bytes, receipt.outcome.message? = some m ∧
        m.encode = .ok bytes ∧
        (Call.runAll (genesis.opening, .empty) (log.take 3)).1.stored (.outgoing (.filled 7)) = some bytes := by
  have hrecorded : ∀ c ∈ log, c.recording.isSome := by decide
  obtain ⟨-, hanswers, hsettles⟩ := Call.transaction_recorded_once genesis.opening log hrecorded
  have hsucceeded : Execution.succeeded recordedLending.run (genesis.opening, .empty) = true := by decide +kernel
  obtain ⟨receipt, after, hrun, hsuccess⟩ := Execution.succeeded_iff.1 hsucceeded
  obtain ⟨hsettled, hmessage, hlater⟩ := hsettles 0 recordedLending _ _ receipt after rfl rfl hrun
  obtain ⟨m, bytes, hm, hbytes, hposted⟩ := hmessage _ rfl hsuccess
  refine ⟨hrecorded, (hanswers 1 reused rfl).1 (by decide +kernel), receipt, after, hrun, ?_, m, bytes, hm, hbytes, ?_⟩
  · rw [hsettled.compute]
    decide
  · exact (hlater 3 (by decide)).1.message.trans hposted

end LentUnits
end BridgeLedger
