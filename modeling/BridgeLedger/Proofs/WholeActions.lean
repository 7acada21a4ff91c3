import BridgeLedger.Proofs.DirectExecution
import BridgeLedger.Proofs.WireLengths

/-! An action takes effect as a whole or not at all, also when it runs on the state itself: whatever stops it finds the
store as it was. So an execution that stages the writes of the action and applies them in the end does what the action
does by itself. -/
namespace BridgeLedger

open Store Yields

variable {α β ε δ : Type}

/-- Carried out on `s`, the body leaves the store as it was if it halts. -/
def Whole (x : ExceptT ε Script α) (s : Store) : Prop := ∀ e, Halts x s e → (x.run.exec s).2 = s

namespace Whole

variable {s : Store}

protected theorem pure {a : α} : Whole (pure a : ExceptT ε Script α) s := fun _ _ => rfl

protected theorem throw {e : ε} : Whole (throw e : ExceptT ε Script α) s := fun _ _ => rfl

/-- A body that does not halt leaves nothing half done. -/
theorem of_not_halts {x : ExceptT ε Script α} (h : OnlyHalts (fun _ => False) x s) : Whole x s :=
  fun e he => (h e he).elim

theorem staged {x : ExceptT ε Script α} : Whole (Script.staged x) s := by
  intro e h
  unfold Halts at h
  rw [Script.exec_staged] at h ⊢
  generalize x.run.exec s = result at h ⊢
  obtain ⟨_ | a, t⟩ := result
  · rfl
  · cases h

theorem adapt {f : ε → δ} {x : ExceptT ε Script α} (h : Whole x s) : Whole (ExceptT.adapt f x) s := by
  intro d hd
  obtain ⟨e, he, -⟩ := Halts.adapt_iff.1 hd
  have hx : ((ExceptT.adapt f x).run.exec s).2 = (x.run.exec s).2 := by
    change ((Except.mapError f <$> x.run).exec s).2 = _
    rw [map_eq_pure_bind, Script.exec_bind]
    rfl
  rw [hx, h e he]

/-- Two bodies one after the other, if the second one goes back behind the first when it halts. -/
theorem bind {x : ExceptT ε Script α} {f : α → ExceptT ε Script β} (hx : Whole x s)
    (hf : ∀ a t, Yields x s a t → ∀ e, Halts (f a) t e → ((f a).run.exec t).2 = s) : Whole (x >>= f) s := by
  intro e h
  obtain hhalts | ⟨a, t, hy, hhalts⟩ := Halts.bind_iff.1 h
  · have hback := hx e hhalts
    rw [Script.exec_run_bind]
    unfold Halts at hhalts
    generalize x.run.exec s = result at hhalts hback ⊢
    obtain ⟨_ | a, t⟩ := result
    · exact hback
    · cases hhalts
  · have hback := hf a t hy e hhalts
    unfold Yields at hy
    rwa [Script.exec_run_bind, hy]

/-- After a body that changes nothing. -/
theorem after_look {x : ExceptT ε Script α} {f : α → ExceptT ε Script β} (hx : Whole x s)
    (hf : ∀ a t, Yields x s a t → t = s ∧ Whole (f a) s) : Whole (x >>= f) s := by
  refine .bind hx fun a t hy e he => ?_
  obtain ⟨rfl, hwhole⟩ := hf a t hy
  exact hwhole e he

/-- Before a body that does not halt any more. -/
theorem before {x : ExceptT ε Script α} {f : α → ExceptT ε Script β} (hx : Whole x s)
    (hf : ∀ a t, Yields x s a t → OnlyHalts (fun _ => False) (f a) t) : Whole (x >>= f) s :=
  .bind hx fun a t hy e he => (hf a t hy e he).elim

/-- The last step is followed by the answer only. -/
theorem last {x : ExceptT ε Script α} {f : α → β} (hx : Whole x s) : Whole (x >>= fun a => pure (f a)) s :=
  .before hx fun _ _ _ => .pure

theorem read {x : ExceptT ε Lookup α} : Whole (liftM x : ExceptT ε Script α) s := by
  intro e _
  change ((Lookup.toScript x.run).exec s).2 = s
  rw [Script.exec_toScript]

theorem read_bind {x : ExceptT ε Lookup α} {f : α → ExceptT ε Script β}
    (hf : ∀ a, x.run.eval s = .ok a → Whole (f a) s) : Whole ((liftM x : ExceptT ε Script α) >>= f) s := by
  refine .after_look .read fun a t hy => ?_
  obtain ⟨ha, rfl⟩ := read_iff.1 hy
  exact ⟨rfl, hf a ha⟩

section Ledger

variable {key : Octets} {kind : CellKind} {asset : Identifier} {owner : Address} {n : UInt64} {create : Bool}

theorem add : Whole (Cell.add key kind asset n create) s := by
  refine .read_bind fun old _ => ?_
  split
  · dsimp only
    split
    · exact of_not_halts fun _ h => Halts.not_write h
    · exact .throw
  · exact .pure

theorem writeRecord {bytes : Except WireError Octets} : Whole (Ledger.writeRecord key bytes) s := by
  unfold Ledger.writeRecord
  split
  · exact of_not_halts fun _ h => Halts.not_insert h
  · exact .throw

end Ledger

section Action

variable {condition : Bool} {reason : Refusal}

theorem ledger {x : LedgerScript α} (h : Whole x s) : Whole (liftM x : ActionScript α) s := h.adapt

theorem check_bind {f : Unit → ActionScript β} (hf : condition = false → Whole (f ()) s) :
    Whole (refuseIf condition reason >>= f) s := by
  cases condition with
  | true => exact .after_look .throw fun _ _ hy => absurd hy not_refuse
  | false => exact hf rfl

theorem lookup_bind {x : LedgerRead α} {f : α → ActionScript β} (hf : ∀ a, x.run.eval s = .ok a → Whole (f a) s) :
    Whole ((liftM x : ActionScript α) >>= f) s := by
  refine .after_look (.ledger .read) fun a t hy => ?_
  obtain ⟨ha, rfl⟩ := ledger_read_iff.1 hy
  exact ⟨rfl, hf a ha⟩

end Action

end Whole

namespace Action

variable {s : Store} {ctx : Context}

theorem Payment.whole (a : Payment) : Whole (a.execute ctx) s :=
  .check_bind fun _ => .check_bind fun _ => .last .staged

/-- A record that was read can be written again, so nothing can stop an action once it has credited the recipient. -/
theorem Mint.whole (a : Mint) : Whole (a.execute ctx) s := by
  refine .check_bind fun _ => .check_bind fun _ => .lookup_bind fun record? hread => ?_
  obtain ⟨-, hrecord⟩ := asset?_iff.1 hread
  cases record? with
  | none => exact .throw
  | some record =>
    refine .check_bind fun _ => .check_bind fun _ => ?_
    split
    · rename_i supply _
      refine .check_bind fun _ => .before (.ledger .add) fun _ t _ => ?_
      obtain ⟨bytes, hbytes⟩ : ∃ bytes, AssetRecord.encode { record with supply } = .ok bytes := by
        obtain ⟨stored, -, hdecode⟩ := decoded_eq_some.1 hrecord
        obtain ⟨hsymbol, hmetadata⟩ := AssetRecord.lengths_of_decode hdecode
        exact AssetRecord.encode_isOk hsymbol hmetadata
      exact .bind (.operation (a := ()) (setAsset_iff.2 ⟨bytes, hbytes, rfl⟩)) fun _ _ _ => .pure
    · exact .throw

theorem CreateAsset.whole (a : CreateAsset) : Whole (a.execute ctx) s :=
  .check_bind fun _ => .check_bind fun _ => .check_bind fun _ => .check_bind fun _ => .check_bind fun _ =>
    .check_bind fun _ => .last (.ledger .writeRecord)

theorem CreateNft.whole (a : CreateNft) : Whole (a.execute ctx) s :=
  .check_bind fun _ => .check_bind fun _ => .check_bind fun _ => .check_bind fun _ => .last (.ledger .writeRecord)

theorem ReadNft.whole (a : ReadNft) : Whole a.execute s := by
  refine .check_bind fun _ => .lookup_bind fun record? _ => ?_
  cases record? with
  | none => exact .throw
  | some record => exact .pure

theorem TransferNft.whole (a : TransferNft) : Whole (a.execute ctx) s := by
  refine .check_bind fun _ => .lookup_bind fun record? _ => ?_
  cases record? with
  | none => exact .throw
  | some record => exact .check_bind fun _ => .last (.ledger .writeRecord)

theorem Import.whole (a : Import) : Whole (a.execute ctx) s := by
  unfold execute
  refine .check_bind fun _ => .check_bind fun _ => .check_bind fun _ => .check_bind fun _ => ?_
  cases a.message.identifier with
  | error e => exact .after_look .throw fun _ _ hy => absurd hy not_abort
  | ok id =>
    refine .lookup_bind fun imported _ => .check_bind fun _ => ?_
    split
    · exact .last .staged
    · exact .throw

theorem Export.whole (a : Export) : Whole (a.execute ctx) s := by
  unfold execute
  refine .check_bind fun _ => .check_bind fun _ => .check_bind fun _ => .check_bind fun _ => ?_
  split
  · refine .lookup_bind fun record? _ => ?_
    cases record? with
    | none => exact .throw
    | some record => exact .last .staged
  · exact .throw

/-- An action that halts leaves the store as it was. -/
theorem whole (action : Action) (ctx : Context) (s : Store) : Whole (action.perform ctx) s := by
  cases action with
  | payment a => exact Payment.whole a
  | mint a => exact Mint.whole a
  | createAsset a => exact CreateAsset.whole a
  | createNft a => exact CreateNft.whole a
  | readNft a => exact ReadNft.whole a
  | importAsset a => exact Import.whole a
  | exportAsset a => exact Export.whole a
  | transferNft a => exact TransferNft.whole a

end Action

theorem LedgerScript.runOn_store (x : LedgerScript α) (s : Store) :
    x.runOn s = match x.run.exec s with
      | (.ok a, s') => .ok a s'
      | (.error e, s') => .error e s' := by
  unfold runOn
  simp only [bind, EStateM.bind, withError, Script.run_store]
  rcases x.run.exec s with ⟨_ | _, _⟩ <;> rfl

namespace Action

variable {action : Action} {s s' : Store} {ctx : Context}

theorem runOn_of_aborted {e : LedgerError} (h : Halts (action.perform ctx) s (.aborted e)) :
    (action.script ctx).runOn s = .error e s := by
  have hback := action.whole ctx s _ h
  unfold Halts at h
  rw [LedgerScript.runOn_store, script_eq, Outcome.ofScript, ExceptT.run_mk, Script.exec_bind, h, hback]
  rfl

theorem runOn_of_refused {reason : Refusal} (h : Halts (action.perform ctx) s (.refused reason)) :
    (action.script ctx).runOn s = .ok (.failure action.computeUnits reason) s := by
  have hback := action.whole ctx s _ h
  unfold Halts at h
  rw [LedgerScript.runOn_store, script_eq, Outcome.ofScript, ExceptT.run_mk, Script.exec_bind, h, hback]
  rfl

theorem runOn_of_yields {y : Yield} (h : Yields (action.perform ctx) s y s') :
    (action.script ctx).runOn s = .ok (.success action.computeUnits y) s' := by
  unfold Yields at h
  rw [LedgerScript.runOn_store, script_eq, Outcome.ofScript, ExceptT.run_mk, Script.exec_bind, h]
  rfl

/-- On the state itself an action takes effect, or it answers why not and leaves the state as it is. -/
theorem runOn_cases (action : Action) (ctx : Context) (s : Store) :
    (∃ y s', Yields (action.perform ctx) s y s' ∧ (action.script ctx).runOn s = .ok (.success action.computeUnits y) s') ∨
      (∃ reason, (action.script ctx).runOn s = .ok (.failure action.computeUnits reason) s) ∨
        ∃ e, (action.script ctx).runOn s = .error e s := by
  cases h : (action.perform ctx).run.exec s with
  | mk result t =>
    cases result with
    | ok y => exact .inl ⟨y, t, h, runOn_of_yields h⟩
    | error halt =>
      have hhalts : Halts (action.perform ctx) s halt := congrArg Prod.fst h
      cases halt with
      | refused reason => exact .inr (.inl ⟨reason, runOn_of_refused hhalts⟩)
      | aborted e => exact .inr (.inr ⟨e, runOn_of_aborted hhalts⟩)

end Action

namespace Execution

/-- An action that can be written has the same end on the state itself as in an execution, which stages its writes and
applies them in one batch: the same error, or the same outcome and the same state. Any end but a success leaves the
state as it was, whatever is stored in it. -/
theorem direct_agrees_with_staged {action : Action} {bytes : Octets} (hbytes : action.encode = .ok bytes) (ctx : Context)
    (s : Store) :
    (∃ e, (action.script ctx).runOn s = .error e s ∧ execute ctx action s = .error (.ledger e) s) ∨
      ∃ receipt s', (action.script ctx).runOn s = .ok receipt.outcome s' ∧ execute ctx action s = .ok receipt s' ∧
        (receipt.outcome.succeeded = false → s' = s) := by
  obtain ⟨e, herror, -⟩ | ⟨-, -, hends⟩ := execute_cases s ctx action
  · cases herror.symm.trans hbytes
  obtain ⟨e, hhalts, hexecute⟩ | ⟨receipt, s', hexecute, hends⟩ := hends
  · exact .inl ⟨e, Action.runOn_of_aborted hhalts, hexecute⟩
  · refine .inr ⟨receipt, s', ?_, hexecute, ?_⟩
    · obtain ⟨reason, hhalts, houtcome, rfl⟩ | ⟨y, hyields, houtcome⟩ := hends
      · rw [houtcome, Action.runOn_of_refused hhalts]
      · rw [houtcome, Action.runOn_of_yields hyields]
    · obtain ⟨reason, -, -, hsame⟩ | ⟨y, -, houtcome⟩ := hends
      · exact fun _ => hsame
      · rw [houtcome]
        nofun

namespace CappedIssue

/-- An asset of which sixty units may still be minted, and unreadable bytes in place of another one. -/
def state : Store :=
  let record : AssetRecord := ⟨[84], 2, [109], 40, 100, .filled 1, false⟩
  (Store.replace .empty (.asset (.filled 3)) record.encode.toOption).replace (.asset (.filled 4)) (some [0])

def context : Context := ⟨.filled 1, .filled 7, 0, .filled 9, 1, false⟩

def issue (asset : Identifier) (value : UInt64) : Action := .mint ⟨.filled 2, asset, value⟩

/-- All sixty are minted, and the other asset is corrupt, however the action runs. -/
theorem issued_alike :
    (∃ bytes, (issue (.filled 3) 60).encode = .ok bytes ∧ ∃ receipt s',
      ((issue (.filled 3) 60).script context).runOn state = .ok receipt.outcome s' ∧
        execute context (issue (.filled 3) 60) state = .ok receipt s' ∧ receipt.outcome.succeeded = true) ∧
    ∃ bytes, (issue (.filled 4) 60).encode = .ok bytes ∧ ∃ e,
      ((issue (.filled 4) 60).script context).runOn state = .error e state ∧
        execute context (issue (.filled 4) 60) state = .error (.ledger e) state := by
  constructor
  · obtain ⟨bytes, hbytes⟩ : ∃ bytes, (issue (.filled 3) 60).encode = .ok bytes := ⟨_, rfl⟩
    have hsucceeded : succeeded (execute context (issue (.filled 3) 60)) state = true := by decide +kernel
    obtain ⟨receipt, s', hexecute, hsuccess⟩ := succeeded_iff.1 hsucceeded
    obtain ⟨e, -, herror⟩ | ⟨receipt', t, hrun, hexecute', -⟩ := direct_agrees_with_staged hbytes context state
    · cases hexecute.symm.trans herror
    · cases hexecute.symm.trans hexecute'
      exact ⟨bytes, hbytes, receipt, s', hrun, hexecute, hsuccess⟩
  · obtain ⟨bytes, hbytes⟩ : ∃ bytes, (issue (.filled 4) 60).encode = .ok bytes := ⟨_, rfl⟩
    have hcorrupt : execute context (issue (.filled 4) 60) state =
        .error (.ledger (corruptRecord (StateKey.asset (.filled 4)).octets (.wire .truncated))) state := rfl
    obtain hboth | ⟨receipt, t, -, hexecute, -⟩ := direct_agrees_with_staged hbytes context state
    · exact ⟨bytes, hbytes, hboth⟩
    · cases hcorrupt.symm.trans hexecute

end CappedIssue
end Execution
end BridgeLedger
