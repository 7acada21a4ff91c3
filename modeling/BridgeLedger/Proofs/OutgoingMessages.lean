import BridgeLedger.Proofs.CallHistories
import BridgeLedger.Proofs.SupplyConservation

/-! What an export leaves for the signer. The message under its transaction is read back, and its payload is the transfer
that was asked for, on any chain and under any transaction that has a name. A chain or a transaction with the all-zero
name exports just as well, but readers refuse what it wrote. -/
namespace BridgeLedger

open Store Yields

variable {α β : Type}

/-- From the front of any input that starts with these bytes, the reader refuses them. -/
def FailsOn (r : Reader α) (bytes : Octets) (e : WireError) : Prop := ∀ rest, ∃ left, r (bytes ++ rest) = .error e left

namespace FailsOn

variable {r : Reader α} {bytes more : Octets} {v : α} {e : WireError}

theorem bind {f : α → Reader β} (h : FailsOn r bytes e) : FailsOn (r >>= f) bytes e := by
  intro rest
  obtain ⟨left, h⟩ := h rest
  exact ⟨left, by change EStateM.bind r f _ = _; rw [EStateM.bind, h]⟩

theorem map {f : α → β} (h : FailsOn r bytes e) : FailsOn (f <$> r) bytes e := by
  rw [map_eq_pure_bind]
  exact h.bind

theorem after {f : α → Reader β} (h : Reads r bytes v) (k : FailsOn (f v) more e) :
    FailsOn (r >>= f) (bytes ++ more) e := by
  intro rest
  obtain ⟨left, k⟩ := k rest
  refine ⟨left, ?_⟩
  change EStateM.bind r f _ = _
  rw [EStateM.bind, List.append_assoc, h]
  exact k

theorem readAll (h : FailsOn r bytes e) (rest : Octets) : Reader.readAll r (bytes ++ rest) = .error e := by
  obtain ⟨left, h⟩ := h.bind (f := fun v => do Reader.finish; return v) rest
  rw [Reader.readAll, h]

theorem cast (h : FailsOn r bytes e) (heq : bytes = more) : FailsOn r more e := heq ▸ h

/-- A name that is required is refused when it is all zero. -/
theorem identifier : FailsOn (Reader.identifier true) Identifier.empty.octets .missing := by
  have hrequire : FailsOn (Reader.require (!true || !Identifier.empty.isEmpty) .missing) [] .missing :=
    fun rest => ⟨rest, rfl⟩
  exact (after ((Reads.block Identifier.empty.block).map Identifier.mk) hrequire.bind).cast (List.append_nil _)

end FailsOn

namespace Bridge

/-- A message of a chain without a name is not read back. -/
theorem Message.decode_encode_of_empty {m : Message} {bytes : Octets} (h : m.encode = .ok bytes)
    (hs : m.source = .empty) : decode bytes = .error .missing := by
  unfold encode at h
  split at h
  · have hfails : FailsOn read (Wire.ofUInt32 m.network ++ Identifier.empty.octets) .missing :=
      .after (Reads.uint32 m.network) FailsOn.identifier.bind
    cases h
    rw [decode, hs, List.append_assoc (_ ++ _)]
    exact hfails.readAll _
  · cases h

/-- A transfer of a transaction without a name is not read back. -/
theorem Transfer.decode_encode_of_empty {t : Transfer} {bytes : Octets} (h : t.encode = .ok bytes)
    (hsymbol : t.symbol ≠ [] ∧ t.symbol.length ≤ Limits.maxSymbol) (hvalue : t.value ≠ 0)
    (htransaction : t.transaction = .empty) : decode bytes = .error .missing := by
  obtain ⟨symbol, hs, h⟩ := exists_ok_of_bind h
  have hfails : FailsOn read (t.recipient.octets ++ (symbol ++ ([t.decimals] ++ (t.asset.octets ++
      (Wire.ofUInt64 t.value ++ (Wire.ofBool t.returning ++ (t.terms.octets ++ Identifier.empty.octets)))))))
      .missing := by
    refine .after (Reads.address t.recipient) ?_
    refine .after (Reads.prefixed true hs hsymbol.2 fun _ => hsymbol.1) ?_
    refine .after (Reads.uint8 t.decimals) ?_
    refine .after (Reads.identifier false nofun) ?_
    refine .after (Reads.uint64 true fun _ => hvalue) ?_
    refine .after (Reads.bool t.returning) ?_
    refine .after t.terms.reads ?_
    exact FailsOn.identifier.bind
  have hall : Reader.readAll read bytes = .error .missing := by
    have := hfails.readAll t.destination.octets
    rw [← Except.ok.inj h, htransaction]
    simpa using this
  rw [decode, hall]
  rfl

end Bridge

/-- A message is read back under its transaction as far as its bytes are a message. -/
theorem Store.outgoing?_runOn {s : Store} {transaction : Identifier} {bytes : Octets}
    (h : s.stored (.outgoing transaction) = some bytes) :
    (Ledger.outgoing? transaction).runOn s = match Bridge.Message.decode bytes with
      | .ok m => .ok (some m)
      | .error e => .error (corruptRecord (StateKey.outgoing transaction).octets (.wire e)) := by
  have hread : (liftM (Lookup.read (StateKey.outgoing transaction).octets) : LedgerRead (Option Octets)).run.eval s =
      .ok (some bytes) := Lookup.run_read_iff.2 h
  rw [LedgerRead.runOn_store, Ledger.outgoing?, Ledger.readRecord, ExceptT.run_bind, Lookup.eval_bind', hread]
  dsimp only
  cases Bridge.Message.decode bytes <;> rfl

namespace Action.Export

variable {a : Export} {s s' : Store} {ctx : Context} {y : Yield}

/-- The asset that the message of an export names: the origin of one that goes home, or the asset itself. -/
def Names (a : Export) (record : AssetRecord) (asset : Identifier) : Prop :=
  if a.returning then
    record.bridged = true ∧ Bridge.Origin.ofMetadata? record.metadata = some ⟨asset, a.destination⟩
  else record.bridged = false ∧ asset = a.asset

theorem names_of_move {record : AssetRecord} {total : UInt64} {asset : Identifier} {t : Store}
    (h : Yields (if a.returning then a.burn record ctx.actor total else a.lend record ctx.actor total) s asset t) :
    a.Names record asset := by
  unfold Names
  split at h
  · rename_i hreturning
    obtain ⟨hbridged, horigin, -⟩ := of_burn h
    rw [if_pos hreturning]
    exact ⟨hbridged, horigin⟩
  · rename_i hreturning
    obtain ⟨hasset, hlocal, -⟩ := of_lend h
    rw [if_neg hreturning]
    exact ⟨hlocal, hasset⟩

/-- What a successful export leaves under its transaction, and in it. -/
theorem posts (h : Yields (a.execute ctx) s y s') (hwf : s.WellFormed) :
    ∃ (m : Bridge.Message) (record : AssetRecord) (asset : Identifier), y.message = some m ∧
      s.asset? a.asset = some record ∧ a.Names record asset ∧
      (Ledger.outgoing? ctx.transaction).runOn s' = (if ctx.chain = .empty then
        .error (corruptRecord (StateKey.outgoing ctx.transaction).octets (.wire .missing)) else .ok (some m)) ∧
      Bridge.Transfer.decode m.payload = if ctx.transaction = .empty then .error .missing else
        .ok ⟨a.recipient, record.symbol, record.decimals, asset, a.value, a.returning, a.terms, ctx.transaction,
          a.destination⟩ := by
  obtain ⟨hvalue, hdestination, -, hswap, record, total, asset, t, m, bytes, -, hrecord, hmove, hpayload, -, hsource,
    hbytes, rfl, rfl⟩ := of_yields h
  have hsymbol := (hwf.proper hrecord).symbol
  refine ⟨m, record, asset, rfl, hrecord, names_of_move hmove, ?_, ?_⟩
  · rw [outgoing?_runOn (stored_replace_self ..)]
    by_cases hchain : ctx.chain = .empty
    · rw [Bridge.Message.decode_encode_of_empty hbytes (hsource.trans hchain), if_pos hchain]
    · rw [Bridge.Message.decode_encode hbytes (hsource ▸ hchain), if_neg hchain]
  · by_cases htransaction : ctx.transaction = .empty
    · rw [Bridge.Transfer.decode_encode_of_empty hpayload hsymbol hvalue htransaction, if_pos htransaction]
    · rw [Bridge.Transfer.decode_encode hpayload hsymbol hvalue htransaction hdestination hswap, if_neg htransaction]
      rfl

end Action.Export

/-- An export that takes effect in a history answers a message of the asset on record. The message is under its
transaction for the signer, unless the chain has no name; and its payload is the transfer that was asked for, unless the
transaction has no name. Then their readers refuse them. -/
theorem exported_message_read {start : Store × Store} (hstart : start.1.Opening) (calls : List Call) (call : Call)
    {a : Action.Export} (haction : call.action = .exportAsset a) {receipt : Receipt} {ledger : Store × Store}
    (hrun : call.run (Call.runAll start calls) = .ok receipt ledger) (hsucceeded : receipt.outcome.succeeded = true) :
    ∃ (m : Bridge.Message) (record : AssetRecord) (asset : Identifier), receipt.outcome.message? = some m ∧
      (Ledger.asset? a.asset).runOn (Call.runAll start calls).1 = .ok (some record) ∧ a.Names record asset ∧
      (Ledger.outgoing? call.context.transaction).runOn ledger.1 = (if call.context.chain = .empty then
        .error (corruptRecord (StateKey.outgoing call.context.transaction).octets (.wire .missing)) else .ok (some m)) ∧
      Bridge.Transfer.decode m.payload = if call.context.transaction = .empty then .error .missing else
        .ok ⟨a.recipient, record.symbol, record.decimals, asset, a.value, a.returning, a.terms,
          call.context.transaction, a.destination⟩ := by
  have hwf := Call.runAll_wellFormed hstart calls
  cases houtcome : receipt.outcome with
  | failure reason =>
    rw [houtcome] at hsucceeded
    cases hsucceeded
  | success y =>
    have hyields := Call.yields_of_run hrun houtcome
    rw [haction] at hyields
    obtain ⟨m, record, asset, hmessage, hrecord, hposts⟩ := Action.Export.posts hyields hwf
    refine ⟨m, record, asset, hmessage, ?_, hposts⟩
    rw [LedgerRead.runOn_store]
    exact asset?_iff.2 ⟨hwf.decodes_asset a.asset, hrecord⟩

namespace LentUnits

theorem lending_read : ∃ receipt ledger m,
    Call.run ⟨context, lending, some (0, 0)⟩ (genesis.opening, .empty) = .ok receipt ledger ∧
      receipt.outcome.message? = some m ∧ (Ledger.outgoing? (.filled 7)).runOn ledger.1 = .ok (some m) ∧
      Bridge.Transfer.decode m.payload =
        .ok ⟨.filled 2, [87], 9, .empty, 100, false, ⟨5, ⟨0, .empty, 0, 0⟩⟩, .filled 7, .filled 8⟩ := by
  have hstart : Store.Opening ((genesis.opening, .empty) : Store × Store).1 := .inr ⟨genesis, rfl⟩
  have hasset : genesis.opening.asset? .empty = some ⟨[87], 9, [87], 1000, Limits.maxSupply, .empty, false⟩ := by
    decide +kernel
  obtain ⟨receipt, ledger, hrun, hsucceeded⟩ := Execution.succeeded_iff.1
    (show Execution.succeeded (Call.run ⟨context, lending, some (0, 0)⟩) (genesis.opening, .empty) = true by
      decide +kernel)
  obtain ⟨m, record, asset, hmessage, hrecord, ⟨-, rfl⟩, hread, hdecode⟩ := exported_message_read
    hstart [] ⟨context, lending, some (0, 0)⟩ rfl hrun hsucceeded
  rw [LedgerRead.runOn_store] at hrecord
  cases hasset.symm.trans (asset?_iff.1 hrecord).2
  exact ⟨receipt, ledger, m, hrun, hmessage, hread, hdecode⟩

/-- On a chain whose name is all zero the export takes effect, and its message is corrupt to whoever looks for it. -/
theorem unnamed_chain_unread : ∃ receipt ledger,
    Call.run ⟨{ context with chain := .empty }, lending, none⟩ (genesis.opening, .empty) = .ok receipt ledger ∧
      receipt.outcome.succeeded = true ∧ (Ledger.outgoing? (.filled 7)).runOn ledger.1 =
        .error (corruptRecord (StateKey.outgoing (.filled 7)).octets (.wire .missing)) := by
  have hwf : genesis.opening.WellFormed := Store.Opening.wellFormed (.inr ⟨genesis, rfl⟩)
  obtain ⟨receipt, ledger, hrun, hsucceeded⟩ := Execution.succeeded_iff.1
    (show Execution.succeeded (Call.run ⟨{ context with chain := .empty }, lending, none⟩)
      (genesis.opening, .empty) = true by decide +kernel)
  refine ⟨receipt, ledger, hrun, hsucceeded, ?_⟩
  cases houtcome : receipt.outcome with
  | failure reason =>
    rw [houtcome] at hsucceeded
    cases hsucceeded
  | success y =>
    obtain ⟨m, record, asset, -, -, -, hread, -⟩ := Action.Export.posts (Call.yields_of_run hrun houtcome) hwf
    exact hread

end LentUnits
end BridgeLedger
