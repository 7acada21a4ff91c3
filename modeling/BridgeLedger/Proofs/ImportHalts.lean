import BridgeLedger.Proofs.ActionEffects
import BridgeLedger.Proofs.ScriptHalts

/-! How an import halts. Its own checks refuse it for plain reasons; all else comes from the mark of its message and from
the steps that it takes on the ledger, each on the store that the steps before it leave. -/
namespace BridgeLedger

open Store Yields

namespace Action.Import

variable {p : Halt → Prop} {s : Store} {t : Bridge.Transfer} {source : Identifier} {total : UInt64} {a : Import}
  {ctx : Context}

private theorem requireSameAsset_bind {β : Type} (hp : Halt.Spares p) {record : AssetRecord}
    {f : Unit → ActionScript β}
    (hf : record.symbol = t.symbol → record.decimals = t.decimals → OnlyHalts p (f ()) s) :
    OnlyHalts p (requireSameAsset record t >>= f) s := by
  simp only [requireSameAsset, bind_assoc]
  exact .check_bind hp fun hsymbol => .check_bind hp fun hdecimals =>
    hf (by simpa using hsymbol) (by simpa using hdecimals)

theorem release_halts (hp : Halt.Spares p) (hasset : OnlyHalts p (liftM (Ledger.asset? t.asset) : ActionScript _) s)
    (hloan : OnlyHalts p (liftM (Ledger.subLoan t.asset source total) : ActionScript _) s) :
    OnlyHalts p (release t source total) s := by
  refine .lookup_bind hasset fun record? _ => ?_
  cases record? with
  | none => exact .refuse hp
  | some record =>
    refine .check_bind hp fun _ => requireSameAsset_bind hp fun _ _ => ?_
    exact .bind hloan fun _ _ _ => .pure

private theorem raise_halts (hp : Halt.Spares p) {record : AssetRecord} {name : Identifier}
    (hset : ∀ supply : UInt64, supply ≤ record.maxSupply →
      OnlyHalts p (liftM (Ledger.setAsset name { record with supply }) : ActionScript _) s) :
    OnlyHalts p (do
      let some supply := Amount.add? record.supply total | refuse .maxSupplyExceeded
      refuseIf (record.maxSupply < supply) .maxSupplyExceeded
      Ledger.setAsset name { record with supply }
      return name : ActionScript Identifier) s := by
  split
  · exact .check_bind hp fun hcap => .bind (hset _ (by simpa using hcap)) fun _ _ _ => .pure
  · exact .refuse hp

theorem mint_halts (hp : Halt.Spares p)
    (hasset : OnlyHalts p (liftM (Ledger.asset? (Bridge.Origin.bridgedAsset ⟨t.asset, source⟩)) : ActionScript _) s)
    (hset : ∀ (record : AssetRecord) (supply : UInt64),
      Joins t ⟨t.asset, source⟩ record (s.asset? (Bridge.Origin.bridgedAsset ⟨t.asset, source⟩)) →
      supply ≤ record.maxSupply →
      OnlyHalts p (liftM (Ledger.setAsset (Bridge.Origin.bridgedAsset ⟨t.asset, source⟩) { record with supply }) :
        ActionScript _) s) :
    OnlyHalts p (mint t source total) s := by
  unfold mint
  refine .lookup_bind hasset fun record? hread => ?_
  obtain ⟨-, rfl⟩ := asset?_iff.1 hread
  split
  · rename_i record hrecord
    rw [hrecord] at hset
    refine .check_bind hp fun hbridged => requireSameAsset_bind hp fun hsymbol hdecimals => ?_
    exact raise_halts hp (hset record · ⟨rfl, by simpa using hbridged, hsymbol, hdecimals⟩)
  · rename_i hnone
    rw [hnone] at hset
    exact raise_halts hp (hset _ · rfl)

/-- The checks of an import, and its steps on the ledger. -/
theorem execute_halts (hp : Halt.Spares p)
    (hwire : ∀ e, a.message.identifier = .error e → p (.aborted (.corrupt .message (.wire e))))
    (hmarked : ∀ id, a.message.identifier = .ok id → s.marked a.message.source id = true →
      p (.refused .alreadyImported))
    (hmove : ∀ total, a.transfer.total? = some total →
      OnlyHalts p (if a.transfer.returning then release a.transfer a.message.source total
        else mint a.transfer a.message.source total) s)
    (hrest : ∀ total asset id u, a.transfer.total? = some total →
      Yields (if a.transfer.returning then release a.transfer a.message.source total
        else mint a.transfer a.message.source total) s asset u →
      OnlyHalts p (do
        Ledger.addBalance a.transfer.recipient asset a.transfer.value true
        if 0 < a.transfer.terms.reward then Ledger.addBalance ctx.actor asset a.transfer.terms.reward true
        if a.fill && ctx.timestamp ≤ a.transfer.terms.swap.expiry then settleSwap a.transfer asset ctx.actor
        Ledger.markImported a.message.source id : ActionScript Unit) u) :
    OnlyHalts p (a.execute ctx) s := by
  unfold execute
  refine .check_bind hp fun _ => .check_bind hp fun _ => .check_bind hp fun _ => .check_bind hp fun _ => ?_
  cases hid : a.message.identifier with
  | error e => exact .bind (.throw (hwire e hid)) fun _ _ hy => absurd hy not_abort
  | ok id =>
    refine .read_bind (imported_iff.2 rfl) (.refuseIf_bind (hmarked id hid) fun _ => ?_)
    split
    · rename_i total htotal
      refine .bind (.staged ?_) fun _ _ _ => .pure
      rw [← branch_bind]
      exact .bind (hmove total htotal) fun asset u hu => hrest total asset id u htotal hu
    · exact .refuse hp

end Action.Import
end BridgeLedger
