import BridgeLedger.Proofs.Authorization
import BridgeLedger.Proofs.FaultFreedom
import BridgeLedger.Proofs.OutgoingMessages
import BridgeLedger.Proofs.WholeActions

/-! When an export succeeds and what it changes. On a chain whose books are in order its checks are all that stands in
its way: there is room in the loan for what was in the account, and in the supply of a bridged asset are all its
units. -/
namespace BridgeLedger

open Store Yields

namespace Action.Export

variable {a : Export} {ctx : Context} {s s' t : Store} {y : Yield} {record : AssetRecord} {asset : Identifier}
  {actor : Address} {total : UInt64}

def units (a : Export) : Nat := a.value.toNat + a.terms.reward.toNat

/-- The conditions of an export, on the record of its asset and the balance of the actor. -/
structure Allowed (a : Export) (ctx : Context) (record : AssetRecord) (balance : UInt64) : Prop where
  value : 0 < a.value
  destination : a.destination ≠ .empty
  distant : a.destination ≠ ctx.chain
  swap : a.terms.swap.valid a.value = true
  fits : a.units < UInt64.size
  covered : a.units ≤ balance.toNat
  /-- a local asset is lent, a bridged one goes home -/
  route : (a.returning = false ∧ record.bridged = false) ∨ (a.returning = true ∧ record.bridged = true ∧
    ∃ origin, Bridge.Origin.ofMetadata? record.metadata = some origin ∧ origin.chain = a.destination)

def Changes (a : Export) (ctx : Context) (k : StateKey) : Prop :=
  k = .balance ctx.actor a.asset ∨ (a.returning = false ∧ k = .loan a.asset a.destination) ∨
    (a.returning = true ∧ k = .asset a.asset) ∨ k = .outgoing ctx.transaction

/-- An export has taken effect and emitted a message, and nothing else has happened. -/
structure Effect (a : Export) (ctx : Context) (record : AssetRecord) (m : Bridge.Message) (s s' : Store) : Prop where
  paid : ∃ before after : UInt64, (Ledger.balance ctx.actor a.asset).runOn s = .ok before ∧
    (Ledger.balance ctx.actor a.asset).runOn s' = .ok after ∧ after.toNat + a.units = before.toNat ∧
    (s'.stored (.balance ctx.actor a.asset) = none ↔ after = 0)
  lent : a.returning = false → ∃ before after : UInt64, (Ledger.loan a.asset a.destination).runOn s = .ok before ∧
    (Ledger.loan a.asset a.destination).runOn s' = .ok after ∧ after.toNat = before.toNat + a.units
  burned : a.returning = true → ∃ supply : UInt64, supply.toNat + a.units = record.supply.toNat ∧
    (Ledger.asset? a.asset).runOn s' = .ok (if supply = 0 then none else some { record with supply }) ∧
    (s'.stored (.asset a.asset) = none ↔ supply = 0)
  /-- the transfer in the message is of the asset itself, or of the one that a bridged asset stands for -/
  sent : ∃ asset bytes, a.Names record asset ∧ m.network = ctx.network ∧ m.source = ctx.chain ∧
    (a.toTransfer record asset ctx.transaction).encode = .ok m.payload ∧ m.encode = .ok bytes ∧
    s'.stored (.outgoing ctx.transaction) = some bytes
  others : ∀ key, (∀ k, a.Changes ctx k → key ≠ k.octets) → s'.find? key = s.find? key

section Success

/-- What the actor has of an asset fits into any loan of it. -/
theorem exists_lend (h : s.InOrder) (hlocal : record.bridged = false)
    (hcovered : total.toNat ≤ s.amount (.balance actor a.asset)) :
    ∃ t, Yields (a.lend record actor total) s a.asset t := by
  obtain ⟨t, hdebit⟩ := exists_debited hcovered
  have hroom := (h.fits_zero a.asset).debited hdebit rfl
  rw [Nat.zero_add] at hroom
  obtain ⟨u, hcredit⟩ := exists_credited (hroom.amount_add_lt (k := .loan a.asset a.destination) rfl)
  exact ⟨u, lend_iff.2 ⟨rfl, hlocal, h.wellFormed.readable rfl, t, hdebit, hroom.wellFormed.readable rfl, hcredit⟩⟩

/-- What the actor has of an asset is part of its supply. -/
theorem exists_burn (h : s.InOrder) (hrecord : s.asset? a.asset = some record) (hbridged : record.bridged = true)
    (horigin : Bridge.Origin.ofMetadata? record.metadata = some ⟨asset, a.destination⟩)
    (hcovered : total.toNat ≤ s.amount (.balance actor a.asset)) :
    ∃ t, Yields (a.burn record actor total) s asset t := by
  obtain ⟨t, hdebit⟩ := exists_debited hcovered
  have hproper := h.wellFormed.proper hrecord
  have hle : total.toNat ≤ record.supply.toNat := by
    have hheld := s.amount_le_held (k := .balance actor a.asset) rfl
    rw [h.conserved, supply_of_asset? hrecord] at hheld
    exact Nat.le_trans hcovered hheld
  obtain ⟨supply, hsum⟩ : ∃ supply : UInt64, supply.toNat + total.toNat = record.supply.toNat := by
    refine ⟨record.supply - total, ?_⟩
    rw [UInt64.toNat_sub_of_le _ _ (UInt64.le_iff_toNat_le.2 hle), Nat.sub_add_cancel hle]
  have hcap : supply ≤ record.maxSupply := by
    have hcapped := UInt64.le_iff_toNat_le.1 hproper.capped
    exact UInt64.le_iff_toNat_le.2 (by omega)
  obtain ⟨u, hlowered⟩ : ∃ u, Lowered t u a.asset record supply := by
    unfold Lowered
    split
    · exact ⟨_, rfl⟩
    · exact exists_registered t a.asset (hproper.with_supply hcap)
  exact ⟨u, burn_iff.2 ⟨hbridged, horigin, h.wellFormed.readable rfl, t, supply, hdebit, hsum, hlowered⟩⟩

/-- The units leave by the route that the export asks for. -/
theorem exists_move (h : s.InOrder) {balance : UInt64} (hrecord : s.asset? a.asset = some record)
    (hallowed : a.Allowed ctx record balance) (htotal : total.toNat = a.units)
    (hbalance : balance.toNat = s.amount (.balance ctx.actor a.asset)) :
    ∃ asset t,
      Yields (if a.returning then a.burn record ctx.actor total else a.lend record ctx.actor total) s asset t := by
  have hcovered : total.toNat ≤ s.amount (.balance ctx.actor a.asset) := by
    rw [htotal, ← hbalance]
    exact hallowed.covered
  obtain ⟨hlending, hlocal⟩ | ⟨hreturning, hbridged, ⟨asset, chain⟩, horigin, hchain⟩ := hallowed.route
  · obtain ⟨t, hlend⟩ := exists_lend (a := a) h hlocal hcovered
    exact ⟨a.asset, t, by rwa [hlending, if_neg Bool.false_ne_true]⟩
  · cases hchain
    obtain ⟨t, hburn⟩ := exists_burn h hrecord hbridged horigin hcovered
    exact ⟨asset, t, by rwa [if_pos hreturning]⟩

/-- An export succeeds under its conditions. -/
theorem exists_yields (h : s.InOrder) {balance : UInt64} (hrecord : s.asset? a.asset = some record)
    (hallowed : a.Allowed ctx record balance) (hbalance : balance.toNat = s.amount (.balance ctx.actor a.asset)) :
    ∃ y s', Yields (a.execute ctx) s y s' := by
  obtain ⟨total, htotal⟩ : ∃ total : UInt64, total.toNat = a.units :=
    ⟨UInt64.ofNat a.units, UInt64.toNat_ofNat_of_lt' hallowed.fits⟩
  obtain ⟨asset, t, hmove⟩ := exists_move h hrecord hallowed htotal hbalance
  obtain ⟨payload, hpayload, hlength⟩ := Bridge.Transfer.encode_isOk
    (t := a.toTransfer record asset ctx.transaction) (h.wellFormed.proper hrecord).symbol.2
  obtain ⟨bytes, hbytes⟩ := Bridge.Message.encode_isOk (m := ⟨ctx.network, ctx.chain, payload⟩) hlength
  exact ⟨_, _, execute_iff.2 ⟨UInt64.pos_iff_ne_zero.1 hallowed.value, hallowed.destination, hallowed.distant,
    hallowed.swap, h.wellFormed.decodes_asset a.asset, record, total, asset, t, _, bytes, htotal, hrecord, hmove,
    hpayload, rfl, rfl, hbytes, rfl, rfl⟩⟩

end Success

/-- The actor is debited first. What follows is confined to the loan, or to the record of the asset. -/
theorem exists_debited_of_move
    (h : Yields (if a.returning then a.burn record actor total else a.lend record actor total) s asset t) :
    ∃ u, Debited s u (.balance actor a.asset) total.toNat ∧ OnlyRecords u t ∧ Frame (fun k =>
        (a.returning = false ∧ k = .loan a.asset a.destination) ∨ (a.returning = true ∧ k = .asset a.asset)) u t ∧
      (a.returning = false → Credited u t (.loan a.asset a.destination) total.toNat) ∧
      (a.returning = true → ∃ supply : UInt64, supply.toNat + total.toNat = record.supply.toNat ∧
        Lowered u t a.asset record supply) := by
  split at h
  · rename_i hreturning
    obtain ⟨-, -, u, supply, hdebit, hsum, hlowered⟩ := of_burn h
    refine ⟨u, hdebit, .lowered hlowered, hlowered.frame (.inr ⟨hreturning, rfl⟩), fun hlending => ?_,
      fun _ => ⟨supply, hsum, hlowered⟩⟩
    cases hlending.symm.trans hreturning
  · rename_i hlending
    obtain ⟨-, -, u, hdebit, hcredit⟩ := of_lend h
    have hfalse : a.returning = false := by simpa using hlending
    exact ⟨u, hdebit, .credited hcredit, Frame.credited hcredit (.inl ⟨hfalse, rfl⟩), fun _ => hcredit,
      fun hreturning => absurd hreturning hlending⟩

/-- An export that succeeds has met its conditions. -/
theorem allowed_of_yields (h : Yields (a.execute ctx) s y s') (hlegible : s.Legible) :
    ∃ record balance, (Ledger.asset? a.asset).runOn s = .ok (some record) ∧
      (Ledger.balance ctx.actor a.asset).runOn s = .ok balance ∧ a.Allowed ctx record balance := by
  obtain ⟨hvalue, hdestination, hdistant, hswap, record, total, asset, t, m, bytes, htotal, hrecord, hmove, -⟩ :=
    of_yields h
  obtain ⟨balance, hbalance, hamount⟩ := hlegible.balance ctx.actor a.asset
  obtain ⟨u, hdebit, -⟩ := exists_debited_of_move hmove
  have hpaid := amount_debited hdebit
  have hunits : total.toNat = a.units := htotal
  have hroute := names_of_move hmove
  refine ⟨record, balance, by rw [hlegible.asset?, hrecord], hbalance, UInt64.pos_iff_ne_zero.2 hvalue, hdestination,
    hdistant, hswap, hunits ▸ total.toNat_lt_size, by omega, ?_⟩
  unfold Names at hroute
  split at hroute
  · rename_i hreturning
    exact .inr ⟨hreturning, hroute.1, _, hroute.2, rfl⟩
  · rename_i hlending
    exact .inl ⟨by simpa using hlending, hroute.1⟩

/-- The effect of an export that succeeds on a state whose amounts and asset records can be read. -/
theorem effect (h : Yields (a.execute ctx) s y s') (hlegible : s.Legible) :
    ∃ record m, y.message = some m ∧ (Ledger.asset? a.asset).runOn s = .ok (some record) ∧
      a.Effect ctx record m s s' := by
  have hlegible' : s'.Legible := (authorized h hlegible).legible
  obtain ⟨-, -, -, -, record, total, asset, t, m, bytes, htotal, hrecord, hmove, hpayload, hnetwork, hsource, hbytes,
    rfl, rfl⟩ := of_yields h
  have hunits : total.toNat = a.units := htotal
  obtain ⟨u, hdebit, honly, hrest, hlent, hburned⟩ := exists_debited_of_move hmove
  have hpaid : Frame (· = .balance ctx.actor a.asset) s u := Frame.debited hdebit rfl
  have hsent : Frame (· = .outgoing ctx.transaction) t (t.replace (.outgoing ctx.transaction) (some bytes)) :=
    Frame.replace _ rfl
  refine ⟨record, m, rfl, by rw [hlegible.asset?, hrecord], ?_⟩
  constructor
  case paid =>
    obtain ⟨before, hbefore, hb⟩ := hlegible.balance ctx.actor a.asset
    obtain ⟨after, hafter, ha⟩ := hlegible'.balance ctx.actor a.asset
    have hdebited := amount_debited hdebit
    have hkept := hrest.amount_eq (k := .balance ctx.actor a.asset) (by simp)
    have hlast := hsent.amount_eq (k := .balance ctx.actor a.asset) (by simp)
    exact ⟨before, after, hbefore, hafter, by omega, stored_eq_none_iff (hlegible' (.balance _ _)) ha⟩
  case lent =>
    intro hlending
    obtain ⟨before, hbefore, hb⟩ := hlegible.loan a.asset a.destination
    obtain ⟨after, hafter, ha⟩ := hlegible'.loan a.asset a.destination
    have hcredited := amount_credited (hlent hlending)
    have hkept := hpaid.amount_eq (k := .loan a.asset a.destination) (by simp)
    have hlast := hsent.amount_eq (k := .loan a.asset a.destination) (by simp)
    exact ⟨before, after, hbefore, hafter, by omega⟩
  case burned =>
    intro hreturning
    obtain ⟨supply, hsum, hlowered⟩ := hburned hreturning
    refine ⟨supply, hunits ▸ hsum, ?_, ?_⟩
    · rw [hlegible'.asset?, hsent.asset?_eq (by simp), hlowered.asset?_eq]
    · rw [hsent (.asset a.asset) (by simp)]
      unfold Lowered at hlowered
      split at hlowered
      · rename_i hzero
        simp [hlowered, hzero]
      · rename_i hleft
        obtain ⟨written, -, rfl⟩ := hlowered
        simp [hleft]
  case sent =>
    exact ⟨asset, bytes, names_of_move hmove, hnetwork, hsource, hpayload, hbytes, stored_replace_self ..⟩
  case others =>
    have honly' : OnlyRecords s (t.replace (.outgoing ctx.transaction) (some bytes)) :=
      (OnlyRecords.debited hdebit).trans (honly.trans (OnlyRecords.replace t _ _))
    have hframe : Frame (a.Changes ctx) s (t.replace (.outgoing ctx.transaction) (some bytes)) := by
      refine (hpaid.mono fun _ => .inl).trans ((hrest.mono fun k hk => ?_).trans (hsent.mono fun _ hk => ?_))
      · exact hk.elim (fun hloan => .inr (.inl hloan)) fun hasset => .inr (.inr (.inl hasset))
      · exact .inr (.inr (.inr hk))
    exact fun key => honly'.find?_eq hframe

end Action.Export

/-- In every state of a chain whose transactions have names that no asset has, an export answers a receipt, whether it
is executed or runs on the state itself. It succeeds exactly under its conditions and has its effect then; otherwise
nothing changes. -/
theorem export_takes_effect {g : Genesis} {calls : List Call} (hapart : Call.NamedApart (g.opening, .empty) calls)
    {s : Store} (hs : (Call.runAll (g.opening, .empty) calls).1 = s) (ctx : Context) (a : Action.Export) :
    ∃ receipt s', Execution.execute ctx (.exportAsset a) s = .ok receipt s' ∧
      ((Action.exportAsset a).script ctx).runOn s = .ok receipt.outcome s' ∧
      (receipt.outcome.succeeded = true ↔ ∃ record balance, (Ledger.asset? a.asset).runOn s = .ok (some record) ∧
        (Ledger.balance ctx.actor a.asset).runOn s = .ok balance ∧ a.Allowed ctx record balance) ∧
      if receipt.outcome.succeeded then ∃ record m, receipt.outcome.message? = some m ∧
        (Ledger.asset? a.asset).runOn s = .ok (some record) ∧ a.Effect ctx record m s s'
      else s' = s := by
  have hbooks : s.InOrder := hs ▸ hapart.inOrder
  have hlegible : s.Legible := .of_wellFormed hbooks.wellFormed
  obtain ⟨e, herror, -⟩ | ⟨bytes, -, ⟨e, hhalts, -⟩ | ⟨receipt, s', hexecute, hends⟩⟩ :=
    Execution.execute_cases s ctx (.exportAsset a)
  · cases herror
  · exact (Action.halts hbooks (.exportAsset a) _ hhalts).elim
  refine ⟨receipt, s', hexecute, ?_⟩
  obtain ⟨reason, hhalts, houtcome, rfl⟩ | ⟨y, hyields, houtcome⟩ := hends
  · rw [houtcome]
    refine ⟨Action.runOn_of_refused hhalts, ⟨nofun, ?_⟩, rfl⟩
    rintro ⟨record, balance, hrecord, hbalance, hallowed⟩
    rw [hlegible.asset?, Except.ok.injEq] at hrecord
    obtain ⟨y, t, hyields⟩ := Action.Export.exists_yields hbooks hrecord hallowed (balance_runOn_iff.1 hbalance).2
    exact absurd hhalts hyields.not_halts
  · rw [houtcome]
    exact ⟨Action.runOn_of_yields hyields, ⟨fun _ => Action.Export.allowed_of_yields hyields hlegible, fun _ => rfl⟩,
      Action.Export.effect hyields hlegible⟩

namespace ForeignUnits

def homeward : Action.Export := ⟨.filled 3, asset, 30, true, ⟨0, ⟨0, .empty, 0, 0⟩⟩, .filled 8⟩

def departure : Context := ⟨.filled 3, .filled 13, 0, .filled 9, 1, false⟩

/-- The account and the record of the asset go with the last unit. -/
theorem last_unit_leaves : Call.NamedApart (LentUnits.genesis.opening, .empty) (history.take 1) ∧ ∃ receipt s',
    Execution.execute departure (.exportAsset homeward) (ledger 1).1 = .ok receipt s' ∧
      receipt.outcome.succeeded = true ∧ s'.stored (.balance (.filled 3) asset) = none ∧
      (Ledger.asset? asset).runOn s' = .ok none := by
  have hapart : Call.NamedApart (LentUnits.genesis.opening, .empty) (history.take 1) := by
    intro i c hc
    match i with
    | 0 =>
      cases hc
      exact ⟨by decide, by decide +kernel⟩
    | i + 1 => cases hc
  have harrived : ((ledger 1).1.asset? asset).map (·.supply) = some 30 ∧
      (ledger 1).1.amount (.balance (.filled 3) asset) = 30 := by decide +kernel
  obtain ⟨hissued, hheld⟩ := harrived
  have hsucceeds : Execution.succeeded (Execution.execute departure (.exportAsset homeward)) (ledger 1).1 = true := by
    decide +kernel
  obtain ⟨receipt, s', hexecute, -, -, hends⟩ := export_takes_effect hapart rfl departure homeward
  obtain ⟨_, _, hexecute', hsucceeded⟩ := Execution.succeeded_iff.1 hsucceeds
  cases hexecute.symm.trans hexecute'
  rw [if_pos hsucceeded] at hends
  obtain ⟨record, m, -, hrecord, heffect⟩ := hends
  rw [LedgerRead.runOn_store, asset?_iff] at hrecord
  have hall : record.supply = 30 := Option.some.inj ((congrArg _ hrecord.2.symm).trans hissued)
  obtain ⟨supply, hsupply, hleft, -⟩ := heffect.burned rfl
  obtain ⟨before, after, hbefore, -, hpaid, hgone⟩ := heffect.paid
  have hsupply' : supply = 0 := by
    rw [hall] at hsupply
    exact UInt64.toNat_inj.1 (Nat.add_right_cancel (m := 30) hsupply)
  have hafter : after = 0 := by
    have hbefore' : before.toNat = 30 := (balance_runOn_iff.1 hbefore).2.trans hheld
    rw [hbefore'] at hpaid
    exact UInt64.toNat_inj.1 (Nat.add_right_cancel (m := 30) hpaid)
  exact ⟨hapart, receipt, s', hexecute, hsucceeded, hgone.2 hafter, hleft.trans (by rw [if_pos hsupply'])⟩

end ForeignUnits
end BridgeLedger
