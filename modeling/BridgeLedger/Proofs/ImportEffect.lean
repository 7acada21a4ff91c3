import BridgeLedger.Proofs.Authorization
import BridgeLedger.Proofs.WholeActions

/-! What an import changes. Its units leave the loan or join the supply of the bridged asset; the accounts of the
recipient and the actor change by the value, the reward and the two legs of a swap, whichever of them coincide; the
message is marked; and nothing else is touched. -/
namespace BridgeLedger

open Store Yields

/-- Units at one record, and none at any other. -/
def StateKey.units (k : StateKey) (n : UInt64) (j : StateKey) : Int := if j = k then n.toNat else 0

namespace Action.Import

def asset (a : Import) : Identifier := if a.transfer.returning then a.transfer.asset else a.origin.bridgedAsset

/-- What an account gains: the value and the reward, and where the swap is settled what is paid less what is given. -/
def gain (a : Import) (ctx : Context) (j : StateKey) : Int :=
  let swap := a.transfer.terms.swap
  (StateKey.balance a.transfer.recipient a.asset).units a.transfer.value j +
    (StateKey.balance ctx.actor a.asset).units a.transfer.terms.reward j +
    if a.fill && ctx.timestamp ≤ swap.expiry then
      (StateKey.balance a.transfer.recipient swap.assetOut).units swap.amountOut j -
        (StateKey.balance ctx.actor swap.assetOut).units swap.amountOut j +
        (StateKey.balance ctx.actor a.asset).units swap.amountIn j -
        (StateKey.balance a.transfer.recipient a.asset).units swap.amountIn j
    else 0

def Changes (a : Import) (ctx : Context) (k : StateKey) : Prop :=
  a.gain ctx k ≠ 0 ∨ (a.transfer.returning = true ∧ k = .loan a.transfer.asset a.message.source) ∨
    (a.transfer.returning = false ∧ k = .asset a.origin.bridgedAsset) ∨
    ∃ id, a.message.identifier = .ok id ∧ k = .incoming a.message.source id

/-- An import has taken effect, and nothing else has happened. -/
structure Effect (a : Import) (ctx : Context) (s s' : Store) : Prop where
  /-- units that come home leave the loan -/
  released : a.transfer.returning = true → ∃ before after : UInt64,
    (Ledger.loan a.transfer.asset a.message.source).runOn s = .ok before ∧
    (Ledger.loan a.transfer.asset a.message.source).runOn s' = .ok after ∧
    after.toNat + a.transfer.units = before.toNat ∧
    (s'.stored (.loan a.transfer.asset a.message.source) = none ↔ after = 0)
  /-- other units join the supply on record, or that of a new record, which starts at zero -/
  minted : a.transfer.returning = false → ∃ (record? : Option AssetRecord) (supply : UInt64),
    (Ledger.asset? a.origin.bridgedAsset).runOn s = .ok record? ∧
    supply.toNat = record?.elim 0 (·.supply.toNat) + a.transfer.units ∧
    (Ledger.asset? a.origin.bridgedAsset).runOn s' =
      .ok (some { record?.getD (freshRecord a.transfer a.origin) with supply })
  /-- an account is there exactly if it has units -/
  balances : ∀ owner x, ∃ before after : UInt64, (Ledger.balance owner x).runOn s = .ok before ∧
    (Ledger.balance owner x).runOn s' = .ok after ∧
    (after.toNat : Int) = before.toNat + a.gain ctx (.balance owner x) ∧
    (s'.stored (.balance owner x) = none ↔ after = 0)
  marked : ∃ id, a.message.identifier = .ok id ∧ (Ledger.imported a.message.source id).runOn s = .ok false ∧
    s'.stored (.incoming a.message.source id) = some []
  others : ∀ key, (∀ k, a.Changes ctx k → key ≠ k.octets) → s'.find? key = s.find? key

variable {a : Import} {ctx : Context} {s s' t : Store} {y : Yield} {id : Identifier} {total : UInt64} {k : StateKey}
  {n : UInt64}

theorem amount_of_credited_units (h : Credited s s' k n.toNat) (j : StateKey) :
    (s'.amount j : Int) = s.amount j + k.units n j := by
  rw [amount_of_credited h j, StateKey.units]
  split <;> simp

theorem amount_of_debited_units (h : Debited s s' k n.toNat) (j : StateKey) :
    (s'.amount j : Int) = s.amount j - k.units n j := by
  rw [← amount_of_debited h j, StateKey.units]
  split <;> simp

/-- The accounts of the recipient and the actor may be one, and so may the asset and the one that is wanted for it: each
step adds to all amounts what it moves. -/
theorem Distributes.gains (h : Distributes a ctx a.asset id t s') (owner : Address) (x : Identifier) :
    (s'.amount (.balance owner x) : Int) = t.amount (.balance owner x) + a.gain ctx (.balance owner x) := by
  obtain ⟨u, v, w, hvalue, hreward, hswap, rfl⟩ := h
  have hmark : Frame (· = .incoming a.message.source id) w (w.replace (.incoming a.message.source id) (some [])) :=
    Frame.replace _ rfl
  have hu := amount_of_credited_units (addBalance_iff.1 hvalue).2 (.balance owner x)
  have hv : (v.amount (.balance owner x) : Int) = u.amount (.balance owner x) +
      (StateKey.balance ctx.actor a.asset).units a.transfer.terms.reward (.balance owner x) := by
    split at hreward
    · exact amount_of_credited_units (addBalance_iff.1 hreward).2 (.balance owner x)
    · rename_i hnone
      have hzero : a.transfer.terms.reward = 0 := by simpa using hnone
      simp [← hreward, hzero, StateKey.units]
  rw [hmark.amount_eq (by simp), gain]
  split at hswap
  · rename_i hsettled
    obtain ⟨w₁, w₂, w₃, h₁, h₂, h₃, h₄⟩ := of_settleSwap hswap
    have e₁ := amount_of_debited_units h₁ (.balance owner x)
    have e₂ := amount_of_credited_units h₂ (.balance owner x)
    have e₃ := amount_of_debited_units h₃ (.balance owner x)
    have e₄ := amount_of_credited_units h₄ (.balance owner x)
    rw [if_pos hsettled]
    omega
  · rename_i hlapsed
    rw [if_neg hlapsed, ← hswap]
    omega

/-- What happens to the units before they are distributed is confined to the loan or the record of the bridged asset. -/
theorem arrival_frame {asset : Identifier}
    (hmove : Yields (if a.transfer.returning then release a.transfer a.message.source total
      else mint a.transfer a.message.source total) s asset t) :
    asset = a.asset ∧ OnlyRecords s t ∧ Frame (fun k =>
      (a.transfer.returning = true ∧ k = .loan a.transfer.asset a.message.source) ∨
        (a.transfer.returning = false ∧ k = .asset a.origin.bridgedAsset)) s t := by
  unfold Import.asset
  split at hmove
  · rename_i hreturning
    obtain ⟨rfl, -, -, -, hdebit⟩ := release_iff.1 hmove
    rw [if_pos hreturning]
    exact ⟨rfl, .debited hdebit, Frame.debited hdebit (.inl ⟨hreturning, rfl⟩)⟩
  · rename_i houtward
    obtain ⟨rfl, -, record, supply, -, -, -, hset⟩ := mint_iff.1 hmove
    rw [if_neg houtward]
    exact ⟨rfl, .registered hset, Frame.registered hset (.inr ⟨by simpa using houtward, rfl⟩)⟩

private theorem minted_of_mint {asset : Identifier}
    (hmove : Yields (mint a.transfer a.message.source total) s asset t) (hunits : total.toNat = a.transfer.units)
    (hlegible : s.Legible) (hlegible' : s'.Legible)
    (hsame : s'.asset? a.origin.bridgedAsset = t.asset? a.origin.bridgedAsset) :
    ∃ (record? : Option AssetRecord) (supply : UInt64), (Ledger.asset? a.origin.bridgedAsset).runOn s = .ok record? ∧
      supply.toNat = record?.elim 0 (·.supply.toNat) + a.transfer.units ∧
      (Ledger.asset? a.origin.bridgedAsset).runOn s' =
        .ok (some { record?.getD (freshRecord a.transfer a.origin) with supply }) := by
  obtain ⟨rfl, -, record, supply, hjoins, hsum, -, hset⟩ := mint_iff.1 hmove
  refine ⟨s.asset? a.origin.bridgedAsset, supply, hlegible.asset? _, ?_, ?_⟩
  · rw [← hunits, hsum, ← hjoins.of_asset?.1]
    rfl
  · have hrecord : (s.asset? a.origin.bridgedAsset).getD (freshRecord a.transfer a.origin) = record := hjoins.getD_eq
    rw [hlegible'.asset?, hsame, hrecord]
    exact congrArg Except.ok (asset?_registered hset)

/-- The effect of an import that succeeds on a state whose amounts and asset records can be read. -/
theorem effect (h : Yields (a.execute ctx) s y s') (hlegible : s.Legible) : a.Effect ctx s s' := by
  have hlegible' : s'.Legible := (authorized h hlegible).legible
  obtain ⟨-, id, total, asset, t, hadmits, htotal, hmove, hrest⟩ := execute_iff.1 h
  obtain ⟨rfl, honly, hfirst⟩ := arrival_frame hmove
  have hunits := Bridge.Transfer.units_of_total? htotal
  have hbalances (owner : Address) (x : Identifier) :
      (s'.amount (.balance owner x) : Int) = s.amount (.balance owner x) + a.gain ctx (.balance owner x) := by
    rw [hrest.gains, hfirst.amount_eq (by simp)]
  have hmarked : s'.stored (.incoming a.message.source id) = some [] := by
    obtain ⟨u, v, w, -, -, -, rfl⟩ := hrest
    exact stored_replace_self ..
  constructor
  case released =>
    intro hreturning
    rw [if_pos hreturning] at hmove
    obtain ⟨-, -, -, -, hdebit⟩ := release_iff.1 hmove
    obtain ⟨before, hbefore, hb⟩ := hlegible.loan a.transfer.asset a.message.source
    obtain ⟨after, hafter, ha⟩ := hlegible'.loan a.transfer.asset a.message.source
    have hdebited := amount_debited hdebit
    have hkept := hrest.frame.amount_eq (k := .loan a.transfer.asset a.message.source) (by simp [StateKey.IsBalance])
    exact ⟨before, after, hbefore, hafter, by omega, stored_eq_none_iff (hlegible' (.loan _ _)) ha⟩
  case minted =>
    intro houtward
    rw [houtward, if_neg Bool.false_ne_true] at hmove
    exact minted_of_mint hmove hunits hlegible hlegible' (hrest.frame.asset?_eq (by simp [StateKey.IsBalance]))
  case balances =>
    intro owner x
    obtain ⟨before, hbefore, hb⟩ := hlegible.balance owner x
    obtain ⟨after, hafter, ha⟩ := hlegible'.balance owner x
    exact ⟨before, after, hbefore, hafter, by rw [ha, hb, hbalances],
      stored_eq_none_iff (hlegible' (.balance owner x)) ha⟩
  case marked =>
    refine ⟨id, hadmits.identifier, ?_, hmarked⟩
    rw [LedgerRead.runOn_store]
    exact imported_iff.2 hadmits.unmarked
  case others =>
    have honly' : OnlyRecords s s' :=
      hrest.maintains (OnlyRecords.stableOnBalances s) (fun w hw => hw.trans (OnlyRecords.replace w _ _)) honly
    refine fun key => honly'.find?_eq fun k hk => ?_
    by_cases hbalance : k.IsBalance
    · obtain ⟨owner, x, rfl⟩ : ∃ owner x, k = .balance owner x := by
        cases k <;> first | exact ⟨_, _, rfl⟩ | cases hbalance
      refine Cell.eq_of_amount_eq (hlegible' (.balance owner x)) (hlegible (.balance owner x)) ?_
      have hgain : a.gain ctx (.balance owner x) = 0 := Classical.not_not.1 fun hgain => hk (.inl hgain)
      have hsame := hbalances owner x
      rw [hgain, Int.add_zero] at hsame
      exact Int.ofNat.inj hsame
    · refine (hrest.frame k ?_).trans (hfirst k ?_)
      · rintro (hb | hmark)
        · exact hbalance hb
        · exact hk (.inr (.inr (.inr ⟨id, hadmits.identifier, hmark⟩)))
      · rintro (hloan | hasset)
        · exact hk (.inr (.inl hloan))
        · exact hk (.inr (.inr (.inl hasset)))

end Action.Import

open Action.Import

/-- On a state whose amounts and asset records can be read an import that succeeds has its effect and no other, whether it
is executed or runs on the state itself. With any other result it leaves the state as it is. -/
theorem import_takes_effect {s : Store} (hlegible : s.Legible) (ctx : Context) (a : Action.Import) :
    (Execution.succeeded (Execution.execute ctx (.importAsset a)) s = true →
      a.Effect ctx s (endState (Execution.execute ctx (.importAsset a)) s)) ∧
    (Execution.succeeded (Execution.execute ctx (.importAsset a)) s = false →
      endState (Execution.execute ctx (.importAsset a)) s = s) ∧
    (∀ outcome s', ((Action.importAsset a).script ctx).runOn s = .ok outcome s' →
      if outcome.succeeded then a.Effect ctx s s' else s' = s) ∧
    ∀ e s', ((Action.importAsset a).script ctx).runOn s = .error e s' → s' = s := by
  refine ⟨fun hsucceeds => ?_, fun hfails => ?_, fun outcome s' hrun => ?_, fun e s' hrun => ?_⟩
  · obtain ⟨y, hyields⟩ := Execution.yields_of_succeeded hsucceeds
    exact effect hyields hlegible
  · obtain ⟨hsucceeds, -⟩ | ⟨-, hsame⟩ := Execution.endState_cases s ctx (.importAsset a)
    · cases hfails.symm.trans hsucceeds
    · exact hsame
  · obtain ⟨y, t, hyields, hrun'⟩ | ⟨reason, hrun'⟩ | ⟨e, hrun'⟩ := Action.runOn_cases (.importAsset a) ctx s
    · cases hrun.symm.trans hrun'
      exact effect hyields hlegible
    · cases hrun.symm.trans hrun'
      rfl
    · cases hrun.symm.trans hrun'
  · obtain ⟨y, t, -, hrun'⟩ | ⟨reason, hrun'⟩ | ⟨e', hrun'⟩ := Action.runOn_cases (.importAsset a) ctx s
    · cases hrun.symm.trans hrun'
    · cases hrun.symm.trans hrun'
    · cases hrun.symm.trans hrun'
      rfl

namespace LentUnits

/-- The importer has a reward of five, pays ten units for forty, and so gains thirty-five. -/
theorem redeemed_in_full : ∃ before after : UInt64, (Ledger.balance (.filled 1) .empty).runOn exported.1 = .ok before ∧
    (Ledger.balance (.filled 1) .empty).runOn redeemed = .ok after ∧ (after.toNat : Int) = before.toNat + 35 := by
  have hlegible : exported.1.Legible := .of_wellFormed (Sound.of_reachable reachable).wellFormed
  have hsucceeds : Execution.succeeded (Execution.execute arrival redeeming) exported.1 = true := by decide +kernel
  obtain ⟨heffect, -⟩ := import_takes_effect hlegible arrival ⟨true, message, homecoming, decode_message⟩
  obtain ⟨before, after, hbefore, hafter, hsum, -⟩ := (heffect hsucceeds).balances (.filled 1) .empty
  have hgain : Action.Import.gain ⟨true, message, homecoming, decode_message⟩ arrival (.balance (.filled 1) .empty) =
      35 := by decide +kernel
  exact ⟨before, after, hbefore, hafter, by rw [hsum, hgain]⟩

end LentUnits
end BridgeLedger
