import BridgeLedger.Proofs.BridgeMoves
import BridgeLedger.Proofs.DirectExecution
import BridgeLedger.Proofs.SupplyConservation

/-! What one execution may take away, and on whose authority. Nobody but the actor loses units, not even the recipient of
a swap that is filled; a loan shrinks only when its units come home; and a supply follows what is minted by the owner, or
what arrives over the bridge and leaves over it. The state may hold anything, as long as its amounts and asset records
can be read. -/
namespace BridgeLedger

open Store Yields

def StateKey.Legible : StateKey → Option Octets → Prop
  | .balance .., cell => Cell.Readable cell
  | .loan .., cell => Cell.Readable cell
  | .asset _, cell => Decodes AssetRecord.decode cell
  | _, _ => True

namespace Store

theorem balance_runOn_iff {s : Store} {owner : Address} {x : Identifier} {v : UInt64} :
    (Ledger.balance owner x).runOn s = .ok v ↔
      Cell.Readable (s.stored (.balance owner x)) ∧ v.toNat = s.amount (.balance owner x) := by
  rw [LedgerRead.runOn_store]
  exact cell_read_iff

theorem loan_runOn_iff {s : Store} {x d : Identifier} {v : UInt64} :
    (Ledger.loan x d).runOn s = .ok v ↔ Cell.Readable (s.stored (.loan x d)) ∧ v.toNat = s.amount (.loan x d) := by
  rw [LedgerRead.runOn_store]
  exact cell_read_iff

def Legible (s : Store) : Prop := ∀ k : StateKey, k.Legible (s.stored k)

namespace Legible

variable {s s' : Store} {k : StateKey} {n : Nat}

theorem replace (h : s.Legible) {v : Option Octets} (hv : k.Legible v) : (s.replace k v).Legible := by
  intro j
  rw [stored_replace]
  split
  · rename_i hj
    exact hj ▸ hv
  · exact h j

private theorem replace_amount (h : s.Legible) (k : StateKey) (v : UInt64) (hk : k.counted.isSome) :
    (s.replace k (Cell.ofAmount v)).Legible := by
  refine h.replace ?_
  cases k <;> first | exact Cell.readable_ofAmount v | cases hk

theorem credited (h : s.Legible) (hc : Credited s s' k n) (hk : k.counted.isSome) : s'.Legible := by
  obtain ⟨v, rfl, -⟩ := hc
  exact h.replace_amount k v hk

theorem debited (h : s.Legible) (hd : Debited s s' k n) (hk : k.counted.isSome) : s'.Legible := by
  obtain ⟨v, rfl, -⟩ := hd
  exact h.replace_amount k v hk

theorem registered (h : s.Legible) {a : Identifier} {r : AssetRecord} (hr : Registered s s' a r) : s'.Legible := by
  obtain ⟨bytes, hbytes, rfl⟩ := hr
  refine h.replace (k := .asset a) fun written hw => ?_
  cases hw
  exact ⟨r, AssetRecord.decode_encode hbytes⟩

theorem lowered (h : s.Legible) {a : Identifier} {r : AssetRecord} {supply : UInt64}
    (hl : Lowered s s' a r supply) : s'.Legible := by
  unfold Lowered at hl
  split at hl
  · exact hl ▸ h.replace nofun
  · exact h.registered hl

theorem stableOnBalances : StableOnBalances Legible where
  credited hc h := h.credited hc rfl
  debited hd h := h.debited hd rfl

theorem of_wellFormed (h : s.WellFormed) : s.Legible := by
  intro k
  cases k with
  | balance owner x => exact h.readable (k := .balance owner x) rfl
  | loan x d => exact h.readable (k := .loan x d) rfl
  | asset x => exact h.decodes_asset x
  | _ => trivial

theorem balance (h : s.Legible) (owner : Address) (asset : Identifier) :
    ∃ v : UInt64, (Ledger.balance owner asset).runOn s = .ok v ∧ v.toNat = s.amount (.balance owner asset) := by
  obtain ⟨v, hv⟩ := Cell.exists_toNat_eq_amount (s.stored (.balance owner asset))
  exact ⟨v, balance_runOn_iff.2 ⟨h (.balance owner asset), hv⟩, hv⟩

theorem loan (h : s.Legible) (asset destination : Identifier) :
    ∃ v : UInt64, (Ledger.loan asset destination).runOn s = .ok v ∧ v.toNat = s.amount (.loan asset destination) := by
  obtain ⟨v, hv⟩ := Cell.exists_toNat_eq_amount (s.stored (.loan asset destination))
  exact ⟨v, loan_runOn_iff.2 ⟨h (.loan asset destination), hv⟩, hv⟩

theorem asset? (h : s.Legible) (a : Identifier) : (Ledger.asset? a).runOn s = .ok (s.asset? a) :=
  (LedgerRead.runOn_store ..).trans (asset?_iff.2 ⟨h (.asset a), rfl⟩)

end Legible
end Store

/-- A swap offers no more than the value of its transfer. -/
theorem Bridge.SwapTerms.amountIn_le {terms : SwapTerms} {value : UInt64} (h : terms.valid value = true) :
    terms.amountIn ≤ value := by
  unfold valid at h
  split at h
  · cases h
  · rename_i hfits
    exact UInt64.not_lt.1 fun hlt => hfits (.inr hlt)

namespace Action

/-- The import of a verified message that brings `n` units of an asset home from a chain. -/
def Redeems (action : Action) (ctx : Context) (asset source : Identifier) (n : Nat) : Prop :=
  ∃ a, action = .importAsset a ∧ ctx.verified = true ∧ a.transfer.returning = true ∧ a.transfer.asset = asset ∧
    a.message.source = source ∧ a.transfer.units = n

/-- The minting of `n` units by the owner of a local asset that is not the native one. -/
def Mints (action : Action) (ctx : Context) (asset : Identifier) (record : AssetRecord) (n : Nat) : Prop :=
  ∃ a, action = .mint a ∧ a.asset = asset ∧ asset ≠ .empty ∧ record.owner = ctx.actor ∧ record.bridged = false ∧
    a.value.toNat = n

def Delivers (action : Action) (ctx : Context) (asset : Identifier) (record : AssetRecord) (n : Nat) : Prop :=
  ∃ a, action = .importAsset a ∧ ctx.verified = true ∧ a.transfer.returning = false ∧
    a.origin.bridgedAsset = asset ∧ record.bridged = true ∧ a.transfer.units = n

def SendsHome (action : Action) (asset : Identifier) (record : AssetRecord) : Prop :=
  ∃ a, action = .exportAsset a ∧ a.asset = asset ∧ a.returning = true ∧ record.bridged = true

end Action

/-- What an action on the authority of its context may do to amounts and supplies. -/
structure Authorized (ctx : Context) (action : Action) (s s' : Store) : Prop where
  legible : s'.Legible
  balances : ∀ owner x, owner ≠ ctx.actor → s.amount (.balance owner x) ≤ s'.amount (.balance owner x)
  loans : ∀ x d, s.amount (.loan x d) ≤ s'.amount (.loan x d) ∨
    ∃ n, action.Redeems ctx x d n ∧ s.amount (.loan x d) = s'.amount (.loan x d) + n
  supplies : ∀ x record, s.asset? x = some record → s'.supply x = record.supply.toNat ∨
    (∃ n, (action.Mints ctx x record n ∨ action.Delivers ctx x record n) ∧ s'.supply x = record.supply.toNat + n) ∨
    ∃ n, action.SendsHome x record ∧ s'.supply x + n = record.supply.toNat ∧
      s'.amount (.balance ctx.actor x) + n = s.amount (.balance ctx.actor x)

namespace Authorized

variable {ctx : Context} {action : Action} {s s' : Store}

/-- An action that leaves loans and asset records alone is judged by the balances. -/
theorem of_frame {p : StateKey → Prop} (hlegible : s'.Legible) (hframe : Frame p s s') (hloan : ∀ x d, ¬p (.loan x d))
    (hasset : ∀ x, ¬p (.asset x))
    (hbalances : ∀ owner x, owner ≠ ctx.actor → s.amount (.balance owner x) ≤ s'.amount (.balance owner x)) :
    Authorized ctx action s s' where
  legible := hlegible
  balances := hbalances
  loans x d := .inl (Nat.le_of_eq (hframe.amount_eq (hloan x d)).symm)
  supplies x record hrecord := .inl (by rw [hframe.supply_eq (hasset x), supply_of_asset? hrecord])

theorem refl (hlegible : s.Legible) : Authorized ctx action s s :=
  of_frame (p := fun _ => False) hlegible (Frame.refl s) (fun _ _ => id) (fun _ => id) fun _ _ _ => Nat.le_refl _

/-- Where the native asset is local, its supply stays as it is: nobody mints it, and it neither arrives nor is sent home. -/
theorem native_supply (h : Authorized ctx action s s') {record : AssetRecord} (hrecord : s.asset? .empty = some record)
    (hlocal : record.bridged = false) : s'.supply .empty = record.supply.toNat := by
  obtain hsame | ⟨n, hmints | hdelivers, -⟩ | ⟨n, hsends, -⟩ := h.supplies .empty record hrecord
  · exact hsame
  · obtain ⟨a, -, -, hne, -⟩ := hmints
    exact absurd rfl hne
  · obtain ⟨a, -, -, -, -, hbridged, -⟩ := hdelivers
    cases hlocal.symm.trans hbridged
  · obtain ⟨a, -, -, -, hbridged⟩ := hsends
    cases hlocal.symm.trans hbridged

end Authorized

namespace Action

variable {s s' : Store} {y : Yield} {ctx : Context}

private theorem balance_ne {owner actor : Address} {x y : Identifier} (h : owner ≠ actor) :
    StateKey.balance owner x ≠ .balance actor y := fun heq => h (StateKey.balance.inj heq).1

/-- Minting is for the owner of an asset that is not the native one. -/
theorem Mint.owned {a : Mint} (h : Yields (a.execute ctx) s y s') {record : AssetRecord}
    (hrecord : s.asset? a.asset = some record) : a.asset ≠ .empty ∧ record.owner = ctx.actor := by
  simp only [execute, refuseIf_bind_iff, read_bind_iff, asset?_iff, hrecord] at h
  obtain ⟨hnative, -, _, ⟨-, rfl⟩, h⟩ := h
  simp only [refuseIf_bind_iff] at h
  exact ⟨Identifier.isEmpty_eq_false_iff.1 hnative, by simpa using h.1⟩

theorem Payment.authorized {a : Payment} (h : Yields (a.execute ctx) s y s') (hlegible : s.Legible) :
    Authorized ctx (.payment a) s s' := by
  obtain ⟨-, t, hdebit, hcredit⟩ := of_yields h
  refine .of_frame ((hlegible.debited hdebit rfl).credited hcredit rfl) (frame h) (fun _ _ => id) (fun _ => id) ?_
  intro owner x howner
  have hout := amount_of_debited hdebit (.balance owner x)
  have hin := amount_of_credited hcredit (.balance owner x)
  rw [if_neg (balance_ne howner)] at hout
  omega

theorem Mint.authorized {a : Mint} (h : Yields (a.execute ctx) s y s') (hlegible : s.Legible) :
    Authorized ctx (.mint a) s s' := by
  obtain ⟨-, record, supply, t, hrecord, hlocal, hsum, -, hcredit, hset⟩ := of_yields h
  obtain ⟨hnative, howner⟩ := owned h hrecord
  have hframe := frame h
  refine ⟨(hlegible.credited hcredit rfl).registered hset, fun owner x _ => ?_, fun x d => .inl ?_, fun x r hr => ?_⟩
  · have hset : Frame (· = .asset a.asset) t s' := Frame.registered hset rfl
    rw [hset.amount_eq (by simp), amount_of_credited hcredit]
    exact Nat.le_add_right ..
  · exact Nat.le_of_eq (hframe.amount_eq (by simp [StateKey.IsBalance])).symm
  · by_cases hx : x = a.asset
    · subst hx
      cases hrecord.symm.trans hr
      exact .inr (.inl ⟨_, .inl ⟨a, rfl, rfl, hnative, howner, hlocal, rfl⟩,
        (supply_registered hset).trans hsum⟩)
    · exact .inl (by rw [hframe.supply_eq (by simp [StateKey.IsBalance, hx]), supply_of_asset? hr])

theorem CreateAsset.authorized {a : CreateAsset} (h : Yields (a.execute ctx) s y s') (hlegible : s.Legible)
    (hnew : s.asset? ctx.transaction = none) : Authorized ctx (.createAsset a) s s' := by
  obtain ⟨-, -, -, -, -, hset⟩ := of_yields h
  have hframe : Frame (· = .asset ctx.transaction) s s' := Frame.registered hset rfl
  refine ⟨hlegible.registered hset, fun owner x _ => ?_, fun x d => .inl ?_, fun x r hr => .inl ?_⟩
  · exact Nat.le_of_eq (hframe.amount_eq (by simp)).symm
  · exact Nat.le_of_eq (hframe.amount_eq (by simp)).symm
  · have hx : x ≠ ctx.transaction := by
      rintro rfl
      cases hnew.symm.trans hr
    rw [hframe.supply_eq (by simpa using hx), supply_of_asset? hr]

private theorem authorized_nft {action : Action} {nft : Identifier} {bytes : Octets} (hlegible : s.Legible) :
    Authorized ctx action s (s.replace (.nft nft) (some bytes)) :=
  have hframe : Frame (· = .nft nft) s (s.replace (.nft nft) (some bytes)) := Frame.replace _ rfl
  .of_frame (hlegible.replace trivial) hframe (fun _ _ => nofun) (fun _ => nofun) fun _ _ _ =>
    Nat.le_of_eq (hframe.amount_eq (by simp)).symm

namespace Export

variable {a : Export} {record : AssetRecord} {total : UInt64} {asset : Identifier}

theorem lend_authorized (h : Yields (a.lend record ctx.actor total) s asset s') (hlegible : s.Legible) :
    Authorized ctx (.exportAsset a) s s' := by
  obtain ⟨-, -, t, hdebit, hcredit⟩ := of_lend h
  have hframe := lend_frame h
  refine ⟨(hlegible.debited hdebit rfl).credited hcredit rfl, fun owner x howner => ?_, fun x d => .inl ?_,
    fun x r hr => .inl ?_⟩
  · have hout := amount_of_debited hdebit (.balance owner x)
    have hin := amount_of_credited hcredit (.balance owner x)
    rw [if_neg (balance_ne howner)] at hout
    omega
  · have hout := amount_of_debited hdebit (.loan x d)
    have hin := amount_of_credited hcredit (.loan x d)
    rw [if_neg nofun] at hout
    omega
  · rw [hframe.supply_eq (by simp [StateKey.IsBalance]), supply_of_asset? hr]

theorem burn_authorized (h : Yields (a.burn record ctx.actor total) s asset s') (hlegible : s.Legible)
    (hreturning : a.returning = true) (hrecord : s.asset? a.asset = some record) :
    Authorized ctx (.exportAsset a) s s' := by
  obtain ⟨hbridged, -, t, supply, hdebit, hsum, hrest⟩ := of_burn h
  have hframe := burn_frame h
  have hlast : Frame (· = .asset a.asset) t s' := hrest.frame rfl
  refine ⟨(hlegible.debited hdebit rfl).lowered hrest, fun owner x howner => ?_, fun x d => .inl ?_, fun x r hr => ?_⟩
  · have hout := amount_of_debited hdebit (.balance owner x)
    rw [if_neg (balance_ne howner), Nat.add_zero] at hout
    exact Nat.le_of_eq (hout.symm.trans (hlast.amount_eq (by simp)).symm)
  · exact Nat.le_of_eq (hframe.amount_eq (by simp [StateKey.IsBalance])).symm
  · by_cases hx : x = a.asset
    · subst hx
      cases hrecord.symm.trans hr
      refine .inr (.inr ⟨total.toNat, ⟨a, rfl, rfl, hreturning, hbridged⟩, by rw [hrest.supply_eq, hsum], ?_⟩)
      rw [hlast.amount_eq (by simp), amount_debited hdebit]
    · exact .inl (by rw [hframe.supply_eq (by simp [StateKey.IsBalance, hx]), supply_of_asset? hr])

theorem authorized (h : Yields (a.execute ctx) s y s') (hlegible : s.Legible) :
    Authorized ctx (.exportAsset a) s s' := by
  obtain ⟨-, -, -, -, record, total, asset, t, message, bytes, -, hrecord, hmove, -, -, -, -, rfl, -⟩ := of_yields h
  have hmoved : Authorized ctx (.exportAsset a) s t := by
    split at hmove
    · exact burn_authorized hmove hlegible ‹_› hrecord
    · exact lend_authorized hmove hlegible
  have hsent : Frame (· = .outgoing ctx.transaction) t (t.replace (.outgoing ctx.transaction) (some bytes)) :=
    Frame.replace _ rfl
  refine ⟨hmoved.legible.replace trivial, fun owner x howner => ?_, fun x d => ?_, fun x r hr => ?_⟩
  · rw [hsent.amount_eq (by simp)]
    exact hmoved.balances owner x howner
  · rw [hsent.amount_eq (by simp)]
    exact hmoved.loans x d
  · rw [hsent.supply_eq (by simp), hsent.amount_eq (by simp)]
    exact hmoved.supplies x r hr

end Export

namespace Import

variable {a : Import} {asset id : Identifier} {t : Store}

theorem Distributes.balance_le (h : Distributes a ctx asset id t s') {owner : Address} (howner : owner ≠ ctx.actor)
    (x : Identifier) : t.amount (.balance owner x) ≤ s'.amount (.balance owner x) := by
  obtain ⟨u, v, w, hvalue, hreward, hswap, rfl⟩ := h
  have hoffered := UInt64.le_iff_toNat_le.1 (Bridge.SwapTerms.amountIn_le a.acceptable.swap)
  have hmark : Frame (· = .incoming a.message.source id) w (w.replace (.incoming a.message.source id) (some [])) :=
    Frame.replace _ rfl
  have hu := amount_of_credited (addBalance_iff.1 hvalue).2 (.balance owner x)
  have hv : v.amount (.balance owner x) = u.amount (.balance owner x) := by
    split at hreward
    · have hpaid := amount_of_credited (addBalance_iff.1 hreward).2 (.balance owner x)
      rwa [if_neg (balance_ne howner)] at hpaid
    · rw [hreward]
  rw [hmark.amount_eq (by simp)]
  split at hswap
  · obtain ⟨w₁, w₂, w₃, h₁, h₂, h₃, h₄⟩ := of_settleSwap hswap
    have e₁ := amount_of_debited h₁ (.balance owner x)
    have e₂ := amount_of_credited h₂ (.balance owner x)
    have e₃ := amount_of_debited h₃ (.balance owner x)
    have e₄ := amount_of_credited h₄ (.balance owner x)
    rw [if_neg (balance_ne howner)] at e₁ e₄
    split at hu
    · rw [if_pos ‹_›] at e₃
      omega
    · rw [if_neg ‹_›] at e₃
      omega
  · rw [← hswap]
    omega

theorem Distributes.legible (h : Distributes a ctx asset id t s') (hlegible : t.Legible) : s'.Legible :=
  h.maintains Legible.stableOnBalances (fun _ hw => hw.replace trivial) hlegible

theorem release_authorized {total : UInt64} (h : Yields (release a.transfer a.message.source total) s asset t)
    (hrest : Distributes a ctx asset id t s') (hunits : total.toNat = a.transfer.units) (hverified : ctx.verified = true)
    (hreturning : a.transfer.returning = true) (hlegible : s.Legible) : Authorized ctx (.importAsset a) s s' := by
  have hfirst := release_frame h
  obtain ⟨rfl, -, -, -, hdebit⟩ := release_iff.1 h
  refine ⟨hrest.legible (hlegible.debited hdebit rfl), fun owner x howner => ?_, fun x d => ?_, fun x r hr => .inl ?_⟩
  · rw [← hfirst.amount_eq (k := .balance owner x) (by simp)]
    exact hrest.balance_le howner x
  · have hout := amount_of_debited hdebit (.loan x d)
    have hsame := hrest.frame.amount_eq (k := .loan x d) (by simp [StateKey.IsBalance])
    split at hout
    · rename_i hloan
      obtain ⟨rfl, rfl⟩ := StateKey.loan.inj hloan
      exact .inr ⟨_, ⟨a, rfl, hverified, hreturning, rfl, rfl, rfl⟩, by rw [hsame, ← hunits, hout]⟩
    · exact .inl (by omega)
  · rw [hrest.frame.supply_eq (by simp [StateKey.IsBalance]), hfirst.supply_eq (by simp), supply_of_asset? hr]

theorem mint_authorized {total : UInt64} (h : Yields (mint a.transfer a.message.source total) s asset t)
    (hrest : Distributes a ctx asset id t s') (hunits : total.toNat = a.transfer.units) (hverified : ctx.verified = true)
    (houtward : a.transfer.returning = false) (hlegible : s.Legible) : Authorized ctx (.importAsset a) s s' := by
  have hfirst := mint_frame h
  obtain ⟨rfl, -, record, supply, hjoins, hraise, -, hset⟩ := mint_iff.1 h
  refine ⟨hrest.legible (hlegible.registered hset), fun owner x howner => ?_, fun x d => .inl ?_, fun x r hr => ?_⟩
  · rw [← hfirst.amount_eq (k := .balance owner x) (by simp)]
    exact hrest.balance_le howner x
  · exact Nat.le_of_eq ((hrest.frame.amount_eq (by simp [StateKey.IsBalance])).trans (hfirst.amount_eq (by simp))).symm
  · rw [hrest.frame.supply_eq (by simp [StateKey.IsBalance])]
    by_cases hx : x = Bridge.Origin.bridgedAsset ⟨a.transfer.asset, a.message.source⟩
    · subst hx
      rw [hr] at hjoins
      obtain ⟨rfl, hbridged, -⟩ := hjoins
      refine .inr (.inl ⟨_, .inr ⟨a, rfl, hverified, houtward, rfl, hbridged, rfl⟩, ?_⟩)
      rw [supply_registered hset, ← hunits]
      exact hraise
    · exact .inl (by rw [hfirst.supply_eq (by simpa using hx), supply_of_asset? hr])

theorem authorized (h : Yields (a.execute ctx) s y s') (hlegible : s.Legible) :
    Authorized ctx (.importAsset a) s s' := by
  obtain ⟨-, id, total, asset, t, hadmits, htotal, hmove, hrest⟩ := execute_iff.1 h
  have hunits := Bridge.Transfer.units_of_total? htotal
  split at hmove
  · exact release_authorized hmove hrest hunits hadmits.verified ‹_› hlegible
  · exact mint_authorized hmove hrest hunits hadmits.verified (by simpa using ‹¬a.transfer.returning = true›) hlegible

end Import

/-- Every action that succeeds keeps to the authority of its context, unless it creates an asset anew. -/
theorem authorized {action : Action} (h : Yields (action.perform ctx) s y s') (hlegible : s.Legible)
    (hnew : s.asset? ctx.transaction = none) : Authorized ctx action s s' := by
  cases action with
  | payment a => exact Payment.authorized h hlegible
  | mint a => exact Mint.authorized h hlegible
  | createAsset a => exact CreateAsset.authorized h hlegible hnew
  | createNft a =>
    obtain ⟨-, bytes, -, rfl⟩ := CreateNft.of_yields h
    exact authorized_nft hlegible
  | readNft a =>
    obtain ⟨-, rfl⟩ := ReadNft.of_yields h
    exact .refl hlegible
  | importAsset a => exact Import.authorized h hlegible
  | exportAsset a => exact Export.authorized h hlegible
  | transferNft a =>
    obtain ⟨-, record, bytes, -, -, -, rfl⟩ := TransferNft.of_yields h
    exact authorized_nft hlegible

end Action

/-- Executions keep to the authority of their context. Nobody but the actor loses units. A loan shrinks only when a
verified message of that chain brings units home, by just these units. The supply of an asset on record grows only when
its owner mints, or when a verified message brings units of a bridged asset; it shrinks only by what the actor sends
home; and the supply of the native asset, where it is local, stays as it is. -/
theorem execution_authorized {s : Store} {ctx : Context} (hlegible : s.Legible)
    (hnew : (Ledger.asset? ctx.transaction).runOn s = .ok none) (action : Action) :
    let s' := endState (Execution.execute ctx action) s
    (∀ owner x, owner ≠ ctx.actor → ∃ before after : UInt64, (Ledger.balance owner x).runOn s = .ok before ∧
      (Ledger.balance owner x).runOn s' = .ok after ∧ before ≤ after) ∧
    (∀ x d, ∃ before after : UInt64, (Ledger.loan x d).runOn s = .ok before ∧ (Ledger.loan x d).runOn s' = .ok after ∧
      (before ≤ after ∨ Execution.succeeded (Execution.execute ctx action) s = true ∧
        ∃ n, action.Redeems ctx x d n ∧ before.toNat = after.toNat + n)) ∧
    ∀ x record, (Ledger.asset? x).runOn s = .ok (some record) → ∃ record? : Option AssetRecord,
      (Ledger.asset? x).runOn s' = .ok record? ∧
      let supply := record?.elim 0 (·.supply.toNat)
      (supply = record.supply.toNat ∨ Execution.succeeded (Execution.execute ctx action) s = true ∧
        ((∃ n, (action.Mints ctx x record n ∨ action.Delivers ctx x record n) ∧ supply = record.supply.toNat + n) ∨
          ∃ n, action.SendsHome x record ∧ supply + n = record.supply.toNat ∧
            ∃ before after : UInt64, (Ledger.balance ctx.actor x).runOn s = .ok before ∧
              (Ledger.balance ctx.actor x).runOn s' = .ok after ∧ after.toNat + n = before.toNat)) ∧
      (x = .empty → record.bridged = false → supply = record.supply.toNat) := by
  have hnone : s.asset? ctx.transaction = none := by
    simpa only [hlegible.asset?, Except.ok.injEq] using hnew
  intro s'
  obtain ⟨hauthorized, heffect⟩ : Authorized ctx action s s' ∧
      (s' = s ∨ Execution.succeeded (Execution.execute ctx action) s = true) := by
    obtain hsame | ⟨hsucceeds, y, hyields⟩ := Execution.endState_execute s ctx action
    · exact ⟨(show s' = s from hsame).symm ▸ .refl hlegible, .inl hsame⟩
    · exact ⟨Action.authorized hyields hlegible hnone, .inr hsucceeds⟩
  have hlegible' := hauthorized.legible
  refine ⟨fun owner x howner => ?_, fun x d => ?_, fun x record hrecord => ?_⟩
  · obtain ⟨before, hbefore, hb⟩ := hlegible.balance owner x
    obtain ⟨after, hafter, ha⟩ := hlegible'.balance owner x
    refine ⟨before, after, hbefore, hafter, UInt64.le_iff_toNat_le.2 ?_⟩
    rw [hb, ha]
    exact hauthorized.balances owner x howner
  · obtain ⟨before, hbefore, hb⟩ := hlegible.loan x d
    obtain ⟨after, hafter, ha⟩ := hlegible'.loan x d
    refine ⟨before, after, hbefore, hafter, ?_⟩
    rw [UInt64.le_iff_toNat_le, hb, ha]
    obtain hsame | hsucceeds := heffect
    · exact .inl (Nat.le_of_eq (by rw [hsame]))
    · exact (hauthorized.loans x d).imp_right fun h => ⟨hsucceeds, h⟩
  · have hasset : s.asset? x = some record := by
      simpa only [hlegible.asset?, Except.ok.injEq] using hrecord
    refine ⟨s'.asset? x, hlegible'.asset? x, ?_, ?_⟩
    · obtain hsame | hsucceeds := heffect
      · exact .inl (by rw [hsame, hasset]; rfl)
      refine (hauthorized.supplies x record hasset).imp_right fun h => ⟨hsucceeds, h.imp_right ?_⟩
      rintro ⟨n, hsends, hsupply, hpaid⟩
      obtain ⟨before, hbefore, hb⟩ := hlegible.balance ctx.actor x
      obtain ⟨after, hafter, ha⟩ := hlegible'.balance ctx.actor x
      exact ⟨n, hsends, hsupply, before, after, hbefore, hafter, by rw [ha, hb, hpaid]⟩
    · rintro rfl hlocal
      exact hauthorized.native_supply hasset hlocal

namespace LentUnits

/-- The lent units come home, a hundred to another account, which sells forty of them to the importer for ten. -/
def homecoming : Bridge.Transfer :=
  ⟨.filled 3, [87], 9, .empty, 100, true, ⟨5, ⟨40, .empty, 10, 0⟩⟩, .filled 12, .filled 9⟩

def message : Bridge.Message := ⟨1, .filled 8, homecoming.encode.toOption.getD []⟩

theorem decode_message : Bridge.Transfer.decode message.payload = .ok homecoming :=
  Bridge.Transfer.decode_encode rfl (by decide) (by decide) (by decide) (by decide) (by decide)

def arrival : Context := { context with verified := true }

def redeeming : Action := .importAsset ⟨true, message, homecoming, decode_message⟩

def redeemed : Store := endState (Execution.execute arrival redeeming) exported.1

/-- The recipient, who pays for the swap out of what comes home, ends with seventy units; the loan was of 105. -/
theorem redeemed_authorized :
    (∃ before after : UInt64, (Ledger.balance (.filled 3) .empty).runOn exported.1 = .ok before ∧
      (Ledger.balance (.filled 3) .empty).runOn redeemed = .ok after ∧ before ≤ after ∧ after.toNat = 70) ∧
      ∃ n, redeeming.Redeems arrival .empty (.filled 8) n ∧ n = 105 := by
  have hlegible : exported.1.Legible := .of_wellFormed (Sound.of_reachable reachable).wellFormed
  have hnew : (Ledger.asset? arrival.transaction).runOn exported.1 = .ok none := by
    rw [hlegible.asset?]
    exact congrArg Except.ok (by decide +kernel)
  have hamounts : exported.1.amount (.loan .empty (.filled 8)) = 105 ∧
      redeemed.amount (.loan .empty (.filled 8)) = 0 ∧ redeemed.amount (.balance (.filled 3) .empty) = 70 := by
    decide +kernel
  obtain ⟨hlent, hreturned, hpaid⟩ := hamounts
  obtain ⟨hbalances, hloans, -⟩ := execution_authorized hlegible hnew redeeming
  obtain ⟨before, after, hbefore, hafter, hle⟩ := hbalances (.filled 3) .empty (by decide)
  refine ⟨⟨before, after, hbefore, hafter, hle, (balance_runOn_iff.1 hafter).2.trans hpaid⟩, ?_⟩
  obtain ⟨before, after, hbefore, hafter, hmove⟩ := hloans .empty (.filled 8)
  have hb := (loan_runOn_iff.1 hbefore).2.trans hlent
  have ha := (loan_runOn_iff.1 hafter).2.trans hreturned
  obtain hle | ⟨-, n, hredeems, hsum⟩ := hmove
  · rw [UInt64.le_iff_toNat_le] at hle
    omega
  · exact ⟨n, hredeems, by omega⟩

end LentUnits
end BridgeLedger
