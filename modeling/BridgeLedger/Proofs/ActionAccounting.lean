import BridgeLedger.Proofs.ActionEffects
import BridgeLedger.Proofs.BridgeWireFormat
import BridgeLedger.Proofs.LedgerInvariant

/-! The books of one chain under an action that succeeds. Units are moved, created and destroyed in balances and loans
exactly as the supply in the record of their asset says. -/
namespace BridgeLedger

open Store Yields

/-- What a successful action keeps: the form of the store, for every asset the difference between what is held and the
supply, and the local assets but for their supply. A new one is named by the transaction. -/
structure Keeps (transaction : Identifier) (s s' : Store) : Prop where
  wellFormed : s'.WellFormed
  balanced : s.asset? transaction = none → ∀ a, s'.held a + s.supply a = s.held a + s'.supply a
  named : ∀ a, (s'.local? a).isSome → a = transaction ∨ (s.local? a).isSome
  persists : ∀ a r, s.local? a = some r → a = transaction ∨ ∃ supply, s'.local? a = some { r with supply }

namespace Keeps

variable {transaction : Identifier} {s s' : Store} {p : StateKey → Prop}

/-- An action that leaves the asset records alone keeps what it has to if it only moves units about. -/
theorem of_frame (hwf : s'.WellFormed) (hframe : Frame p s s') (hp : ∀ a, ¬p (.asset a))
    (hheld : ∀ a, s'.held a = s.held a) : Keeps transaction s s' where
  wellFormed := hwf
  balanced _ a := by rw [hheld, hframe.supply_eq (hp a)]
  named a ha := .inr (by rwa [← hframe.local?_eq (hp a)])
  persists a r hr := .inr ⟨r.supply, by rw [hframe.local?_eq (hp a), hr]⟩

/-- An action that changes one asset record has to be looked at for this asset only. -/
theorem of_asset (x : Identifier) (hwf : s'.WellFormed) (hframe : Frame p s s') (hp : ∀ a, a ≠ x → ¬p (.asset a))
    (hheld : ∀ a, a ≠ x → s'.held a = s.held a)
    (hx : s.asset? transaction = none → s'.held x + s.supply x = s.held x + s'.supply x)
    (hnamed : (s'.local? x).isSome → x = transaction ∨ (s.local? x).isSome)
    (hpersists : ∀ r, s.local? x = some r → x = transaction ∨ ∃ supply, s'.local? x = some { r with supply }) :
    Keeps transaction s s' where
  wellFormed := hwf
  balanced hnone a := by
    by_cases ha : a = x
    · rw [ha, hx hnone]
    · rw [hheld a ha, hframe.supply_eq (hp a ha)]
  named a := by
    by_cases ha : a = x
    · exact ha ▸ hnamed
    · exact fun hsome => .inr (by rwa [← hframe.local?_eq (hp a ha)])
  persists a := by
    by_cases ha : a = x
    · exact ha ▸ hpersists
    · exact fun r hr => .inr ⟨r.supply, by rw [hframe.local?_eq (hp a ha), hr]⟩

/-- What is kept is kept when only records without units change afterwards. -/
theorem then_replace {k : StateKey} {v : Option Octets} (h : Keeps transaction s s') (hwf : (s'.replace k v).WellFormed)
    (hk : k.counted = none) (ha : ∀ a, .asset a ≠ k) : Keeps transaction s (s'.replace k v) := by
  have hframe : Frame (· = k) s' (s'.replace k v) := Frame.replace v rfl
  refine ⟨hwf, fun hnone a => ?_, fun a => ?_, fun a => ?_⟩
  · rw [held_replace_of_not_counted s' v a hk, hframe.supply_eq (ha a)]
    exact h.balanced hnone a
  · rw [hframe.local?_eq (ha a)]
    exact h.named a
  · rw [hframe.local?_eq (ha a)]
    exact h.persists a

end Keeps

namespace Action

variable {s s' : Store} {y : Yield} {ctx : Context}

theorem Payment.keeps {a : Payment} (h : Yields (a.execute ctx) s y s') (hwf : s.WellFormed) :
    Keeps ctx.transaction s s' := by
  obtain ⟨-, t, hdebit, hcredit⟩ := of_yields h
  refine .of_frame ((hwf.debited hdebit rfl).credited hcredit rfl) (frame h) (fun _ => id) fun b => ?_
  rw [held_credited hcredit rfl, held_debited hdebit rfl]

theorem Mint.keeps {a : Mint} (h : Yields (a.execute ctx) s y s') (hwf : s.WellFormed) :
    Keeps ctx.transaction s s' := by
  obtain ⟨-, record, supply, t, hrecord, hlocal, hsum, hcap, hcredit, hset⟩ := of_yields h
  have hwf' : s'.WellFormed :=
    (hwf.credited hcredit rfl).registered hset ((hwf.proper hrecord).with_supply hcap)
  have hheld (b : Identifier) : s'.held b = s.held b + if a.asset = b then a.value.toNat else 0 := by
    rw [held_registered hset, held_credited hcredit rfl]
  have hbefore : s.local? a.asset = some record := local?_eq_some.2 ⟨hrecord, hlocal⟩
  refine .of_asset a.asset hwf' (frame h) (fun b hb => by simp [StateKey.IsBalance, hb]) (fun b hb => ?_) (fun _ => ?_)
    (fun _ => .inr (by rw [hbefore]; rfl)) fun r hr => .inr ⟨supply, ?_⟩
  · rw [hheld, if_neg hb.symm, Nat.add_zero]
  · rw [hheld, if_pos rfl, supply_of_asset? hrecord, supply_registered hset]
    simp only [hsum]
    omega
  · cases hbefore.symm.trans hr
    exact local?_eq_some.2 ⟨asset?_registered hset, hlocal⟩

theorem CreateAsset.keeps {a : CreateAsset} (h : Yields (a.execute ctx) s y s') (hwf : s.WellFormed) :
    Keeps ctx.transaction s s' := by
  obtain ⟨-, hsymbol, hlength, hmetadata, hcap, hset⟩ := of_yields h
  have hwf' : s'.WellFormed := hwf.registered hset ⟨by simp, hcap, ⟨hsymbol, hlength⟩, hmetadata⟩
  refine .of_asset ctx.transaction hwf' (Frame.registered hset rfl) (fun b hb => by simpa [eq_comm] using hb)
    (fun b _ => held_registered hset b) (fun hnone => ?_) (fun _ => .inl rfl) fun _ _ => .inl rfl
  rw [held_registered hset, supply, hnone, supply_registered hset]
  rfl

/-- Writing a token record concerns no asset. -/
private theorem keeps_nft {nft : Identifier} {record : NftRecord} {bytes : Octets} (hwf : s.WellFormed)
    (hbytes : record.encode = .ok bytes) : Keeps ctx.transaction s (s.replace (.nft nft) (some bytes)) := by
  refine .of_frame (hwf.replace fun written hw => ?_) (Frame.replace (p := (· = .nft nft)) _ rfl) (fun _ => nofun)
    fun b => held_replace_of_not_counted s _ b rfl
  cases hw
  exact ⟨record, NftRecord.decode_encode hbytes⟩

namespace Export

variable {a : Export} {record : AssetRecord} {actor : Address} {total : UInt64} {asset transaction : Identifier}

theorem lend_keeps (h : Yields (a.lend record actor total) s asset s') (hwf : s.WellFormed) :
    Keeps transaction s s' := by
  obtain ⟨-, -, t, hdebit, hcredit⟩ := of_lend h
  refine .of_frame ((hwf.debited hdebit rfl).credited hcredit rfl) (lend_frame h)
    (fun _ => by simp [StateKey.IsBalance]) fun b => ?_
  rw [held_credited hcredit rfl, held_debited hdebit rfl]

theorem burn_keeps (h : Yields (a.burn record actor total) s asset s') (hwf : s.WellFormed)
    (hrecord : s.asset? a.asset = some record) : Keeps transaction s s' := by
  obtain ⟨hbridged, -, t, supply, hdebit, hsum, hrest⟩ := of_burn h
  have hproper := hwf.proper hrecord
  have hcap : supply ≤ record.maxSupply := by
    rw [UInt64.le_iff_toNat_le]
    have := UInt64.le_iff_toNat_le.1 hproper.capped
    omega
  have hforeign : s'.local? a.asset = none := by
    have hasset := hrest.asset?_eq
    split at hasset
    · exact local?_of_none hasset
    · exact local?_of_bridged hasset hbridged
  refine .of_asset a.asset ((hwf.debited hdebit rfl).lowered hrest hproper hcap) (burn_frame h)
    (fun b hb => by simp [StateKey.IsBalance, hb]) (fun b hb => ?_) (fun _ => ?_) (fun hsome => ?_) fun r hr => ?_
  · have := held_debited hdebit rfl b
    rw [if_neg hb.symm] at this
    rw [held_lowered hrest, ← this, Nat.add_zero]
  · have := held_debited hdebit rfl a.asset
    rw [if_pos rfl] at this
    rw [held_lowered hrest, hrest.supply_eq, supply_of_asset? hrecord]
    omega
  · rw [hforeign] at hsome
    cases hsome
  · obtain ⟨hr, hlocal⟩ := local?_eq_some.1 hr
    cases hrecord.symm.trans hr
    exact absurd (hbridged.symm.trans hlocal) (by decide)

theorem keeps (h : Yields (a.execute ctx) s y s') (hwf : s.WellFormed) : Keeps ctx.transaction s s' := by
  obtain ⟨-, -, -, -, record, total, asset, t, message, bytes, -, hrecord, hmove, -, -, -, -, rfl, -⟩ := of_yields h
  have hkeeps : Keeps ctx.transaction s t := by
    split at hmove
    · exact burn_keeps hmove hwf hrecord
    · exact lend_keeps hmove hwf
  exact hkeeps.then_replace (hkeeps.wellFormed.replace fun _ _ => trivial) rfl fun _ => nofun

end Export

namespace Import

/-- The transfer of an import was read, so it keeps the rules of the format. -/
theorem acceptable (a : Import) : a.transfer.Acceptable := (Bridge.Transfer.decode_iff.1 a.decoded).2

theorem settleSwap_held {t : Bridge.Transfer} {asset : Identifier} {actor : Address} {u : Unit}
    (h : Yields (settleSwap t asset actor) s u s') (b : Identifier) : s'.held b = s.held b := by
  obtain ⟨s₁, s₂, s₃, h₁, h₂, h₃, h₄⟩ := of_settleSwap h
  have := held_debited h₁ rfl b
  have := held_credited h₂ rfl b
  have := held_debited h₃ rfl b
  have := held_credited h₄ rfl b
  omega

variable {a : Import} {asset message : Identifier}

/-- The units that have arrived go to the recipient and the actor. -/
theorem Distributes.held (h : Distributes a ctx asset message s s') (b : Identifier) :
    s'.held b = s.held b + if asset = b then a.transfer.value.toNat + a.transfer.terms.reward.toNat else 0 := by
  obtain ⟨u, v, w, hvalue, hreward, hswap, rfl⟩ := h
  have hu := held_credited (addBalance_iff.1 hvalue).2 rfl b
  have hv : v.held b = u.held b + if asset = b then a.transfer.terms.reward.toNat else 0 := by
    split at hreward
    · exact held_credited (addBalance_iff.1 hreward).2 rfl b
    · rename_i hzero
      have : a.transfer.terms.reward.toNat = 0 := by simpa [UInt64.lt_iff_toNat_lt] using hzero
      simp [this, hreward]
  have hw : w.held b = v.held b := by
    split at hswap
    · exact settleSwap_held hswap b
    · rw [hswap]
  rw [held_replace_of_not_counted w _ b rfl, hw, hv, hu]
  by_cases hb : asset = b
  · simp only [if_pos hb]
    omega
  · simp only [if_neg hb]

theorem Distributes.wellFormed (h : Distributes a ctx asset message s s') (hwf : s.WellFormed) : s'.WellFormed :=
  h.maintains WellFormed.stableOnBalances (fun _ hw => hw.replace fun _ _ => trivial) hwf

theorem proper_of_joins {t : Bridge.Transfer} {origin : Bridge.Origin} {record : AssetRecord}
    (hwf : s.WellFormed) (hsymbol : t.symbol ≠ [] ∧ t.symbol.length ≤ Limits.maxSymbol)
    (h : Joins t origin record (s.asset? origin.bridgedAsset)) : record.Proper := by
  cases hr : s.asset? origin.bridgedAsset with
  | none =>
    rw [hr] at h
    cases h
    exact ⟨show (0 : UInt64) ≤ Limits.maxSupply by decide, show Limits.maxSupply ≤ Limits.maxSupply by decide, hsymbol,
      by simp [freshRecord, Bridge.Origin.metadata, Limits.maxMetadata]⟩
  | some r =>
    rw [hr] at h
    exact h.1 ▸ hwf.proper hr

theorem release_keeps {total : UInt64} {t : Store}
    (h : Yields (release a.transfer a.message.source total) s asset t) (hrest : Distributes a ctx asset message t s')
    (hsum : total.toNat = a.transfer.value.toNat + a.transfer.terms.reward.toNat) (hwf : s.WellFormed) :
    Keeps ctx.transaction s s' := by
  obtain ⟨rfl, -, -, -, hdebit⟩ := release_iff.1 h
  have hframe : Frame (fun k => ∀ b, k ≠ .asset b) s s' := by
    refine (Frame.debited hdebit fun _ => nofun).trans (hrest.frame.mono ?_)
    rintro k hk b rfl
    obtain hk | hk := hk
    · exact hk
    · cases hk
  refine .of_frame (hrest.wellFormed (hwf.debited hdebit rfl)) hframe (fun b hb => hb b rfl) fun b => ?_
  have := held_debited hdebit rfl b
  rw [hrest.held, ← this, hsum]

theorem mint_keeps {total : UInt64} {t : Store} (h : Yields (mint a.transfer a.message.source total) s asset t)
    (hrest : Distributes a ctx asset message t s')
    (hsum : total.toNat = a.transfer.value.toNat + a.transfer.terms.reward.toNat) (hwf : s.WellFormed) :
    Keeps ctx.transaction s s' := by
  obtain ⟨hasset, -, record, supply, hjoins, hraise, hcap, hset⟩ := mint_iff.1 h
  obtain ⟨hsupply, hnone, hbridged, -⟩ := hjoins.of_asset?
  have hproper := proper_of_joins hwf a.acceptable.symbol hjoins
  have hwft := hwf.registered hset (hproper.with_supply hcap)
  rw [← hasset] at hset hsupply hnone
  have hframe : Frame (fun k => k.IsBalance ∨ k = .incoming a.message.source message ∨ k = .asset asset) s s' :=
    (Frame.registered hset (.inr (.inr rfl))).trans (hrest.frame.mono fun _ hk => hk.imp id .inl)
  have hafter : s'.asset? asset = some { record with supply } := by
    rw [hrest.frame.asset?_eq (by simp [StateKey.IsBalance]), asset?_registered hset]
  have hforeign : s'.local? asset = none := local?_of_bridged hafter hbridged
  refine .of_asset asset (hrest.wellFormed hwft) hframe (fun b hb => by simp [StateKey.IsBalance, hb]) (fun b hb => ?_)
    (fun _ => ?_) (fun hsome => ?_) fun r hr => ?_
  · rw [hrest.held, held_registered hset, if_neg hb.symm, Nat.add_zero]
  · rw [hrest.held, held_registered hset, if_pos rfl, hsupply, supply_of_asset? hafter]
    simp only [hraise]
    omega
  · rw [hforeign] at hsome
    cases hsome
  · rw [hnone] at hr
    cases hr

theorem keeps (h : Yields (a.execute ctx) s y s') (hwf : s.WellFormed) : Keeps ctx.transaction s s' := by
  obtain ⟨-, message, total, asset, t, -, htotal, hmove, hrest⟩ := execute_iff.1 h
  have hsum := Amount.toNat_of_add?_eq_some htotal
  split at hmove
  · exact release_keeps hmove hrest hsum hwf
  · exact mint_keeps hmove hrest hsum hwf

end Import

/-- Every action that succeeds keeps the form of the ledger and the balance of its books. -/
theorem keeps {action : Action} (h : Yields (action.perform ctx) s y s') (hwf : s.WellFormed) :
    Keeps ctx.transaction s s' := by
  cases action with
  | payment a => exact Payment.keeps h hwf
  | mint a => exact Mint.keeps h hwf
  | createAsset a => exact CreateAsset.keeps h hwf
  | createNft a =>
    obtain ⟨-, bytes, hbytes, rfl⟩ := CreateNft.of_yields h
    exact keeps_nft hwf hbytes
  | readNft a =>
    obtain ⟨-, rfl⟩ := ReadNft.of_yields h
    exact .of_frame hwf (Frame.refl (p := fun _ => False) _) (fun _ => id) fun _ => rfl
  | importAsset a => exact Import.keeps h hwf
  | exportAsset a => exact Export.keeps h hwf
  | transferNft a =>
    obtain ⟨-, record, bytes, -, -, hbytes, rfl⟩ := TransferNft.of_yields h
    exact keeps_nft hwf hbytes

end Action
end BridgeLedger
