import BridgeLedger.Proofs.ActionAccounting
import BridgeLedger.Proofs.ImportHalts
import BridgeLedger.Proofs.LedgerHalts
import BridgeLedger.Proofs.WireLengths

/-! No action meets a fault of the ledger. On a store whose books are in order every step of every action finds what it
reads, writes what it has to, and has room for what it credits: an action halts only because it is refused, and never
for an amount that grew too large. -/
namespace BridgeLedger

open Store Yields

/-- The books of a store are in order, and the records of bridged assets tell their origins. -/
structure Store.InOrder (s : Store) : Prop where
  wellFormed : s.WellFormed
  conserved : ∀ a, s.held a = s.supply a
  rooted : ∀ x r, s.bridged? x = some r → ∃ o : Bridge.Origin, r.metadata = o.metadata

theorem Store.InOrder.fits {s : Store} (h : s.InOrder) {asset : Identifier} {n : Nat}
    (hn : s.supply asset + n ≤ Limits.maxSupply.toNat) : s.Fits asset n where
  wellFormed := h.wellFormed
  held_le x := by
    have hsupply := h.wellFormed.supply_le x
    rw [h.conserved x]
    split
    · rename_i hx
      rwa [← hx]
    · exact hsupply

theorem Store.InOrder.fits_zero {s : Store} (h : s.InOrder) (asset : Identifier) : s.Fits asset 0 :=
  h.fits (h.wellFormed.supply_le asset)

namespace Action

open Halt (Tame)

variable {s : Store} {ctx : Context}

private theorem spares_tame : Halt.Spares Tame := fun reason hreason => by
  cases reason <;> trivial

theorem Payment.halts (h : s.InOrder) (a : Payment) : OnlyHalts Tame (a.execute ctx) s := by
  refine .check_bind spares_tame fun _ => .check_bind spares_tame fun _ => .bind (.staged ?_) fun _ _ _ => .pure
  refine .bind (.subBalance h.wellFormed) fun _ t hy => ?_
  obtain ⟨-, hdebit⟩ := subBalance_iff.1 (ledger_iff.1 hy)
  exact .addBalance ((h.fits_zero .empty).debited hdebit rfl) (Nat.le_add_left ..)

theorem Mint.halts (h : s.InOrder) (a : Mint) : OnlyHalts Tame (a.execute ctx) s := by
  refine .check_bind spares_tame fun _ => .check_bind spares_tame fun _ => .lookup_bind (.asset? h.wellFormed) ?_
  intro record? hread
  obtain ⟨-, hrecord⟩ := asset?_iff.1 hread
  cases record? with
  | none => exact .refuse spares_tame
  | some record =>
    have hproper := h.wellFormed.proper hrecord
    refine .check_bind spares_tame fun _ => .check_bind spares_tame fun _ => ?_
    split
    · rename_i supply hsupply
      have hsum := Amount.toNat_of_add?_eq_some hsupply
      refine .check_bind spares_tame fun hcap => ?_
      have hcap : supply ≤ record.maxSupply := by simpa using hcap
      have hroom : s.Fits a.asset a.value.toNat := h.fits (by
        rw [supply_of_asset? hrecord, ← hsum]
        exact Nat.le_trans (UInt64.le_iff_toNat_le.1 hcap) (UInt64.le_iff_toNat_le.1 hproper.limited))
      exact .bind (.addBalance hroom (Nat.le_refl _)) fun _ _ _ => .bind (.setAsset (hproper.with_supply hcap))
        fun _ _ _ => .pure
    · exact .refuse spares_tame

theorem CreateAsset.halts (a : CreateAsset) : OnlyHalts Tame (a.execute ctx) s := by
  refine .check_bind spares_tame fun hsymbol => .check_bind spares_tame fun hlength => .check_bind spares_tame fun _ =>
    .check_bind spares_tame fun _ => .check_bind spares_tame fun hmetadata => .check_bind spares_tame fun hcap =>
      .bind (.setAsset ?_) fun _ _ _ => .pure
  simp only [List.isEmpty_eq_false_iff, decide_eq_false_iff_not, Nat.not_lt, UInt64.not_lt]
    at hsymbol hlength hmetadata hcap
  exact ⟨by simp, hcap, ⟨hsymbol, hlength⟩, hmetadata⟩

private theorem setNft {nft : Identifier} {record : NftRecord} (hmetadata : record.metadata.length ≤ Wire.maxPrefixed)
    (hurl : record.url.length ≤ Wire.maxPrefixed) :
    OnlyHalts Tame (liftM (Ledger.setNft nft record) : ActionScript _) s := by
  obtain ⟨bytes, hbytes⟩ := NftRecord.encode_isOk hmetadata hurl
  exact .operation (a := ()) (setNft_iff.2 ⟨bytes, hbytes, rfl⟩)

theorem CreateNft.halts (a : CreateNft) : OnlyHalts Tame (a.execute ctx) s := by
  refine .check_bind spares_tame fun _ => .check_bind spares_tame fun hmetadata => .check_bind spares_tame fun _ =>
    .check_bind spares_tame fun hurl => .bind (setNft ?_ ?_) fun _ _ _ => .pure
  · exact Nat.le_trans (by simpa using hmetadata) (show Limits.maxMetadata ≤ Wire.maxPrefixed by decide)
  · exact Nat.le_trans (by simpa using hurl) (show Limits.maxUrl ≤ Wire.maxPrefixed by decide)

private theorem nft?_bind {α : Type} (h : s.InOrder) {nft : Identifier} {f : Option NftRecord → ActionScript α}
    (hf : ∀ record?, (∀ r ∈ record?, r.metadata.length ≤ Wire.maxPrefixed ∧ r.url.length ≤ Wire.maxPrefixed) →
      OnlyHalts Tame (f record?) s) : OnlyHalts Tame ((liftM (Ledger.nft? nft) : ActionScript _) >>= f) s := by
  have hdecodes : Decodes NftRecord.decode (s.stored (.nft nft)) := fun bytes hbytes => h.wellFormed.admits hbytes
  refine .read_bind (nft?_iff.2 ⟨hdecodes, rfl⟩) (hf _ fun r hr => ?_)
  obtain ⟨bytes, -, hdecode⟩ := decoded_eq_some.1 hr
  exact NftRecord.lengths_of_decode hdecode

theorem ReadNft.halts (h : s.InOrder) (a : ReadNft) : OnlyHalts Tame a.execute s := by
  refine .check_bind spares_tame fun _ => nft?_bind h fun record? _ => ?_
  cases record? with
  | none => exact .refuse spares_tame
  | some record => exact .pure

theorem TransferNft.halts (h : s.InOrder) (a : TransferNft) : OnlyHalts Tame (a.execute ctx) s := by
  refine .check_bind spares_tame fun _ => nft?_bind h fun record? hlengths => ?_
  cases record? with
  | none => exact .refuse spares_tame
  | some record =>
    obtain ⟨hmetadata, hurl⟩ := hlengths record rfl
    exact .check_bind spares_tame fun _ => .bind (setNft hmetadata hurl) fun _ _ _ => .pure

namespace Export

variable {a : Export} {record : AssetRecord} {total : UInt64}

theorem lend_halts (h : s.InOrder) : OnlyHalts Tame (a.lend record ctx.actor total) s := by
  refine .check_bind spares_tame fun _ => .bind (.subBalance h.wellFormed) fun _ t hy => ?_
  obtain ⟨-, hdebit⟩ := subBalance_iff.1 (ledger_iff.1 hy)
  exact .bind (.addLoan ((h.fits_zero a.asset).debited hdebit rfl) (Nat.le_add_left ..)) fun _ _ _ => .pure

theorem burn_halts (h : s.InOrder) (hrecord : s.asset? a.asset = some record) :
    OnlyHalts Tame (a.burn record ctx.actor total) s := by
  refine .check_bind spares_tame fun hbridged => ?_
  have hbridged : record.bridged = true := by simpa using hbridged
  obtain ⟨origin, hmetadata⟩ := h.rooted a.asset record (bridged?_eq_some.2 ⟨hrecord, hbridged⟩)
  have horigin : Bridge.Origin.ofMetadata? record.metadata = some origin := by
    rw [hmetadata, Bridge.Origin.ofMetadata?_metadata]
  simp only [horigin]
  refine .check_bind spares_tame fun _ => .bind (.subBalance h.wellFormed) fun _ t hy => ?_
  obtain ⟨-, hdebit⟩ := subBalance_iff.1 (ledger_iff.1 hy)
  have hsub : ∃ supply, Amount.sub? record.supply total = some supply := by
    have hpaid := amount_debited hdebit
    have hheld := s.amount_le_held (k := .balance ctx.actor a.asset) rfl
    rw [h.conserved, supply_of_asset? hrecord] at hheld
    cases hsub : Amount.sub? record.supply total with
    | none =>
      have := Amount.sub?_eq_none_iff.1 hsub
      omega
    | some supply => exact ⟨supply, rfl⟩
  obtain ⟨supply, hsub⟩ := hsub
  have hcap : supply ≤ record.maxSupply := by
    have hsum := Amount.toNat_of_sub?_eq_some hsub
    have hcapped := UInt64.le_iff_toNat_le.1 (h.wellFormed.proper hrecord).capped
    exact UInt64.le_iff_toNat_le.2 (by omega)
  simp only [hsub]
  split
  · exact .bind (.operation (a := ()) (deleteAsset_iff.2 rfl)) fun _ _ _ => .pure
  · exact .bind (.setAsset ((h.wellFormed.proper hrecord).with_supply hcap)) fun _ _ _ => .pure

/-- The transfer fits into a message, which is stored. -/
private theorem send_halts {record : AssetRecord} {asset : Identifier} {key : Octets} {t : Store}
    (hsymbol : record.symbol.length ≤ Limits.maxSymbol) :
    OnlyHalts Tame (do
      let payload ← match (a.toTransfer record asset ctx.transaction).encode with
        | .ok payload => pure payload
        | .error e => abort (corruptRecord key (.wire e))
      let message : Bridge.Message := { network := ctx.network, source := ctx.chain, payload }
      Ledger.storeOutgoing ctx.transaction message
      return message : ActionScript Bridge.Message) t := by
  obtain ⟨payload, hpayload, hlength⟩ :=
    Bridge.Transfer.encode_isOk (t := a.toTransfer record asset ctx.transaction) hsymbol
  obtain ⟨bytes, hbytes⟩ := Bridge.Message.encode_isOk (m := ⟨ctx.network, ctx.chain, payload⟩) hlength
  simp only [hpayload, pure_bind]
  exact .bind (.operation (a := ()) (storeOutgoing_iff.2 ⟨bytes, hbytes, rfl⟩)) fun _ _ _ => .pure

theorem halts (h : s.InOrder) (a : Export) : OnlyHalts Tame (a.execute ctx) s := by
  refine .check_bind spares_tame fun _ => .check_bind spares_tame fun _ => .check_bind spares_tame fun _ =>
    .check_bind spares_tame fun _ => ?_
  split
  · refine .lookup_bind (.asset? h.wellFormed) fun record? hread => ?_
    obtain ⟨-, hrecord⟩ := asset?_iff.1 hread
    cases record? with
    | none => exact .refuse spares_tame
    | some record =>
      have hsymbol := (h.wellFormed.proper hrecord).symbol.2
      refine .bind (.staged ?_) fun _ _ _ => .pure
      split
      · exact .bind (burn_halts h hrecord) fun _ _ _ => send_halts hsymbol
      · exact .bind (lend_halts h) fun _ _ _ => send_halts hsymbol
  · exact .refuse spares_tame

end Export

namespace Import

variable {a : Import} {asset : Identifier} {total : UInt64} {t : Store}

/-- The units of the message are released or minted within the largest supply. -/
theorem fits_of_move (h : s.InOrder)
    (hmove : Yields (if a.transfer.returning then release a.transfer a.message.source total
      else mint a.transfer a.message.source total) s asset t) : t.Fits asset total.toNat := by
  split at hmove
  · obtain ⟨rfl, -, -, -, hdebit⟩ := release_iff.1 hmove
    exact ((h.fits_zero _).debited hdebit rfl).mono (Nat.le_add_left ..)
  · obtain ⟨rfl, -, record, supply, hjoins, hsum, hcap, hset⟩ := mint_iff.1 hmove
    have hproper := proper_of_joins h.wellFormed a.acceptable.symbol hjoins
    have hroom : s.Fits (Bridge.Origin.bridgedAsset ⟨a.transfer.asset, a.message.source⟩) total.toNat := h.fits (by
      rw [hjoins.of_asset?.1, ← hsum]
      exact Nat.le_trans (UInt64.le_iff_toNat_le.1 hcap) (UInt64.le_iff_toNat_le.1 hproper.limited))
    exact ⟨h.wellFormed.registered hset (hproper.with_supply hcap), fun x => by
      rw [held_registered hset]
      exact hroom.held_le x⟩

theorem settleSwap_halts {actor : Address} (h : t.Fits asset 0) :
    OnlyHalts Tame (settleSwap a.transfer asset actor) t := by
  refine .bind (.subBalance h.wellFormed) fun _ t₁ hy => ?_
  have h₁ := (h.change a.transfer.terms.swap.assetOut).debited (subBalance_iff.1 (ledger_iff.1 hy)).2 rfl
  refine .bind (.addBalance h₁ (Nat.le_add_left ..)) fun _ t₂ hy => ?_
  have h₂ := (h₁.mono (Nat.le_of_eq (Nat.add_comm _ 0))).credited (addBalance_iff.1 (ledger_iff.1 hy)).2 rfl
  refine .bind (.subBalance h₂.wellFormed) fun _ t₃ hy => ?_
  exact .addBalance ((h₂.change asset).debited (subBalance_iff.1 (ledger_iff.1 hy)).2 rfl) (Nat.le_add_left ..)

theorem distribute_halts {id : Identifier} (h : t.Fits asset total.toNat)
    (hsum : total.toNat = a.transfer.value.toNat + a.transfer.terms.reward.toNat) :
    OnlyHalts Tame (do
      Ledger.addBalance a.transfer.recipient asset a.transfer.value true
      if 0 < a.transfer.terms.reward then Ledger.addBalance ctx.actor asset a.transfer.terms.reward true
      if a.fill && ctx.timestamp ≤ a.transfer.terms.swap.expiry then settleSwap a.transfer asset ctx.actor
      Ledger.markImported a.message.source id : ActionScript Unit) t := by
  rw [hsum] at h
  refine .bind (.addBalance h (Nat.le_add_right ..)) fun _ u hy => ?_
  have hu := h.credited (addBalance_iff.1 (ledger_iff.1 hy)).2 rfl
  refine .optional_bind (fun _ => .addBalance hu (Nat.le_refl _)) fun v hv => ?_
  have hv : v.Fits asset 0 := by
    split at hv
    · exact Fits.credited (m := 0) hu (addBalance_iff.1 (ledger_iff.1 hv)).2 rfl
    · exact hv ▸ hu.mono (Nat.zero_le _)
  exact .optional_bind (fun _ => settleSwap_halts hv) fun _ _ => .operation (a := ()) (markImported_iff.2 rfl)

theorem halts (h : s.InOrder) (a : Import) : OnlyHalts Tame (a.execute ctx) s := by
  refine execute_halts spares_tame (fun e he => ?_) (fun _ _ _ => trivial) (fun total _ => ?_)
    fun total asset id t htotal hmove => ?_
  · obtain ⟨id, hid⟩ := Bridge.Message.identifier_isOk a.decoded
    cases he.symm.trans hid
  · split
    · exact release_halts spares_tame (.asset? h.wellFormed) (.subLoan h.wellFormed)
    · refine mint_halts spares_tame (.asset? h.wellFormed) fun record supply hjoins hcap => .setAsset ?_
      exact (proper_of_joins h.wellFormed a.acceptable.symbol hjoins).with_supply hcap
  · exact distribute_halts (fits_of_move h hmove) (Amount.toNat_of_add?_eq_some htotal)

end Import

/-- On a store in order an action halts only because it is refused. -/
theorem halts (h : s.InOrder) (action : Action) : OnlyHalts Tame (action.perform ctx) s := by
  cases action with
  | payment a => exact Payment.halts h a
  | mint a => exact Mint.halts h a
  | createAsset a => exact CreateAsset.halts a
  | createNft a => exact CreateNft.halts a
  | readNft a => exact ReadNft.halts h a
  | importAsset a => exact Import.halts h a
  | exportAsset a => exact Export.halts h a
  | transferNft a => exact TransferNft.halts h a

end Action
end BridgeLedger
