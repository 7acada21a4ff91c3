import BridgeLedger.Action
import BridgeLedger.Proofs.Holdings

/-! What an action does to a store in memory when it succeeds. One lemma for each action, and for each way in which
value leaves a chain or arrives on it, says all that changes; what follows from an action is proved from these. -/
namespace BridgeLedger.Action

open Yields Store

variable {s s' : Store} {y : Yield} {ctx : Context}

/-- A payment debits the actor, then credits the recipient. -/
theorem Payment.of_yields {a : Payment} (h : Yields (a.execute ctx) s y s') :
    y = {} ∧ ∃ t, Debited s t (.balance ctx.actor .empty) a.value.toNat ∧
      Credited t s' (.balance a.recipient .empty) a.value.toNat := by
  simp only [execute, refuseIf_bind_iff] at h
  obtain ⟨-, -, h⟩ := h
  simp only [bind_iff, staged_iff, ledger_iff, subBalance_iff, addBalance_iff, pure_iff] at h
  obtain ⟨_, _, ⟨_, t, ⟨-, hdebit⟩, -, hcredit⟩, rfl, rfl⟩ := h
  exact ⟨rfl, t, hdebit, hcredit⟩

theorem Payment.frame {a : Payment} (h : Yields (a.execute ctx) s y s') : Frame StateKey.IsBalance s s' := by
  obtain ⟨-, t, hdebit, hcredit⟩ := of_yields h
  exact (Frame.debited hdebit trivial).trans (Frame.credited hcredit trivial)

/-- Minting credits the recipient and raises the supply of an asset of the actor. -/
theorem Mint.of_yields {a : Mint} (h : Yields (a.execute ctx) s y s') :
    y = {} ∧ ∃ record supply t, s.asset? a.asset = some record ∧ record.bridged = false ∧
      supply.toNat = record.supply.toNat + a.value.toNat ∧ supply ≤ record.maxSupply ∧
      Credited s t (.balance a.recipient a.asset) a.value.toNat ∧
      Registered t s' a.asset { record with supply } := by
  simp only [execute, refuseIf_bind_iff, read_bind_iff, asset?_iff] at h
  obtain ⟨-, -, record?, ⟨-, hrecord⟩, h⟩ := h
  split at h
  · rename_i record
    simp only [refuseIf_bind_iff] at h
    obtain ⟨-, hlocal, h⟩ := h
    split at h
    · rename_i supply hsupply
      simp only [refuseIf_bind_iff, decide_eq_false_iff_not, UInt64.not_lt] at h
      obtain ⟨hcap, h⟩ := h
      simp only [bind_iff, ledger_iff, addBalance_iff, setAsset_iff, pure_iff] at h
      obtain ⟨_, t, ⟨-, hcredit⟩, _, _, hset, rfl, rfl⟩ := h
      exact ⟨rfl, record, supply, t, hrecord, hlocal, Amount.toNat_of_add?_eq_some hsupply, hcap, hcredit, hset⟩
    · exact absurd h not_refuse
  · exact absurd h not_refuse

theorem Mint.frame {a : Mint} (h : Yields (a.execute ctx) s y s') :
    Frame (fun k => k.IsBalance ∨ k = .asset a.asset) s s' := by
  obtain ⟨-, record, supply, t, -, -, -, -, hcredit, hset⟩ := of_yields h
  exact (Frame.credited hcredit (.inl trivial)).trans (Frame.registered hset (.inr rfl))

/-- Creation of an asset registers it under the transaction, within the limits. -/
theorem CreateAsset.of_yields {a : CreateAsset} (h : Yields (a.execute ctx) s y s') :
    y = {} ∧ a.symbol ≠ [] ∧ a.symbol.length ≤ Limits.maxSymbol ∧ a.metadata.length ≤ Limits.maxMetadata ∧
      a.maxSupply ≤ Limits.maxSupply ∧
      Registered s s' ctx.transaction
        ⟨a.symbol, a.decimals, a.metadata, 0, a.maxSupply, ctx.actor, false⟩ := by
  simp only [execute, refuseIf_bind_iff] at h
  obtain ⟨hsymbol, hlength, -, -, hmetadata, hcap, h⟩ := h
  simp only [bind_iff, ledger_iff, setAsset_iff, pure_iff] at h
  obtain ⟨_, _, hset, rfl, rfl⟩ := h
  simp only [List.isEmpty_eq_false_iff, decide_eq_false_iff_not, Nat.not_lt, UInt64.not_lt]
    at hsymbol hlength hmetadata hcap
  exact ⟨rfl, hsymbol, hlength, hmetadata, hcap, hset⟩

/-- Creation of a token stores its record under the transaction. -/
theorem CreateNft.of_yields {a : CreateNft} (h : Yields (a.execute ctx) s y s') :
    y = {} ∧ ∃ bytes, NftRecord.encode ⟨a.metadata, a.owner, a.url⟩ = .ok bytes ∧
      s' = s.replace (.nft ctx.transaction) (some bytes) := by
  simp only [execute, refuseIf_bind_iff] at h
  obtain ⟨-, -, -, -, h⟩ := h
  simp only [bind_iff, ledger_iff, setNft_iff, pure_iff] at h
  obtain ⟨_, _, ⟨bytes, hbytes, rfl⟩, rfl, rfl⟩ := h
  exact ⟨rfl, bytes, hbytes, rfl⟩

/-- A look-up changes nothing. -/
theorem ReadNft.of_yields {a : ReadNft} (h : Yields a.execute s y s') : y.message = none ∧ s' = s := by
  simp only [execute, refuseIf_bind_iff, read_bind_iff] at h
  obtain ⟨-, record?, -, h⟩ := h
  split at h
  · simp only [pure_iff] at h
    obtain ⟨rfl, rfl⟩ := h
    exact ⟨rfl, rfl⟩
  · exact absurd h not_refuse

/-- A transfer of a token gives a token of the actor to the recipient. -/
theorem TransferNft.of_yields {a : TransferNft} (h : Yields (a.execute ctx) s y s') :
    y = {} ∧ ∃ record bytes, s.nft? a.nft = some record ∧ record.owner = ctx.actor ∧
      NftRecord.encode { record with owner := a.recipient } = .ok bytes ∧
      s' = s.replace (.nft a.nft) (some bytes) := by
  simp only [execute, refuseIf_bind_iff, read_bind_iff, nft?_iff] at h
  obtain ⟨-, record?, ⟨-, hrecord⟩, h⟩ := h
  split at h
  · rename_i record
    simp only [refuseIf_bind_iff, bne_eq_false_iff_eq] at h
    obtain ⟨howner, h⟩ := h
    simp only [bind_iff, ledger_iff, setNft_iff, pure_iff] at h
    obtain ⟨_, _, ⟨bytes, hbytes, rfl⟩, rfl, rfl⟩ := h
    exact ⟨rfl, record, bytes, hrecord, howner, hbytes, rfl⟩
  · exact absurd h not_refuse

theorem branch_bind {α β : Type} {c : Prop} [Decidable c] {x z : ActionScript α} {f : α → ActionScript β} :
    (if c then x else z) >>= f = if c then x >>= f else z >>= f := by split <;> rfl

namespace Export

variable {a : Export} {record : AssetRecord} {actor : Address} {total : UInt64} {asset : Identifier}

/-- Lending debits the actor and raises the loan of the destination, provided that the asset is local. -/
theorem lend_iff :
    Yields (a.lend record actor total) s asset s' ↔ asset = a.asset ∧ record.bridged = false ∧
      Cell.Readable (s.stored (.balance actor a.asset)) ∧ ∃ t, Debited s t (.balance actor a.asset) total.toNat ∧
        Cell.Readable (t.stored (.loan a.asset a.destination)) ∧
        Credited t s' (.loan a.asset a.destination) total.toNat := by
  simp only [lend, refuseIf_bind_iff]
  constructor
  · rintro ⟨hlocal, h⟩
    simp only [bind_iff, ledger_iff, subBalance_iff, addLoan_iff, pure_iff] at h
    obtain ⟨_, t, ⟨hread, hdebit⟩, _, _, ⟨hread', hcredit⟩, rfl, rfl⟩ := h
    exact ⟨rfl, hlocal, hread, t, hdebit, hread', hcredit⟩
  · rintro ⟨rfl, hlocal, hread, t, hdebit, hread', hcredit⟩
    simp only [bind_iff, ledger_iff, subBalance_iff, addLoan_iff, pure_iff]
    exact ⟨hlocal, (), t, ⟨hread, hdebit⟩, (), s', ⟨hread', hcredit⟩, trivial, rfl⟩

theorem of_lend (h : Yields (a.lend record actor total) s asset s') :
    asset = a.asset ∧ record.bridged = false ∧ ∃ t, Debited s t (.balance actor a.asset) total.toNat ∧
      Credited t s' (.loan a.asset a.destination) total.toNat := by
  obtain ⟨hasset, hlocal, -, t, hdebit, -, hcredit⟩ := lend_iff.1 h
  exact ⟨hasset, hlocal, t, hdebit, hcredit⟩

/-- What is left of the supply goes on record, and the record goes with the last unit. -/
private theorem lower_iff {name : Identifier} {e : LedgerError} :
    Yields (do
      let some supply := Amount.sub? record.supply total | abort e
      if supply = 0 then Ledger.deleteAsset a.asset else Ledger.setAsset a.asset { record with supply }
      return name : ActionScript Identifier) s asset s' ↔ asset = name ∧ ∃ supply : UInt64,
        supply.toNat + total.toNat = record.supply.toNat ∧ Lowered s s' a.asset record supply := by
  cases hsupply : Amount.sub? record.supply total with
  | none =>
    constructor
    · exact fun h => absurd h not_abort
    · rintro ⟨-, supply, hsum, -⟩
      have := Amount.sub?_eq_none_iff.1 hsupply
      omega
  | some supply =>
    have hsum := Amount.toNat_of_sub?_eq_some hsupply
    have hbody : Yields (if supply = 0 then (Ledger.deleteAsset a.asset : ActionScript Unit)
        else Ledger.setAsset a.asset { record with supply }) s () s' ↔ Lowered s s' a.asset record supply := by
      unfold Lowered
      split
      · exact ledger_iff.trans deleteAsset_iff
      · exact ledger_iff.trans setAsset_iff
    dsimp only
    rw [← branch_bind]
    constructor
    · intro h
      obtain ⟨_, u, hlowered, hyield⟩ := bind_iff.1 h
      obtain ⟨rfl, rfl⟩ := pure_iff.1 hyield
      exact ⟨rfl, supply, hsum, hbody.1 hlowered⟩
    · rintro ⟨rfl, supply', hsum', hlowered⟩
      obtain rfl : supply = supply' := UInt64.toNat_inj.1 (by omega)
      exact bind_iff.2 ⟨(), s', hbody.2 hlowered, pure_iff.2 ⟨rfl, rfl⟩⟩

/-- Burning debits the actor and lowers the supply of a bridged asset that came from the destination. -/
theorem burn_iff :
    Yields (a.burn record actor total) s asset s' ↔ record.bridged = true ∧
      Bridge.Origin.ofMetadata? record.metadata = some ⟨asset, a.destination⟩ ∧
      Cell.Readable (s.stored (.balance actor a.asset)) ∧
      ∃ t supply, Debited s t (.balance actor a.asset) total.toNat ∧
        supply.toNat + total.toNat = record.supply.toNat ∧ Lowered t s' a.asset record supply := by
  simp only [burn, refuseIf_bind_iff, Bool.not_eq_eq_eq_not, Bool.not_false]
  refine and_congr_right fun _ => ?_
  cases Bridge.Origin.ofMetadata? record.metadata with
  | none =>
    constructor
    · exact fun h => absurd h not_abort
    · rintro ⟨hnone, -⟩
      cases hnone
  | some origin =>
    simp only [refuseIf_bind_iff, bne_eq_false_iff_eq]
    constructor
    · rintro ⟨hdestination, h⟩
      obtain ⟨_, t, hdebit, hlower⟩ := bind_iff.1 h
      obtain ⟨hread, hdebit⟩ := subBalance_iff.1 (ledger_iff.1 hdebit)
      obtain ⟨rfl, supply, hsum, hlowered⟩ := lower_iff.1 hlower
      exact ⟨by rw [← hdestination], hread, t, supply, hdebit, hsum, hlowered⟩
    · rintro ⟨horigin, hread, t, supply, hdebit, hsum, hlowered⟩
      cases horigin
      exact ⟨rfl, bind_iff.2 ⟨(), t, ledger_iff.2 (subBalance_iff.2 ⟨hread, hdebit⟩),
        lower_iff.2 ⟨rfl, supply, hsum, hlowered⟩⟩⟩

theorem of_burn (h : Yields (a.burn record actor total) s asset s') :
    record.bridged = true ∧ Bridge.Origin.ofMetadata? record.metadata = some ⟨asset, a.destination⟩ ∧
      ∃ t supply, Debited s t (.balance actor a.asset) total.toNat ∧
        supply.toNat + total.toNat = record.supply.toNat ∧ Lowered t s' a.asset record supply := by
  obtain ⟨hbridged, horigin, -, hrest⟩ := burn_iff.1 h
  exact ⟨hbridged, horigin, hrest⟩

/-- The end of an export: the transfer is written into a message, which is stored under the transaction. -/
private theorem send_iff {encoded : Except WireError Octets} {key : Octets} {message : Bridge.Message} :
    Yields (do
      let payload ← match encoded with
        | .ok payload => pure payload
        | .error e => abort (corruptRecord key (.wire e))
      let message : Bridge.Message := { network := ctx.network, source := ctx.chain, payload }
      Ledger.storeOutgoing ctx.transaction message
      return message : ActionScript Bridge.Message) s message s' ↔
    encoded = .ok message.payload ∧ message.network = ctx.network ∧ message.source = ctx.chain ∧
      ∃ bytes, message.encode = .ok bytes ∧ s' = s.replace (.outgoing ctx.transaction) (some bytes) := by
  cases encoded with
  | error e =>
    constructor
    · intro h
      obtain ⟨_, _, habort, -⟩ := bind_iff.1 h
      exact absurd habort not_abort
    · rintro ⟨herror, -⟩
      cases herror
  | ok payload =>
    simp only [pure_bind, bind_iff, pure_iff, ledger_iff, storeOutgoing_iff]
    constructor
    · rintro ⟨_, _, ⟨bytes, hbytes, rfl⟩, rfl, rfl⟩
      exact ⟨rfl, rfl, rfl, bytes, hbytes, rfl⟩
    · obtain ⟨network, source, written⟩ := message
      rintro ⟨hpayload, rfl, rfl, bytes, hbytes, rfl⟩
      cases hpayload
      exact ⟨(), _, ⟨bytes, hbytes, rfl⟩, rfl, rfl⟩

theorem lend_frame (h : Yields (a.lend record actor total) s asset s') :
    Frame (fun k => k.IsBalance ∨ k = .loan a.asset a.destination) s s' := by
  obtain ⟨-, -, t, hdebit, hcredit⟩ := of_lend h
  exact (Frame.debited hdebit (.inl trivial)).trans (Frame.credited hcredit (.inr rfl))

theorem burn_frame (h : Yields (a.burn record actor total) s asset s') :
    Frame (fun k => k.IsBalance ∨ k = .asset a.asset) s s' := by
  obtain ⟨-, -, t, supply, hdebit, -, hrest⟩ := of_burn h
  exact (Frame.debited hdebit (.inl trivial)).trans (hrest.frame (.inr rfl))

/-- An export passes its checks, lends or burns, and stores the message that it emits. -/
theorem execute_iff :
    Yields (a.execute ctx) s y s' ↔
      a.value ≠ 0 ∧ a.destination ≠ .empty ∧ a.destination ≠ ctx.chain ∧ a.terms.swap.valid a.value = true ∧
        Decodes AssetRecord.decode (s.stored (.asset a.asset)) ∧
        ∃ record total asset t message bytes,
          total.toNat = a.value.toNat + a.terms.reward.toNat ∧ s.asset? a.asset = some record ∧
          Yields (if a.returning then a.burn record ctx.actor total else a.lend record ctx.actor total) s asset t ∧
          (a.toTransfer record asset ctx.transaction).encode = .ok message.payload ∧
          message.network = ctx.network ∧ message.source = ctx.chain ∧ message.encode = .ok bytes ∧
          s' = t.replace (.outgoing ctx.transaction) (some bytes) ∧ y = { message := some message } := by
  have hnamed : a.destination.isEmpty = false ↔ a.destination ≠ .empty := by simp [Identifier.isEmpty]
  simp only [execute, refuseIf_bind_iff, beq_eq_false_iff_ne, Bool.not_eq_eq_eq_not, Bool.not_false, hnamed]
  refine and_congr_right fun _ => and_congr_right fun _ => and_congr_right fun _ => and_congr_right fun _ => ?_
  cases htotal : Amount.add? a.value a.terms.reward with
  | none =>
    constructor
    · exact fun h => absurd h not_refuse
    · rintro ⟨-, record, total, -, -, -, -, hsum, -⟩
      have := Amount.add?_eq_none_iff.1 htotal
      have : total.toNat < UInt64.size := total.toNat_lt
      omega
  | some total =>
    simp only [read_bind_iff, asset?_iff]
    constructor
    · rintro ⟨record?, ⟨hdecodes, hrecord⟩, h⟩
      cases record? with
      | none => exact absurd h not_refuse
      | some record =>
        obtain ⟨message, t, hbody, hyield⟩ := bind_iff.1 h
        obtain ⟨rfl, rfl⟩ := pure_iff.1 hyield
        rw [staged_iff, ← branch_bind] at hbody
        obtain ⟨asset, u, hmove, hsend⟩ := bind_iff.1 hbody
        obtain ⟨hpayload, hnetwork, hsource, bytes, hbytes, rfl⟩ := send_iff.1 hsend
        exact ⟨hdecodes, record, total, asset, u, message, bytes, Amount.toNat_of_add?_eq_some htotal, hrecord, hmove,
          hpayload, hnetwork, hsource, hbytes, rfl, rfl⟩
    · rintro ⟨hdecodes, record, total', asset, t, message, bytes, hsum, hrecord, hmove, hpayload, hnetwork, hsource,
        hbytes, rfl, rfl⟩
      obtain rfl : total = total' := UInt64.toNat_inj.1 ((Amount.toNat_of_add?_eq_some htotal).trans hsum.symm)
      refine ⟨some record, ⟨hdecodes, hrecord⟩, bind_iff.2 ⟨message, _, ?_, pure_iff.2 ⟨rfl, rfl⟩⟩⟩
      rw [staged_iff, ← branch_bind]
      exact bind_iff.2 ⟨asset, t, hmove, send_iff.2 ⟨hpayload, hnetwork, hsource, bytes, hbytes, rfl⟩⟩

theorem of_yields (h : Yields (a.execute ctx) s y s') :
    a.value ≠ 0 ∧ a.destination ≠ .empty ∧ a.destination ≠ ctx.chain ∧ a.terms.swap.valid a.value ∧
      ∃ record total asset t message bytes,
        total.toNat = a.value.toNat + a.terms.reward.toNat ∧ s.asset? a.asset = some record ∧
        Yields (if a.returning then a.burn record ctx.actor total else a.lend record ctx.actor total) s asset t ∧
        (a.toTransfer record asset ctx.transaction).encode = .ok message.payload ∧
        message.network = ctx.network ∧ message.source = ctx.chain ∧ message.encode = .ok bytes ∧
        s' = t.replace (.outgoing ctx.transaction) (some bytes) ∧ y = { message := some message } := by
  obtain ⟨hvalue, hdestination, hchain, hswap, -, hrest⟩ := execute_iff.1 h
  exact ⟨hvalue, hdestination, hchain, hswap, hrest⟩

theorem frame (h : Yields (a.execute ctx) s y s') :
    Frame (fun k => k.IsBalance ∨ k = .loan a.asset a.destination ∨ k = .asset a.asset ∨ k = .outgoing ctx.transaction)
      s s' := by
  obtain ⟨-, -, -, -, record, total, asset, t, message, bytes, -, -, hmove, -, -, -, -, rfl, -⟩ := of_yields h
  refine Frame.trans ?_ (Frame.replace _ (.inr (.inr (.inr rfl))))
  split at hmove
  · exact (burn_frame hmove).mono fun _ => Or.imp_right fun h => .inr (.inl h)
  · exact (lend_frame hmove).mono fun _ => Or.imp_right .inl

end Export

namespace Import

variable {t : Bridge.Transfer} {source asset : Identifier} {total : UInt64}

private theorem requireSameAsset_bind_iff {α : Type} {b : α} {record : AssetRecord} {f : Unit → ActionScript α} :
    Yields (requireSameAsset record t >>= f) s b s' ↔
      (record.symbol = t.symbol ∧ record.decimals = t.decimals) ∧ Yields (f ()) s b s' := by
  simp only [requireSameAsset, bind_assoc, refuseIf_bind_iff, bne_eq_false_iff_eq, and_assoc]

/-- Value that comes home leaves the loan to its source, provided that it is of the asset that was lent. -/
theorem release_iff :
    Yields (release t source total) s asset s' ↔ asset = t.asset ∧
      Decodes AssetRecord.decode (s.stored (.asset t.asset)) ∧ Cell.Readable (s.stored (.loan t.asset source)) ∧
      (∃ record, s.asset? t.asset = some record ∧ record.bridged = false ∧ record.symbol = t.symbol ∧
        record.decimals = t.decimals) ∧ Debited s s' (.loan t.asset source) total.toNat := by
  unfold release
  simp only [read_bind_iff, asset?_iff]
  constructor
  · rintro ⟨record?, ⟨hdecodes, hrecord⟩, h⟩
    split at h
    · rename_i record
      simp only [refuseIf_bind_iff, requireSameAsset_bind_iff] at h
      obtain ⟨hlocal, ⟨hs, hd⟩, h⟩ := h
      simp only [bind_iff, ledger_iff, subLoan_iff, pure_iff] at h
      obtain ⟨_, _, ⟨hread, hdebit⟩, rfl, rfl⟩ := h
      exact ⟨rfl, hdecodes, hread, ⟨record, hrecord, hlocal, hs, hd⟩, hdebit⟩
    · exact absurd h not_refuse
  · rintro ⟨rfl, hdecodes, hread, ⟨record, hrecord, hlocal, hs, hd⟩, hdebit⟩
    refine ⟨some record, ⟨hdecodes, hrecord⟩, ?_⟩
    simp only [refuseIf_bind_iff, requireSameAsset_bind_iff]
    refine ⟨hlocal, ⟨hs, hd⟩, ?_⟩
    simp only [bind_iff, ledger_iff, subLoan_iff, pure_iff]
    exact ⟨(), s', ⟨hread, hdebit⟩, trivial, rfl⟩

/-- The record that arriving units join: that of the same bridged asset, or a fresh one. -/
def Joins (t : Bridge.Transfer) (origin : Bridge.Origin) (record : AssetRecord) : Option AssetRecord → Prop
  | some r => r = record ∧ r.bridged = true ∧ r.symbol = t.symbol ∧ r.decimals = t.decimals
  | none => record = freshRecord t origin

private theorem raise_iff {record : AssetRecord} {name : Identifier} :
    Yields (do
      let some supply := Amount.add? record.supply total | refuse .maxSupplyExceeded
      refuseIf (record.maxSupply < supply) .maxSupplyExceeded
      Ledger.setAsset name { record with supply }
      return name : ActionScript Identifier) s asset s' ↔ asset = name ∧ ∃ supply : UInt64,
        supply.toNat = record.supply.toNat + total.toNat ∧ supply ≤ record.maxSupply ∧
        Registered s s' name { record with supply } := by
  cases hsupply : Amount.add? record.supply total with
  | none =>
    constructor
    · exact fun h => absurd h not_refuse
    · rintro ⟨-, supply, hsum, -⟩
      have := Amount.add?_eq_none_iff.1 hsupply
      have : supply.toNat < UInt64.size := supply.toNat_lt
      omega
  | some supply =>
    have hsum := Amount.toNat_of_add?_eq_some hsupply
    simp only [refuseIf_bind_iff, decide_eq_false_iff_not, UInt64.not_lt]
    constructor
    · rintro ⟨hcap, h⟩
      simp only [bind_iff, ledger_iff, setAsset_iff, pure_iff] at h
      obtain ⟨_, _, hset, rfl, rfl⟩ := h
      exact ⟨rfl, supply, hsum, hcap, hset⟩
    · rintro ⟨rfl, supply', hsum', hcap, hset⟩
      obtain rfl : supply = supply' := UInt64.toNat_inj.1 (hsum.trans hsum'.symm)
      refine ⟨hcap, ?_⟩
      simp only [bind_iff, ledger_iff, setAsset_iff, pure_iff]
      exact ⟨(), s', hset, trivial, rfl⟩

/-- Value that arrives raises the supply of the bridged asset within its largest supply. -/
theorem mint_iff :
    Yields (mint t source total) s asset s' ↔ asset = Bridge.Origin.bridgedAsset ⟨t.asset, source⟩ ∧
      Decodes AssetRecord.decode (s.stored (.asset (Bridge.Origin.bridgedAsset ⟨t.asset, source⟩))) ∧
      ∃ (record : AssetRecord) (supply : UInt64),
        Joins t ⟨t.asset, source⟩ record (s.asset? (Bridge.Origin.bridgedAsset ⟨t.asset, source⟩)) ∧
        supply.toNat = record.supply.toNat + total.toNat ∧ supply ≤ record.maxSupply ∧
        Registered s s' (Bridge.Origin.bridgedAsset ⟨t.asset, source⟩) { record with supply } := by
  unfold mint
  simp only [read_bind_iff, asset?_iff]
  constructor
  · rintro ⟨record?, ⟨hdecodes, hrecord⟩, h⟩
    split at h
    · rename_i record
      simp only [refuseIf_bind_iff, requireSameAsset_bind_iff, pure_bind] at h
      obtain ⟨hbridged, ⟨hs, hd⟩, h⟩ := h
      obtain ⟨rfl, supply, hraise⟩ := raise_iff.1 h
      rw [hrecord]
      exact ⟨rfl, hdecodes, record, supply, ⟨rfl, by simpa using hbridged, hs, hd⟩, hraise⟩
    · simp only [pure_bind] at h
      obtain ⟨rfl, supply, hraise⟩ := raise_iff.1 h
      rw [hrecord]
      exact ⟨rfl, hdecodes, _, supply, rfl, hraise⟩
  · rintro ⟨rfl, hdecodes, record, supply, hjoins, hraise⟩
    refine ⟨_, ⟨hdecodes, rfl⟩, ?_⟩
    cases hr : s.asset? (Bridge.Origin.bridgedAsset ⟨t.asset, source⟩) with
    | none =>
      rw [hr] at hjoins
      cases hjoins
      exact raise_iff.2 ⟨rfl, supply, hraise⟩
    | some r =>
      rw [hr] at hjoins
      obtain ⟨rfl, hbridged, hs, hd⟩ := hjoins
      simp only [refuseIf_bind_iff, requireSameAsset_bind_iff, pure_bind]
      exact ⟨by simpa using hbridged, ⟨hs, hd⟩, raise_iff.2 ⟨rfl, supply, hraise⟩⟩

theorem release_frame (h : Yields (release t source total) s asset s') : Frame (· = .loan asset source) s s' := by
  obtain ⟨rfl, -, -, -, hdebit⟩ := release_iff.1 h
  exact Frame.debited hdebit rfl

theorem mint_frame (h : Yields (mint t source total) s asset s') : Frame (· = .asset asset) s s' := by
  obtain ⟨rfl, -, record, supply, -, -, -, hset⟩ := mint_iff.1 h
  exact Frame.registered hset rfl

/-- A swap moves the wanted asset to the recipient and the offered part of the value to the actor. -/
theorem of_settleSwap {actor : Address} {u : Unit} (h : Yields (settleSwap t asset actor) s u s') :
    ∃ s₁ s₂ s₃, Debited s s₁ (.balance actor t.terms.swap.assetOut) t.terms.swap.amountOut.toNat ∧
      Credited s₁ s₂ (.balance t.recipient t.terms.swap.assetOut) t.terms.swap.amountOut.toNat ∧
      Debited s₂ s₃ (.balance t.recipient asset) t.terms.swap.amountIn.toNat ∧
      Credited s₃ s' (.balance actor asset) t.terms.swap.amountIn.toNat := by
  simp only [settleSwap, bind_iff, ledger_iff, subBalance_iff, addBalance_iff] at h
  obtain ⟨_, s₁, ⟨-, h₁⟩, _, s₂, ⟨-, h₂⟩, _, s₃, ⟨-, h₃⟩, -, h₄⟩ := h
  exact ⟨s₁, s₂, s₃, h₁, h₂, h₃, h₄⟩

theorem settleSwap_maintains {p : Store → Prop} {actor : Address} {u : Unit} (hp : StableOnBalances p)
    (h : Yields (settleSwap t asset actor) s u s') (hs : p s) : p s' := by
  obtain ⟨s₁, s₂, s₃, h₁, h₂, h₃, h₄⟩ := of_settleSwap h
  exact hp.credited h₄ (hp.debited h₃ (hp.credited h₂ (hp.debited h₁ hs)))

theorem Joins.getD_eq {origin : Bridge.Origin} {record : AssetRecord} {record? : Option AssetRecord}
    (h : Joins t origin record record?) : record?.getD (freshRecord t origin) = record := by
  cases record? with
  | none => exact h.symm
  | some r => exact h.1

/-- The record that arriving units join has the supply that is on record, and is that of a bridged asset. -/
theorem Joins.of_asset? {origin : Bridge.Origin} {record : AssetRecord}
    (h : Joins t origin record (s.asset? origin.bridgedAsset)) :
    s.supply origin.bridgedAsset = record.supply.toNat ∧ s.local? origin.bridgedAsset = none ∧ record.bridged = true ∧
      record.symbol = t.symbol ∧ record.decimals = t.decimals := by
  unfold Store.supply
  cases hr : s.asset? origin.bridgedAsset with
  | none =>
    rw [hr] at h
    cases h
    exact ⟨rfl, local?_of_none hr, rfl, rfl, rfl⟩
  | some r =>
    rw [hr] at h
    obtain ⟨rfl, hbridged, hsymbol, hdecimals⟩ := h
    exact ⟨rfl, local?_of_bridged hr hbridged, hbridged, hsymbol, hdecimals⟩

variable {a : Import}

structure Admits (a : Import) (ctx : Context) (s : Store) (message : Identifier) : Prop where
  verified : ctx.verified = true
  network : a.message.network = ctx.network
  destination : a.transfer.destination = ctx.chain
  fillable : a.fill = true → a.transfer.terms.swap.offered = true
  unbound : (a.transfer.terms.swap.offered && !a.fill) = true → ¬ctx.timestamp < a.transfer.terms.swap.expiry
  identifier : a.message.identifier = .ok message
  unmarked : s.marked a.message.source message = false

/-- What an import does with the units of an asset that have arrived. -/
def Distributes (a : Import) (ctx : Context) (asset message : Identifier) (s s' : Store) : Prop :=
  ∃ u v w, Yields (Ledger.addBalance a.transfer.recipient asset a.transfer.value true) s () u ∧
    (if 0 < a.transfer.terms.reward then Yields (Ledger.addBalance ctx.actor asset a.transfer.terms.reward true) u () v
      else u = v) ∧
    (if a.fill && ctx.timestamp ≤ a.transfer.terms.swap.expiry then
      Yields (settleSwap a.transfer asset ctx.actor) v () w else v = w) ∧
    s' = w.replace (.incoming a.message.source message) (some [])

/-- Units are distributed over balances, then the message is marked; what lasts through both holds in the end. -/
theorem Distributes.maintains {message : Identifier} {p : Store → Prop} (h : Distributes a ctx asset message s s')
    (hp : StableOnBalances p) (hmark : ∀ w, p w → p (w.replace (.incoming a.message.source message) (some [])))
    (hs : p s) : p s' := by
  obtain ⟨u, v, w, hvalue, hreward, hswap, rfl⟩ := h
  have hu : p u := hp.credited (addBalance_iff.1 hvalue).2 hs
  have hv : p v := by
    split at hreward
    · exact hp.credited (addBalance_iff.1 hreward).2 hu
    · exact hreward ▸ hu
  have hw : p w := by
    split at hswap
    · exact settleSwap_maintains hp hswap hv
    · exact hswap ▸ hv
  exact hmark w hw

theorem Distributes.frame {message : Identifier} (h : Distributes a ctx asset message s s') :
    Frame (fun k => k.IsBalance ∨ k = .incoming a.message.source message) s s' :=
  h.maintains (Frame.stableOnBalances s fun _ _ => .inl trivial)
    (fun _ hw => hw.trans (Frame.replace _ (.inr rfl))) (Frame.refl s)

private theorem optional_bind_iff {α : Type} {b : α} {c : Prop} [Decidable c] {x : ActionScript Unit}
    {f : Unit → ActionScript α} :
    Yields (if c then x >>= f else f ()) s b s' ↔
      ∃ t, (if c then Yields x s () t else s = t) ∧ Yields (f ()) t b s' := by
  split
  · rw [bind_iff]
    exact ⟨fun ⟨_, t, hx, hf⟩ => ⟨t, hx, hf⟩, fun ⟨t, hx, hf⟩ => ⟨(), t, hx, hf⟩⟩
  · exact ⟨fun hf => ⟨s, rfl, hf⟩, fun ⟨_, hs, hf⟩ => hs ▸ hf⟩

private theorem distributes_iff {message : Identifier} {u : Unit} :
    Yields (do
      Ledger.addBalance a.transfer.recipient asset a.transfer.value true
      if 0 < a.transfer.terms.reward then Ledger.addBalance ctx.actor asset a.transfer.terms.reward true
      if a.fill && ctx.timestamp ≤ a.transfer.terms.swap.expiry then settleSwap a.transfer asset ctx.actor
      Ledger.markImported a.message.source message : ActionScript Unit) s u s' ↔
      Distributes a ctx asset message s s' := by
  constructor
  · intro h
    obtain ⟨_, u, hu, h⟩ := bind_iff.1 h
    obtain ⟨v, hv, h⟩ := optional_bind_iff.1 h
    obtain ⟨w, hw, h⟩ := optional_bind_iff.1 h
    simp only [ledger_iff, markImported_iff] at hu hv h
    exact ⟨u, v, w, hu, hv, hw, h⟩
  · rintro ⟨u, v, w, hu, hv, hw, hmark⟩
    refine bind_iff.2 ⟨(), u, ledger_iff.2 hu, optional_bind_iff.2 ⟨v, ?_, optional_bind_iff.2 ⟨w, hw, ?_⟩⟩⟩
    · simpa only [ledger_iff] using hv
    · simpa only [ledger_iff, markImported_iff] using hmark

/-- An import releases or mints, credits the recipient, rewards the actor, settles the swap that it fills, and marks
the message. -/
theorem execute_iff :
    Yields (a.execute ctx) s y s' ↔ y = {} ∧ ∃ message total asset t, Admits a ctx s message ∧
      a.transfer.total? = some total ∧
      Yields (if a.transfer.returning then release a.transfer a.message.source total
        else mint a.transfer a.message.source total) s asset t ∧
      Distributes a ctx asset message t s' := by
  unfold execute
  simp only [refuseIf_bind_iff, Bool.not_eq_eq_eq_not, Bool.not_false, Bool.or_eq_false_iff, bne_eq_false_iff_eq,
    Bool.and_eq_false_imp, decide_eq_false_iff_not]
  constructor
  · rintro ⟨hverified, ⟨hnetwork, hdestination⟩, hfill, hbound, h⟩
    split at h
    · rename_i message hid
      simp only [pure_bind, read_bind_iff, imported_iff, refuseIf_bind_iff] at h
      obtain ⟨_, hmarked, rfl, h⟩ := h
      split at h
      · rename_i total htotal
        obtain ⟨_, _, hbody, hyield⟩ := bind_iff.1 h
        obtain ⟨rfl, rfl⟩ := pure_iff.1 hyield
        rw [staged_iff, ← branch_bind] at hbody
        obtain ⟨asset, t, hmove, hrest⟩ := bind_iff.1 hbody
        exact ⟨rfl, message, total, asset, t, ⟨hverified, hnetwork, hdestination, hfill, hbound, hid, hmarked⟩, htotal,
          hmove, distributes_iff.1 hrest⟩
      · exact absurd h not_refuse
    · obtain ⟨_, _, habort, -⟩ := bind_iff.1 h
      exact absurd habort not_abort
  · rintro ⟨rfl, message, total, asset, t, hadmits, htotal, hmove, hrest⟩
    refine ⟨hadmits.verified, ⟨hadmits.network, hadmits.destination⟩, hadmits.fillable, hadmits.unbound, ?_⟩
    simp only [hadmits.identifier, htotal, pure_bind, read_bind_iff, imported_iff, refuseIf_bind_iff]
    refine ⟨_, hadmits.unmarked, rfl, bind_iff.2 ⟨(), s', ?_, pure_iff.2 ⟨rfl, rfl⟩⟩⟩
    rw [staged_iff, ← branch_bind]
    exact bind_iff.2 ⟨asset, t, hmove, distributes_iff.2 hrest⟩

theorem frame (h : Yields (a.execute ctx) s y s') :
    Frame (fun k => k.IsBalance ∨ k = .loan a.transfer.asset a.message.source ∨
      k = .asset (Bridge.Origin.bridgedAsset ⟨a.transfer.asset, a.message.source⟩) ∨
      ∃ id, a.message.identifier = .ok id ∧ k = .incoming a.message.source id) s s' := by
  obtain ⟨-, id, total, asset, t, hadmits, -, hmove, hrest⟩ := execute_iff.1 h
  refine Frame.trans ?_ (hrest.frame.mono fun k hk => hk.imp_right fun hmark =>
    .inr (.inr ⟨id, hadmits.identifier, hmark⟩))
  split at hmove
  · obtain ⟨rfl, -⟩ := release_iff.1 hmove
    exact (release_frame hmove).mono fun _ hk => .inr (.inl hk)
  · obtain ⟨rfl, -⟩ := mint_iff.1 hmove
    exact (mint_frame hmove).mono fun _ hk => .inr (.inr (.inl hk))

end Import

def Touches (ctx : Context) : Action → StateKey → Prop
  | .payment _, k => k.IsBalance
  | .mint a, k => k.IsBalance ∨ k = .asset a.asset
  | .createAsset _, k => k = .asset ctx.transaction
  | .createNft _, k => k = .nft ctx.transaction
  | .readNft _, _ => False
  | .importAsset a, k => k.IsBalance ∨ k = .loan a.transfer.asset a.message.source ∨
      k = .asset (Bridge.Origin.bridgedAsset ⟨a.transfer.asset, a.message.source⟩) ∨
      ∃ id, a.message.identifier = .ok id ∧ k = .incoming a.message.source id
  | .exportAsset a, k =>
      k.IsBalance ∨ k = .loan a.asset a.destination ∨ k = .asset a.asset ∨ k = .outgoing ctx.transaction
  | .transferNft a, k => k = .nft a.nft

/-- An action that succeeds leaves every other record as it is. -/
theorem frame {action : Action} (h : Yields (action.perform ctx) s y s') : Frame (action.Touches ctx) s s' := by
  cases action with
  | payment a => exact Payment.frame h
  | mint a => exact Mint.frame h
  | createAsset a =>
    obtain ⟨-, -, -, -, -, hset⟩ := CreateAsset.of_yields h
    exact Frame.registered hset rfl
  | createNft a =>
    obtain ⟨-, bytes, -, rfl⟩ := CreateNft.of_yields h
    exact Frame.replace _ rfl
  | readNft a =>
    obtain ⟨-, rfl⟩ := ReadNft.of_yields h
    exact Frame.refl s'
  | importAsset a => exact Import.frame h
  | exportAsset a => exact Export.frame h
  | transferNft a =>
    obtain ⟨-, record, bytes, -, -, -, rfl⟩ := TransferNft.of_yields h
    exact Frame.replace _ rfl

end BridgeLedger.Action
