import BridgeLedger.Proofs.BridgeBacking
import BridgeLedger.Proofs.ImportEffect

/-! Delivery of messages. A message that was emitted and not imported yet is imported by whoever tries, once it is no
longer bound to a swap. -/
namespace BridgeLedger

open Store Yields

namespace Action.Import

/-- No digest gives value of another chain the all-zero name of the native asset. -/
def DistinctFromNative (a : Import) : Prop := a.transfer.returning = false → a.origin.bridgedAsset ≠ .empty

variable {s : Store} {a : Import} {asset : Identifier}

/-- A message with a transfer in it is an import. -/
theorem ofMessage_of_decode {m : Bridge.Message} {t : Bridge.Transfer} (fill : Bool)
    (h : Bridge.Transfer.decode m.payload = .ok t) : ofMessage m fill = .ok ⟨fill, m, t, h⟩ :=
  ofMessage_iff.2 ⟨rfl, rfl⟩

/-- Units that arrive can be given out as long as all units of their asset fit. -/
theorem exists_distributes (ctx : Context) (hwf : s.WellFormed) (hfill : a.fill = false)
    (hroom : s.held asset + a.transfer.units < UInt64.size) (id : Identifier) :
    ∃ s', Distributes a ctx asset id s s' := by
  unfold Bridge.Transfer.units at hroom
  have hrecipient := s.amount_le_held (k := .balance a.transfer.recipient asset) (a := asset) rfl
  obtain ⟨u, hvalue⟩ := exists_credited (s := s) (k := .balance a.transfer.recipient asset)
    (n := a.transfer.value.toNat) (by omega)
  have hwfu := hwf.credited hvalue rfl
  have hheld := held_credited hvalue rfl asset
  rw [if_pos rfl] at hheld
  have hactor := u.amount_le_held (k := .balance ctx.actor asset) (a := asset) rfl
  obtain ⟨v, hreward⟩ := exists_credited (s := u) (k := .balance ctx.actor asset)
    (n := a.transfer.terms.reward.toNat) (by omega)
  obtain ⟨v', hv'⟩ : ∃ v', if 0 < a.transfer.terms.reward then
      Yields (Ledger.addBalance ctx.actor asset a.transfer.terms.reward true) u () v' else u = v' := by
    split
    · exact ⟨v, addBalance_iff.2 ⟨hwfu.readable rfl, hreward⟩⟩
    · exact ⟨u, rfl⟩
  exact ⟨v'.replace (.incoming a.message.source id) (some []), u, v', v', addBalance_iff.2 ⟨hwf.readable rfl, hvalue⟩,
    hv', by simp [hfill], rfl⟩

/-- Value comes home as long as its asset is on record and the loan to its source covers it. -/
theorem exists_release (hwf : s.WellFormed) {t : Bridge.Transfer} {source : Identifier} {total : UInt64}
    {record : AssetRecord} (hrecord : s.local? t.asset = some record) (hsymbol : record.symbol = t.symbol)
    (hdecimals : record.decimals = t.decimals) (hcovered : total.toNat ≤ s.amount (.loan t.asset source)) :
    ∃ s', Yields (release t source total) s t.asset s' ∧ s'.WellFormed ∧
      s'.held t.asset + total.toNat = s.held t.asset := by
  obtain ⟨s', hdebit⟩ := exists_debited hcovered
  obtain ⟨hasset, hlocal⟩ := local?_eq_some.1 hrecord
  have hheld := held_debited hdebit rfl t.asset
  rw [if_pos rfl] at hheld
  exact ⟨s', release_iff.2 ⟨rfl, hwf.decodes_asset _, hwf.readable rfl, ⟨record, hasset, hlocal, hsymbol, hdecimals⟩,
    hdebit⟩, hwf.debited hdebit rfl, hheld⟩

/-- Value arrives as long as its name is not that of a local asset, or of a bridged one with another symbol or other
decimals or without room for it. -/
theorem exists_mint (hwf : s.WellFormed) {t : Bridge.Transfer} {source : Identifier} {total : UInt64}
    (hsymbol : t.symbol ≠ [] ∧ t.symbol.length ≤ Limits.maxSymbol)
    (hlocal : s.local? (Bridge.Origin.bridgedAsset ⟨t.asset, source⟩) = none)
    (hsame : ∀ r, s.bridged? (Bridge.Origin.bridgedAsset ⟨t.asset, source⟩) = some r →
      r.symbol = t.symbol ∧ r.decimals = t.decimals ∧ r.maxSupply = Limits.maxSupply)
    (hroom : s.bridgedSupply (Bridge.Origin.bridgedAsset ⟨t.asset, source⟩) + total.toNat ≤ Limits.maxSupply.toNat) :
    ∃ s', Yields (mint t source total) s (Bridge.Origin.bridgedAsset ⟨t.asset, source⟩) s' ∧ s'.WellFormed ∧
      ∀ x, s'.held x = s.held x := by
  have hasset := asset?_eq_bridged? hlocal
  obtain ⟨record, hjoins, hmax⟩ : ∃ record,
      Joins t ⟨t.asset, source⟩ record (s.asset? (Bridge.Origin.bridgedAsset ⟨t.asset, source⟩)) ∧
        record.maxSupply = Limits.maxSupply := by
    rw [hasset]
    cases hr : s.bridged? (Bridge.Origin.bridgedAsset ⟨t.asset, source⟩) with
    | none => exact ⟨_, rfl, rfl⟩
    | some r =>
      obtain ⟨hs, hd, hmax⟩ := hsame r hr
      exact ⟨r, ⟨rfl, (bridged?_eq_some.1 hr).2, hs, hd⟩, hmax⟩
  have hproper := proper_of_joins hwf hsymbol hjoins
  have hsupply : s.bridgedSupply (Bridge.Origin.bridgedAsset ⟨t.asset, source⟩) = record.supply.toNat := by
    rw [bridgedSupply, ← hasset]
    exact hjoins.of_asset?.1
  rw [hsupply] at hroom
  have hsum : (UInt64.ofNat (record.supply.toNat + total.toNat)).toNat = record.supply.toNat + total.toNat :=
    UInt64.toNat_ofNat_of_lt' (Nat.lt_of_le_of_lt hroom (by decide))
  have hcap : UInt64.ofNat (record.supply.toNat + total.toNat) ≤ record.maxSupply := by
    rw [hmax, UInt64.le_iff_toNat_le, hsum]
    exact hroom
  have hraised : AssetRecord.Proper { record with supply := UInt64.ofNat (record.supply.toNat + total.toNat) } :=
    ⟨hcap, hproper.limited, hproper.symbol, hproper.metadata⟩
  obtain ⟨s', hset⟩ := s.exists_registered (Bridge.Origin.bridgedAsset ⟨t.asset, source⟩) hraised
  exact ⟨s', mint_iff.2 ⟨rfl, hwf.decodes_asset _, record, _, hjoins, hsum, hcap, hset⟩, hwf.registered hset hraised,
    held_registered hset⟩

end Action.Import

namespace Federation

variable {F : Federation} {events : List Event} {w : World} {m : Bridge.Message} {t : Bridge.Transfer}
  {id : Identifier}

namespace Orderly

/-- The mark of another message does not stand in the way. -/
theorem unmarked (h : Orderly F w) (free : F.CollisionFree w) (hm : m ∈ w.emitted) (hnew : m ∉ w.imported)
    (hid : m.identifier = .ok id) (c : Identifier) : (w.ledger c).1.marked m.source id = false := by
  cases hmarked : (w.ledger c).1.marked m.source id with
  | false => rfl
  | true =>
    obtain ⟨m', hm', hsource, hid', -⟩ := (h.marked c m.source id).1 hmarked
    obtain ⟨bytes, hbytes, hdigest⟩ := exists_ok_of_bind hid
    obtain ⟨bytes', hbytes', hdigest'⟩ := exists_ok_of_bind hid'
    have hhashed := free _ _ (.message hm hbytes) (.message (h.received m' hm') hbytes')
      ((Except.ok.inj hdigest).trans (Except.ok.inj hdigest').symm)
    obtain ⟨t, hposted⟩ := h.posted m hm
    have hnamed : m.source ≠ .empty := fun hempty => F.named (hempty ▸ hposted.source)
    have hdecoded := Bridge.Message.decode_encode hbytes hnamed
    rw [List.append_cancel_left hhashed, Bridge.Message.decode_encode hbytes' (hsource ▸ hnamed)] at hdecoded
    cases hdecoded
    exact absurd hm' hnew

/-- The units that a message brings home are covered by the loan to its source. -/
theorem covered (h : Orderly F w) (free : F.CollisionFree w) (hm : m ∈ w.emitted) (hnew : m ∉ w.imported)
    (hposted : Posted F w m t) (hhomeward : t.returning = true) :
    t.units ≤ (w.ledger t.destination).1.amount (.loan t.asset m.source) := by
  obtain ⟨home, hissued, -⟩ := hposted.issued_homeward hhomeward
  have hbacked := h.backed _ m.source (free.distinct hissued)
  have hcarried := World.le_underway (·.carries t.asset m.source t.destination true) h.distinct hm hnew
  rw [Bridge.Message.carries_eq hposted.decoded, if_pos ⟨rfl, rfl, rfl, hhomeward.symm⟩] at hcarried
  unfold World.Backed at hbacked
  dsimp only at hbacked
  omega

/-- There is room for the units that a message takes abroad: all of them are lent. -/
theorem roomy (h : Orderly F w) (free : F.CollisionFree w) (hm : m ∈ w.emitted) (hnew : m ∉ w.imported)
    (hposted : Posted F w m t) (houtward : t.returning = false) :
    (w.ledger t.destination).1.bridgedSupply (Bridge.Origin.bridgedAsset ⟨t.asset, m.source⟩) + t.units ≤
      Limits.maxSupply.toNat := by
  obtain ⟨home, hissued, -⟩ := hposted.issued_outward houtward
  have hbacked := h.backed _ t.destination (free.distinct hissued)
  have hcarried := World.le_underway (·.carries t.asset m.source t.destination false) h.distinct hm hnew
  rw [Bridge.Message.carries_eq hposted.decoded, if_pos ⟨rfl, rfl, rfl, houtward.symm⟩] at hcarried
  have hlent := (w.ledger m.source).1.amount_le_held (k := .loan t.asset t.destination) rfl
  have hheld := (h.sound m.source).held_le t.asset
  unfold World.Backed at hbacked
  dsimp only at hbacked
  omega

/-- A bridged asset on record has the symbol and the decimals of every message of its origin. -/
theorem same_asset (h : Orderly F w) (free : F.CollisionFree w) (hposted : Posted F w m t)
    (houtward : t.returning = false) {c : Identifier} {r : AssetRecord}
    (hr : (w.ledger c).1.bridged? (Bridge.Origin.bridgedAsset ⟨t.asset, m.source⟩) = some r) :
    r.symbol = t.symbol ∧ r.decimals = t.decimals ∧ r.maxSupply = Limits.maxSupply := by
  obtain ⟨home, hissued, hsymbol, hdecimals⟩ := hposted.issued_outward houtward
  obtain ⟨o, home', hstands⟩ := h.rooted _ _ _ hr
  cases free.distinct hissued _ _ hstands.issued hstands.name.symm
  cases hissued.record.symm.trans hstands.issued.record
  exact ⟨hstands.symbol.symm.trans hsymbol, hstands.decimals.symm.trans hdecimals, hstands.limit⟩

/-- Nothing that an import checks before it moves units stands in its way. -/
theorem admits (h : Orderly F w) (free : F.CollisionFree w) {a : Action.Import} {ctx : Context}
    (hposted : Posted F w a.message a.transfer) (hm : a.message ∈ w.emitted) (hnew : a.message ∉ w.imported)
    (hfill : a.fill = false) (hverified : ctx.verified = true) (hnetwork : ctx.network = F.network)
    (hchain : ctx.chain = a.transfer.destination)
    (hunbound : a.transfer.terms.swap.offered = true → a.transfer.terms.swap.expiry ≤ ctx.timestamp) :
    ∃ id, a.Admits ctx (w.ledger a.transfer.destination).1 id := by
  obtain ⟨bytes, hbytes⟩ := hposted.encoded
  have hid : a.message.identifier = .ok (Identifier.digest (Bridge.Message.label ++ bytes)) := by
    rw [Bridge.Message.identifier, hbytes]
    rfl
  refine ⟨Identifier.digest (Bridge.Message.label ++ bytes), ?_⟩
  exact {
    verified := hverified
    network := hposted.network.trans hnetwork.symm
    destination := hchain.symm
    fillable := fun hf => absurd (hfill.symm.trans hf) Bool.false_ne_true
    unbound := fun hbound => by
      simp only [hfill, Bool.not_false, Bool.and_true] at hbound
      exact Int64.not_lt.2 (hunbound hbound)
    identifier := hid
    unmarked := h.unmarked free hm hnew hid _ }

/-- The units that an import brings can be released or minted. Once they are there, no more of the asset is held than
its largest supply. -/
theorem exists_moved (h : Orderly F w) (free : F.CollisionFree w) {a : Action.Import}
    (hposted : Posted F w a.message a.transfer) (hm : a.message ∈ w.emitted) (hnew : a.message ∉ w.imported)
    (hlocal : a.transfer.returning = false → (w.ledger a.transfer.destination).1.local? a.origin.bridgedAsset = none)
    {total : UInt64} (htotal : a.transfer.total? = some total) :
    ∃ asset u, Yields (if a.transfer.returning then Action.Import.release a.transfer a.message.source total
        else Action.Import.mint a.transfer a.message.source total) (w.ledger a.transfer.destination).1 asset u ∧
      u.WellFormed ∧ u.held asset + a.transfer.units ≤ Limits.maxSupply.toNat := by
  have hunits := Bridge.Transfer.units_of_total? htotal
  have hsound := h.sound a.transfer.destination
  cases hreturning : a.transfer.returning with
  | true =>
    obtain ⟨home, hissued, hsymbol, hdecimals⟩ := hposted.issued_homeward hreturning
    obtain ⟨u, hmove, hwfu, hleft⟩ := Action.Import.exists_release hsound.wellFormed hissued.record hsymbol hdecimals
      (hunits ▸ h.covered free hm hnew hposted hreturning)
    have := hsound.held_le a.transfer.asset
    exact ⟨_, u, hmove, hwfu, by omega⟩
  | false =>
    have hroomy := h.roomy free hm hnew hposted hreturning
    obtain ⟨u, hmove, hwfu, hsame⟩ := Action.Import.exists_mint hsound.wellFormed
      a.acceptable.symbol (hlocal hreturning) (fun r => h.same_asset free hposted hreturning)
      (hunits ▸ hroomy)
    have hconserved := hsound.conserved a.origin.bridgedAsset
    rw [supply, asset?_eq_bridged? (hlocal hreturning)] at hconserved
    exact ⟨_, u, hmove, hwfu, by rw [hsame]; exact hconserved ▸ hroomy⟩

/-- An import of a message on its way would succeed, whoever tries. -/
theorem exists_import (h : Orderly F w) (free : F.CollisionFree w) (a : Action.Import) (ctx : Context)
    (hm : a.message ∈ w.emitted) (hnew : a.message ∉ w.imported) (hfill : a.fill = false)
    (hlocal : a.transfer.returning = false → (w.ledger a.transfer.destination).1.local? a.origin.bridgedAsset = none)
    (hverified : ctx.verified = true) (hnetwork : ctx.network = F.network)
    (hchain : ctx.chain = a.transfer.destination)
    (hunbound : a.transfer.terms.swap.offered = true → a.transfer.terms.swap.expiry ≤ ctx.timestamp) :
    ∃ s', Yields (a.execute ctx) (w.ledger a.transfer.destination).1 {} s' := by
  obtain ⟨t, hposted⟩ := h.posted _ hm
  cases hposted.decoded.symm.trans a.decoded
  obtain ⟨id, hadmits⟩ := h.admits free hposted hm hnew hfill hverified hnetwork hchain hunbound
  obtain ⟨total, htotal⟩ : ∃ total, a.transfer.total? = some total := by
    cases htotal : a.transfer.total? with
    | some total => exact ⟨total, rfl⟩
    | none => exact absurd hposted.fits (Nat.not_lt.2 (Amount.add?_eq_none_iff.1 htotal))
  obtain ⟨asset, u, hmove, hwfu, hroom⟩ := h.exists_moved free hposted hm hnew hlocal htotal
  obtain ⟨s', hrest⟩ :=
    Action.Import.exists_distributes ctx hwfu hfill (Nat.lt_of_le_of_lt hroom (by decide)) id
  exact ⟨s', Action.Import.execute_iff.2 ⟨rfl, id, total, asset, u, hadmits, htotal, hmove, hrest⟩⟩

end Orderly

/-- A message that was emitted and not imported yet is an import, and a transaction that is not on record imports it
with its effect on the state of the destination, once the swap in it has expired. -/
theorem emitted_message_imports (run : F.Run events w) (free : F.CollisionFree w) (names : F.Unbridged events w)
    (hm : m ∈ w.emitted) (hnew : m ∉ w.imported) :
    ∃ a : Action.Import, Action.Import.ofMessage m false = .ok a ∧
      (a.DistinctFromNative →
        ∀ (relayer : Address) (transaction : Identifier) (timestamp : Int64) (signatureUnits fee : UInt64),
          (w.ledger a.transfer.destination).2.find? (transactionKey transaction) = none →
          (a.transfer.terms.swap.offered = true → a.transfer.terms.swap.expiry ≤ timestamp) →
          ∃ receipt ledger, Execution.executeRecorded
            ((Chain.mk a.transfer.destination F.network).context relayer transaction timestamp true) (.importAsset a)
            signatureUnits fee (w.ledger a.transfer.destination) = .ok receipt ledger ∧
            receipt.outcome.succeeded = true ∧
            a.Effect ((Chain.mk a.transfer.destination F.network).context relayer transaction timestamp true)
              (w.ledger a.transfer.destination).1 ledger.1) := by
  have horderly := Orderly.of_run run names
  obtain ⟨t, hposted⟩ := horderly.posted m hm
  let a : Action.Import := ⟨false, m, t, hposted.decoded⟩
  refine ⟨a, Action.Import.ofMessage_of_decode false hposted.decoded,
    fun hname relayer transaction timestamp signatureUnits fee hfresh hunbound => ?_⟩
  have hlocal (houtward : t.returning = false) :
      (w.ledger t.destination).1.local? (Bridge.Origin.bridgedAsset ⟨t.asset, m.source⟩) = none := by
    obtain ⟨home, hissued, -⟩ := hposted.issued_outward houtward
    exact run.local?_bridgedAsset names hissued (hname houtward) t.destination
  let ctx := (Chain.mk t.destination F.network).context relayer transaction timestamp true
  have himport : ∃ s', Yields ((Action.importAsset a).perform ctx) (w.ledger t.destination).1 {} s' :=
    horderly.exists_import free a ctx hm hnew rfl hlocal rfl rfl rfl hunbound
  obtain ⟨s', himport⟩ := himport
  obtain ⟨receipt, m', hok, houtcome⟩ :=
    Execution.executeRecorded_of_yields signatureUnits fee hfresh ⟨_, rfl⟩ himport
  have hlegible : (w.ledger t.destination).1.Legible := .of_wellFormed (horderly.sound t.destination).wellFormed
  exact ⟨receipt, (s', m'), hok, by rw [houtcome]; rfl, Action.Import.effect himport hlegible⟩

end Federation

namespace FerriedUnits

/-- The second message arrives by another transaction, and its fifty units with it. -/
theorem following_message_imports :
    message (transfer 50 0 (.filled 12)) ∈ world.emitted ∧ message (transfer 50 0 (.filled 12)) ∉ world.imported ∧
      ∃ a receipt ledger, Action.Import.ofMessage (message (transfer 50 0 (.filled 12))) false = .ok a ∧
        Execution.executeRecorded ((Chain.mk (.filled 3) 1).context (.filled 4) (.filled 15) 0 true) (.importAsset a)
          0 0 (world.ledger (.filled 3)) = .ok receipt ledger ∧ receipt.outcome.succeeded = true ∧
        a.Effect ((Chain.mk (.filled 3) 1).context (.filled 4) (.filled 15) 0 true) (world.ledger (.filled 3)).1
          ledger.1 := by
  have hpending : message (transfer 50 0 (.filled 12)) ∈ world.emitted ∧
      message (transfer 50 0 (.filled 12)) ∉ world.imported ∧
      (world.ledger (.filled 3)).2.find? (transactionKey (.filled 15)) = none ∧
      Bridge.Origin.bridgedAsset ⟨.empty, .filled 2⟩ ≠ .empty := by decide +kernel
  obtain ⟨hm, hnew, hfresh, hname⟩ := hpending
  obtain ⟨a, ha, himports⟩ := Federation.emitted_message_imports run collisionFree unbridged hm hnew
  have hdecoded : Bridge.Transfer.decode (message (transfer 50 0 (.filled 12))).payload =
      .ok (transfer 50 0 (.filled 12)) :=
    Bridge.Transfer.decode_encode rfl (by decide) (by decide) (by decide) (by decide) (by decide)
  cases ha.symm.trans (Action.Import.ofMessage_of_decode false hdecoded)
  dsimp only [transfer] at himports
  obtain ⟨receipt, ledger, hok, hsucceeded, heffect⟩ := himports (fun _ => hname) (.filled 4) (.filled 15) 0 0 0 hfresh
    (fun hoffered => absurd hoffered (by decide))
  exact ⟨hm, hnew, _, receipt, ledger, ha, hok, hsucceeded, heffect⟩

end FerriedUnits
end BridgeLedger
