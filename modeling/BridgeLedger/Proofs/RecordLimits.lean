import BridgeLedger.Proofs.AssetIdentity
import BridgeLedger.Proofs.SendableActions
import BridgeLedger.Proofs.TokenProvenance

/-! Limits of what is on record, in every history of a chain. Tokens and local assets keep all limits of the data model.
A bridged asset keeps those on lengths and amounts, but its decimals are those of a transfer that was imported, and
nothing checks them. -/
namespace BridgeLedger

open Store Yields

theorem Yields.proceeds {α : Type} {x : ActionScript α} {s s' : Store} {a : α} (h : Yields x s a s') : Proceeds x := by
  rintro reason rfl
  exact not_refuse h

theorem Bridge.Origin.metadata_ne_nil (o : Bridge.Origin) : o.metadata ≠ [] := by
  intro hnil
  have hlength := congrArg List.length hnil
  simp [metadata] at hlength

structure NftRecord.Proper (r : NftRecord) : Prop where
  metadata : r.metadata ≠ [] ∧ r.metadata.length ≤ Limits.maxMetadata
  url : r.url ≠ [] ∧ r.url.length ≤ Limits.maxUrl

/-- A record of an asset with metadata, and with decimals within the limit if it is local. -/
structure AssetRecord.Described (r : AssetRecord) : Prop where
  metadata : r.metadata ≠ []
  decimals : r.bridged = false → r.decimals ≤ Limits.maxDecimals

theorem Store.Opening.described {s : Store} (h : s.Opening) {x : Identifier} {r : AssetRecord} (hr : s.asset? x = some r) :
    r.Described := by
  obtain hempty | ⟨g, hg⟩ := h
  · rw [hempty] at hr
    cases hr
  · rw [hg] at hr
    obtain ⟨-, hmetadata, hdecimals⟩ := Genesis.opening_limits hr
    exact ⟨hmetadata, fun _ => hdecimals⟩

namespace Call

variable {start : Store × Store} {calls : List Call} {x n : Identifier} {i : Nat}

/-- The call at this place of a history imports a transfer of another chain's asset, with success. -/
def BringsAt (start : Store × Store) (calls : List Call) (x : Identifier) (t : Bridge.Transfer) (i : Nat) : Prop :=
  ∃ a, MintsAt start calls a i ∧ a.transfer = t ∧ x = a.origin.bridgedAsset

/-- Every record of an asset in a history is described. -/
theorem described (hstart : start.1.Opening) (calls : List Call) {r : AssetRecord}
    (hr : (runAll start calls).1.asset? x = some r) : r.Described := by
  refine runAll_keeps (p := fun s => ∀ r, s.asset? x = some r → r.Described) (fun r hr => hstart.described hr) ?_ calls r hr
  intro c s s' y hyields ih r hr
  obtain ⟨before, supply, hbefore, rfl⟩ | ⟨a, haction, rfl⟩ | ⟨a, supply, -, -, -, rfl⟩ := Action.asset?_cases hyields hr
  · exact ⟨(ih before hbefore).metadata, (ih before hbefore).decimals⟩
  · rw [haction] at hyields
    obtain ⟨-, hdecimals, hmetadata, -⟩ := Action.CreateAsset.limits_of_proceeds hyields.proceeds
    exact ⟨hmetadata, fun _ => hdecimals⟩
  · exact ⟨a.origin.metadata_ne_nil, nofun⟩

/-- Every token in a history is within the limits. -/
theorem nft_proper (hstart : start.1.Opening) (calls : List Call) {r : NftRecord}
    (hr : (runAll start calls).1.nft? n = some r) : r.Proper := by
  have hnone := hstart.stored_eq_none (k := .nft n) (fun h => h) nofun
  refine runAll_keeps (p := fun s => ∀ r, s.nft? n = some r → r.Proper)
    (fun r hr => by simp [Store.nft?, hnone] at hr) ?_ calls r hr
  intro c s s' y hyields ih r hr
  obtain ⟨-, hkept⟩ | ⟨a, haction, -, hcreated⟩ | ⟨a, before, -, -, hbefore, -, hgiven⟩ := Action.token_cases hyields n
  · exact ih r (by rwa [Store.nft?, ← hkept])
  · cases hcreated.symm.trans hr
    rw [haction] at hyields
    have hlimits : (Action.createNft a).WithinLimits := Action.withinLimits_of_proceeds hyields.proceeds rfl
    exact ⟨hlimits.1, hlimits.2⟩
  · cases hgiven.symm.trans hr
    exact ⟨(ih before hbefore).metadata, (ih before hbefore).url⟩

/-- An import leaves the decimals of its transfer on record. -/
theorem decimals_of_brings {t : Bridge.Transfer} (h : BringsAt start calls x t i) :
    ∃ r, (runAll start (calls.take (i + 1))).1.asset? x = some r ∧ r.bridged = true ∧ r.symbol = t.symbol ∧
      r.decimals = t.decimals := by
  obtain ⟨a, ⟨c, hc, haction, houtward, hsucceeded⟩, rfl, rfl⟩ := h
  obtain ⟨y, hyields⟩ := yields_of_succeeded hsucceeded
  rw [haction] at hyields
  obtain ⟨record, supply, hjoins, hafter⟩ := Action.Import.asset?_of_outward hyields houtward
  obtain ⟨-, -, hbridged, hsymbol, hdecimals⟩ := hjoins.of_asset?
  rw [runAll_take_succ hc]
  exact ⟨_, hafter, hbridged, hsymbol, hdecimals⟩

/-- In every history of a chain all look-ups of assets and tokens answer. Their records keep the limits of the data
model, except that a bridged asset has the decimals of a transfer that was imported: they exceed the limit when and only
when those do. -/
theorem record_limits {start : Store × Store} (hstart : start.1.Opening) (calls : List Call) :
    (∀ x, ∃ r?, (Ledger.asset? x).runOn (runAll start calls).1 = .ok r? ∧ ∀ r, r? = some r →
      r.Proper ∧ r.metadata ≠ [] ∧ (r.decimals ≤ Limits.maxDecimals ∨ r.bridged = true ∧ ∃ i t,
        BringsAt start calls x t i ∧ Limits.maxDecimals < t.decimals ∧ r.symbol = t.symbol ∧
          r.decimals = t.decimals)) ∧
    (∀ x t i, BringsAt start calls x t i → ∃ r, (runAll start (calls.take (i + 1))).1.asset? x = some r ∧
      r.bridged = true ∧ r.symbol = t.symbol ∧ r.decimals = t.decimals) ∧
    ∀ n, ∃ r?, (Ledger.nft? n).runOn (runAll start calls).1 = .ok r? ∧ ∀ r, r? = some r → r.Proper := by
  have hwf := runAll_wellFormed hstart calls
  refine ⟨fun x => ⟨(runAll start calls).1.asset? x, ?_, fun r hr => ⟨hwf.proper hr, ?_⟩⟩,
    fun x t i => decimals_of_brings,
    fun n => ⟨(runAll start calls).1.nft? n, ?_, fun r hr => nft_proper hstart calls hr⟩⟩
  · rw [LedgerRead.runOn_store]
    exact asset?_iff.2 ⟨hwf.decodes_asset x, rfl⟩
  · obtain ⟨hmetadata, hlocal⟩ := described hstart calls hr
    refine ⟨hmetadata, ?_⟩
    by_cases hlimit : r.decimals ≤ Limits.maxDecimals
    · exact .inl hlimit
    · have hbridged : r.bridged = true := by
        rw [← Bool.not_eq_false]
        exact fun hfalse => hlimit (hlocal hfalse)
      have hthere : (runAll start (calls.take calls.length)).1.bridged? x = some r := by
        rw [List.take_length]
        exact bridged?_eq_some.2 ⟨hr, hbridged⟩
      obtain ⟨i, -, a, supply, hmints, hx, rfl⟩ := exists_mintsAt hstart hthere
      exact .inr ⟨hbridged, i, a.transfer, ⟨a, hmints, rfl, hx⟩, UInt8.not_le.1 hlimit, rfl, rfl⟩
  · exact nft?_runOn fun bytes hbytes => hwf.admits hbytes

end Call

namespace FineUnits

def transfer (decimals : UInt8) : Bridge.Transfer := { ForeignUnits.transfer with decimals }

def message (decimals : UInt8) : Bridge.Message := ⟨1, .filled 8, (transfer decimals).encode.toOption.getD []⟩

theorem decode_message (decimals : UInt8) :
    Bridge.Transfer.decode (message decimals).payload = .ok (transfer decimals) := by
  have h := (Bridge.Transfer.decode_iff.1 ForeignUnits.decode_message).2
  exact Bridge.Transfer.decode_iff.2 ⟨rfl, h.symbol, h.value, h.transaction, h.destination, h.swap⟩

def arrival (decimals : UInt8) : Call :=
  ⟨⟨.filled 1, .filled 7, 0, .filled 9, 1, true⟩,
    .importAsset ⟨false, message decimals, transfer decimals, decode_message decimals⟩, none⟩

def start : Store × Store := (LentUnits.genesis.opening, .empty)

theorem opening : start.1.Opening := .inr ⟨LentUnits.genesis, rfl⟩

theorem brings {decimals : UInt8} (h : Execution.succeeded (arrival decimals).run start = true) :
    Call.BringsAt start [arrival decimals] ForeignUnits.asset (transfer decimals) 0 :=
  ⟨_, ⟨arrival decimals, rfl, rfl, rfl, h⟩, rfl, rfl⟩

/-- Units with as many decimals as the limit allows. -/
theorem finest_within_limits : ∃ r,
    (Ledger.asset? ForeignUnits.asset).runOn (Call.runAll start [arrival 9]).1 = .ok (some r) ∧
      r.Proper ∧ r.metadata ≠ [] ∧ r.bridged = true ∧ r.decimals = Limits.maxDecimals := by
  obtain ⟨hassets, hbrought, -⟩ := Call.record_limits opening [arrival 9]
  obtain ⟨r, hr, hbridged, -, hdecimals⟩ := hbrought _ _ 0 (brings (by decide +kernel))
  obtain ⟨r?, hlookup, hlimits⟩ := hassets ForeignUnits.asset
  obtain rfl : r? = some r := by
    rw [LedgerRead.runOn_store] at hlookup
    exact (asset?_iff.1 hlookup).2.symm.trans hr
  obtain ⟨hproper, hmetadata, -⟩ := hlimits r rfl
  exact ⟨r, hlookup, hproper, hmetadata, hbridged, hdecimals⟩

/-- Units with one decimal more arrive just as well, and their record has more than the data model allows. -/
theorem finer_beyond_limits : ∃ r,
    (Ledger.asset? ForeignUnits.asset).runOn (Call.runAll start [arrival 10]).1 = .ok (some r) ∧
      Limits.maxDecimals < r.decimals := by
  have harrives : Execution.succeeded (arrival 10).run start = true := by decide +kernel
  obtain ⟨r, hr, -, -, hdecimals⟩ := Call.decimals_of_brings (brings harrives)
  refine ⟨r, ?_, by rw [hdecimals]; decide⟩
  rw [LedgerRead.runOn_store]
  exact asset?_iff.2 ⟨(Call.runAll_wellFormed opening [arrival 10]).decodes_asset _, hr⟩

end FineUnits
end BridgeLedger
