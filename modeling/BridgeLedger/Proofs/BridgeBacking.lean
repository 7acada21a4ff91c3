import BridgeLedger.Proofs.FederationInvariant

/-! Backing of the bridge. What a chain has lent of an asset to another one is there as supply of the bridged asset, or
on its way there, or on its way back. -/
namespace BridgeLedger

open Store

namespace Federation

/-- The loan of a local asset to another chain is the supply of the bridged asset there, and the value and rewards in
messages that were not imported yet, those on their way there and those on their way back. The record of that name is
the bridged one unless the name is that of the native asset. -/
theorem loans_backed {F : Federation} {events : List Event} {w : World} (run : F.Run events w)
    (free : F.CollisionFree w) (names : F.Unbridged events w) {home : Identifier} (hhome : home ∈ F.chains)
    (abroad : Identifier) {asset : Identifier} {record : AssetRecord}
    (hrecord : (Ledger.asset? asset).runOn (w.ledger home).1 = .ok (some record)) (hlocal : record.bridged = false) :
    ∃ (loan : UInt64) (bridged? : Option AssetRecord),
      (Ledger.loan asset abroad).runOn (w.ledger home).1 = .ok loan ∧
      (Ledger.asset? (Bridge.Origin.bridgedAsset ⟨asset, home⟩)).runOn (w.ledger abroad).1 = .ok bridged? ∧
      loan.toNat = (bridged?.filter (·.bridged)).elim 0 (·.supply.toNat) +
        w.underway (·.carries asset home abroad false) + w.underway (·.carries asset abroad home true) ∧
      (Bridge.Origin.bridgedAsset ⟨asset, home⟩ ≠ .empty → ∀ r ∈ bridged?, r.bridged = true) := by
  have horderly := Orderly.of_run run names
  have hwf (c : Identifier) : (w.ledger c).1.WellFormed := (horderly.sound c).wellFormed
  rw [LedgerRead.runOn_store, Yields.asset?_iff] at hrecord
  have hissues : F.Issues w ⟨asset, home⟩ record := ⟨hhome, local?_eq_some.2 ⟨hrecord.2, hlocal⟩⟩
  obtain ⟨loan, hloan⟩ := Cell.exists_toNat_eq_amount ((w.ledger home).1.stored (.loan asset abroad))
  refine ⟨loan, (w.ledger abroad).1.asset? (Bridge.Origin.bridgedAsset ⟨asset, home⟩), ?_, ?_, ?_, fun hname r hr => ?_⟩
  · rw [LedgerRead.runOn_store]
    exact Yields.cell_read_iff.2 ⟨(hwf home).readable rfl, hloan⟩
  · rw [LedgerRead.runOn_store]
    exact Yields.asset?_iff.2 ⟨(hwf abroad).decodes_asset _, rfl⟩
  · exact hloan.trans (horderly.backed ⟨asset, home⟩ abroad (free.distinct hissues))
  · have hnone := run.local?_bridgedAsset names hissues hname abroad
    cases hbridged : r.bridged with
    | true => rfl
    | false => cases hnone.symm.trans (local?_eq_some.2 ⟨hr, hbridged⟩)

end Federation

namespace FerriedUnits

def federation : Federation where
  network := 1
  chains := [.filled 2, .filled 3]
  named := by decide
  genesis _ := ⟨[87], 9, [(.filled 1, 1000)]⟩

def terms (reward : UInt64) : Bridge.Terms := ⟨reward, ⟨0, .empty, 0, 0⟩⟩

def event (chain transaction : Identifier) (verified : Bool) (action : Action) : Event :=
  ⟨chain, .filled 1, transaction, 0, verified, action, 0, 0⟩

def lending : Event :=
  event (.filled 2) (.filled 11) false (.exportAsset ⟨.filled 1, .empty, 100, false, terms 5, .filled 3⟩)

def following : Event :=
  event (.filled 2) (.filled 12) false (.exportAsset ⟨.filled 1, .empty, 50, false, terms 0, .filled 3⟩)

def transfer (value reward : UInt64) (transaction : Identifier) : Bridge.Transfer :=
  ⟨.filled 1, [87], 9, .empty, value, false, terms reward, transaction, .filled 3⟩

def message (t : Bridge.Transfer) : Bridge.Message := ⟨1, .filled 2, t.encode.toOption.getD []⟩

theorem decode_message : Bridge.Transfer.decode (message (transfer 100 5 (.filled 11))).payload =
    .ok (transfer 100 5 (.filled 11)) :=
  Bridge.Transfer.decode_encode rfl (by decide) (by decide) (by decide) (by decide) (by decide)

def arrival : Event :=
  event (.filled 3) (.filled 13) true (.importAsset ⟨false, message _, transfer 100 5 (.filled 11), decode_message⟩)

def returning : Event := event (.filled 3) (.filled 14) false
  (.exportAsset ⟨.filled 1, Bridge.Origin.bridgedAsset ⟨.empty, .filled 2⟩, 30, true, terms 0, .filled 2⟩)

def departed : World := federation.step (federation.step federation.opening lending) following

def world : World := federation.step (federation.step departed arrival) returning

/-- The first message is the one that arrives, nothing collides and all names are apart. -/
theorem run_checks : message (transfer 100 5 (.filled 11)) ∈ departed.emitted ∧
    (federation.inputs [returning, arrival, following, lending] world).Pairwise
      (fun x y => Identifier.digest x ≠ Identifier.digest y) ∧
    ∀ e ∈ [returning, arrival, following, lending],
      ∀ o ∈ federation.origins [returning, arrival, following, lending] world, e.transaction ≠ o.bridgedAsset := by
  decide +kernel

theorem run : federation.Run [returning, arrival, following, lending] world := by
  have hdeparted : federation.Run [following, lending] departed :=
    .step following (.step lending .opening ⟨by decide, by decide, nofun⟩) ⟨by decide, by decide, nofun⟩
  refine .step returning (.step arrival hdeparted ⟨by decide, by decide, fun _ m hm => ?_⟩)
    ⟨by decide, by decide, nofun⟩
  cases hm
  exact run_checks.1

theorem collisionFree : federation.CollisionFree world := run.collisionFree run_checks.2.1

theorem unbridged : federation.Unbridged [returning, arrival, following, lending] world :=
  run.unbridged run_checks.2.2

/-- The loan of 155 units is 75 units of supply, 50 units that leave and 30 units that come home. -/
theorem ferried_units_backed :
    (world.ledger (.filled 2)).1.amount (.loan .empty (.filled 3)) = 155 ∧
      world.underway (·.carries .empty (.filled 2) (.filled 3) false) = 50 ∧
      world.underway (·.carries .empty (.filled 3) (.filled 2) true) = 30 ∧
      ∃ (loan : UInt64) (bridged? : Option AssetRecord),
        (Ledger.loan .empty (.filled 3)).runOn (world.ledger (.filled 2)).1 = .ok loan ∧
        (Ledger.asset? (Bridge.Origin.bridgedAsset ⟨.empty, .filled 2⟩)).runOn (world.ledger (.filled 3)).1 =
          .ok bridged? ∧
        loan.toNat = (bridged?.filter (·.bridged)).elim 0 (·.supply.toNat) + 50 + 30 := by
  have hwf := (Tidy.of_run run (.filled 2)).wellFormed
  have hunits : (world.ledger (.filled 2)).1.amount (.loan .empty (.filled 3)) = 155 ∧
      world.underway (·.carries .empty (.filled 2) (.filled 3) false) = 50 ∧
      world.underway (·.carries .empty (.filled 3) (.filled 2) true) = 30 ∧
      (world.ledger (.filled 2)).1.asset? .empty = some ⟨[87], 9, [87], 1000, Limits.maxSupply, .empty, false⟩ := by
    decide +kernel
  obtain ⟨hlent, hout, hback, hasset⟩ := hunits
  have hrecord : (Ledger.asset? .empty).runOn (world.ledger (.filled 2)).1 =
      .ok (some ⟨[87], 9, [87], 1000, Limits.maxSupply, .empty, false⟩) := by
    rw [LedgerRead.runOn_store]
    exact Yields.asset?_iff.2 ⟨hwf.decodes_asset _, hasset⟩
  obtain ⟨loan, bridged?, hloan, hbridged, hsum, -⟩ :=
    Federation.loans_backed run collisionFree unbridged (by decide) (.filled 3) hrecord rfl
  rw [hout, hback] at hsum
  exact ⟨hlent, hout, hback, loan, bridged?, hloan, hbridged, hsum⟩

end FerriedUnits
end BridgeLedger
