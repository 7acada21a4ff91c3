import BridgeLedger.Proofs.GenesisAllocations
import BridgeLedger.Proofs.LedgerInvariant

/-! The state in which a chain starts: what a distribution of the native asset leaves in an empty store. It holds the
record of the native asset and its allocations, or nothing when the distribution is refused. -/
namespace BridgeLedger.Genesis

open Store Yields

/-- What a distribution leaves in an empty store, whether it succeeds or not. -/
def opening (g : Genesis) : Store :=
  match (g.apply : EStateM GenesisError Store UInt64) .empty with
  | .ok _ s => s
  | .error _ s => s

theorem opening_eq (g : Genesis) : g.opening = (g.script.run.exec .empty).2 := by
  unfold opening
  rw [apply_store]
  rcases g.script.run.exec .empty with ⟨_ | _, s⟩ <;> rfl

/-- Credits raise the native balances by what is allocated and touch nothing else. -/
private theorem of_credit {allocations : List (Address × UInt64)} {s s' : Store} {u : Unit} (hwf : s.WellFormed)
    (h : Yields (credit allocations) s u s') :
    s'.WellFormed ∧ Frame StateKey.IsBalance s s' ∧
      ∀ a, s'.held a =
        s.held a + if Identifier.empty = a then total allocations else 0 := by
  induction allocations generalizing s with
  | nil =>
    obtain ⟨-, rfl⟩ := pure_iff.1 h
    exact ⟨hwf, Frame.refl s, fun a => by simp [total, sumOver]⟩
  | cons e rest ih =>
    obtain ⟨owner, amount⟩ := e
    unfold credit at h
    split at h
    · obtain ⟨_, t, hcredit, h⟩ := bind_iff.1 h
      obtain ⟨-, hcredit⟩ := addBalance_iff.1 hcredit
      obtain ⟨hwf', hframe, hheld⟩ := ih (hwf.credited hcredit rfl) h
      refine ⟨hwf', (Frame.credited hcredit trivial).trans hframe, fun a => ?_⟩
      have := held_credited hcredit rfl a
      rw [hheld, this, total_cons]
      by_cases ha : Identifier.empty = a
      · simp only [if_pos ha]
        omega
      · simp only [if_neg ha]
    · rename_i hzero
      have hzero : amount.toNat = 0 := by simpa using congrArg UInt64.toNat (by simpa using hzero : amount = 0)
      obtain ⟨hwf', hframe, hheld⟩ := ih hwf h
      refine ⟨hwf', hframe, fun a => ?_⟩
      rw [hheld, total_cons, hzero, Nat.zero_add]

/-- A distribution on an empty store is refused and leaves it empty, or registers the native asset and credits the
allocations. -/
private theorem opening_issued (g : Genesis) :
    g.opening = .empty ∨ ∃ (supply : UInt64) (t : Store), g.symbol ≠ [] ∧ g.symbol.length ≤ Limits.maxSymbol ∧
      g.decimals ≤ Limits.maxDecimals ∧ g.supply = .ok supply ∧ Registered .empty t .empty (g.record supply) ∧
      Yields (credit g.allocations) t () g.opening := by
  rw [opening_eq]
  obtain ⟨e, hexec⟩ | ⟨supply, s', hsymbol, hdecimals, hsupply, hissue, hexec⟩ := g.exec_cases .empty
  · exact .inl (by rw [hexec])
  · obtain ⟨_, t, hset, hcredit⟩ := bind_iff.1 hissue
    rw [hexec]
    exact .inr ⟨supply, t, hsymbol.1, hsymbol.2, hdecimals, hsupply, setAsset_iff.1 hset, hcredit⟩

/-- The opening state is empty, or it holds the native asset and balances of it that add up to its supply. -/
theorem opening_cases (g : Genesis) : g.opening = .empty ∨ ∃ (total : UInt64) (t : Store),
    Registered .empty t .empty (g.record total) ∧ Frame StateKey.IsBalance t g.opening ∧ g.opening.WellFormed ∧
      ∀ a, g.opening.held a = if Identifier.empty = a then total.toNat else 0 := by
  obtain hempty | ⟨total, t, hsymbol, hlength, -, hsupply, hset, hcredit⟩ := g.opening_issued
  · exact .inl hempty
  · obtain ⟨hsum, hcap⟩ := supply_eq_ok.1 hsupply
    have hproper : (g.record total).Proper :=
      ⟨hcap, show Limits.maxSupply ≤ Limits.maxSupply by decide, ⟨hsymbol, hlength⟩, Nat.le_trans hlength (by decide)⟩
    obtain ⟨hwf, hframe, hheld⟩ := of_credit (WellFormed.empty.registered hset hproper) hcredit
    refine .inr ⟨total, t, hset, hframe, hwf, fun a => ?_⟩
    rw [hheld, held_registered hset, held_empty, Nat.zero_add, hsum]

theorem opening_asset? (g : Genesis) (a : Identifier) : g.opening.asset? a = none ∨
    a = .empty ∧ ∃ total, g.opening.asset? a = some (g.record total) := by
  obtain hempty | ⟨total, t, hset, hframe, -⟩ := g.opening_cases
  · exact .inl (by rw [hempty]; rfl)
  · rw [hframe.asset?_eq (by simp [StateKey.IsBalance])]
    by_cases ha : a = .empty
    · exact .inr ⟨ha, total, ha ▸ asset?_registered hset⟩
    · exact .inl ((Frame.registered (p := (· = .asset .empty)) hset rfl).asset?_eq (by simpa using ha))

/-- What a distribution registers is local and keeps the limits on metadata and decimals. -/
theorem opening_limits {g : Genesis} {a : Identifier} {r : AssetRecord} (hr : g.opening.asset? a = some r) :
    r.bridged = false ∧ r.metadata ≠ [] ∧ r.decimals ≤ Limits.maxDecimals := by
  obtain hempty | ⟨-, -, hsymbol, -, hdecimals, -⟩ := g.opening_issued
  · rw [hempty] at hr
    cases hr
  · obtain hnone | ⟨-, total, hrecord⟩ := g.opening_asset? a
    · cases hnone.symm.trans hr
    · cases hrecord.symm.trans hr
      exact ⟨rfl, hsymbol, hdecimals⟩

theorem opening_bridged? (g : Genesis) (a : Identifier) : g.opening.bridged? a = none := by
  obtain hnone | ⟨-, total, hrecord⟩ := g.opening_asset? a
  · exact bridged?_of_none hnone
  · exact bridged?_of_local hrecord rfl

/-- The opening state holds nothing but balances and the record of the native asset. -/
theorem opening_stored (g : Genesis) {k : StateKey} (hbalance : ¬k.IsBalance) (hasset : k ≠ .asset .empty) :
    g.opening.stored k = none := by
  obtain hempty | ⟨total, t, hset, hframe, -⟩ := g.opening_cases
  · rw [hempty]
    rfl
  · rw [hframe k hbalance, Frame.registered (p := (· = .asset .empty)) hset rfl k hasset]
    rfl

end BridgeLedger.Genesis
