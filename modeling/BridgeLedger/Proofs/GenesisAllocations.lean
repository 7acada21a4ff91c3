import BridgeLedger.Genesis
import BridgeLedger.Proofs.Holdings
import BridgeLedger.Proofs.LedgerOperations

/-! The first distribution of the native asset on any store in memory. It has no effect or it issues exactly what is
allocated, in whatever order the allocations stand. -/
namespace BridgeLedger

open Store Yields

namespace Genesis

def total (allocations : List (Address × UInt64)) : Nat := sumOver (fun e => e.2.toNat) allocations

theorem total_cons (owner : Address) (amount : UInt64) (rest : List (Address × UInt64)) :
    total ((owner, amount) :: rest) = amount.toNat + total rest := rfl

section Supply

/-- The sum is found as long as it fits, whatever the order of the summands. -/
theorem foldlM_add? (allocations : List (Address × UInt64)) (start : UInt64) :
    (allocations.map Prod.snd).foldlM Amount.add? start =
      if start.toNat + total allocations < UInt64.size then some (.ofNat (start.toNat + total allocations))
      else none := by
  induction allocations generalizing start with
  | nil =>
    rw [total, sumOver, Nat.add_zero, if_pos start.toNat_lt, UInt64.ofNat_toNat]
    rfl
  | cons e rest ih =>
    obtain ⟨owner, amount⟩ := e
    rw [List.map_cons, List.foldlM_cons, total_cons, ← Nat.add_assoc]
    cases hnext : Amount.add? start amount with
    | none =>
      have hlarge := Amount.add?_eq_none_iff.1 hnext
      rw [if_neg (by omega)]
      rfl
    | some next => rw [← Amount.toNat_of_add?_eq_some hnext, Option.bind_eq_bind, Option.bind_some, ih]

theorem supply_eq (g : Genesis) : g.supply =
    if total g.allocations ≤ Limits.maxSupply.toNat then .ok (.ofNat (total g.allocations)) else .error .supply := by
  have hmax : Limits.maxSupply.toNat < UInt64.size := by decide
  unfold supply sum?
  rw [foldlM_add?, show (0 : UInt64).toNat = 0 from rfl, Nat.zero_add]
  by_cases hfits : total g.allocations < UInt64.size
  · rw [if_pos hfits]
    simp only [UInt64.le_iff_toNat_le, UInt64.toNat_ofNat_of_lt' hfits]
  · rw [if_neg hfits, if_neg (by omega)]

theorem supply_eq_ok {g : Genesis} {supply : UInt64} :
    g.supply = .ok supply ↔ supply.toNat = total g.allocations ∧ supply ≤ Limits.maxSupply := by
  have hmax : Limits.maxSupply.toNat < UInt64.size := by decide
  rw [supply_eq, UInt64.le_iff_toNat_le]
  split
  · rename_i hfits
    have htotal : (UInt64.ofNat (total g.allocations)).toNat = total g.allocations :=
      UInt64.toNat_ofNat_of_lt' (Nat.lt_of_le_of_lt hfits hmax)
    constructor
    · rintro ⟨⟩
      exact ⟨htotal, Nat.le_trans (Nat.le_of_eq htotal) hfits⟩
    · rintro ⟨hsupply, -⟩
      rw [← hsupply, UInt64.ofNat_toNat]
  · rename_i hlarge
    constructor
    · nofun
    · rintro ⟨hsupply, hcapped⟩
      exact absurd (hsupply ▸ hcapped) hlarge

end Supply

section Credit

end Credit

section Script

/-- A ledger operation inside a distribution. -/
theorem exec_ofLedger {α : Type} (x : LedgerScript α) (s : Store) :
    (ofLedger x).run.exec s = ((x.run.exec s).1.mapError .ledger, (x.run.exec s).2) := by
  change (Except.mapError GenesisError.ledger <$> x.run).exec s = _
  rw [map_eq_pure_bind, Script.exec_bind]
  rfl

def issue (g : Genesis) (supply : UInt64) : LedgerScript Unit := do
  Ledger.setAsset .empty (g.record supply)
  credit g.allocations

private theorem exec_issue (g : Genesis) (supply : UInt64) (s : Store) :
    (do ofLedger (Ledger.setAsset .empty (g.record supply)); ofLedger (credit g.allocations) :
      ExceptT GenesisError Script Unit).run.exec s =
    (((g.issue supply).run.exec s).1.mapError .ledger, ((g.issue supply).run.exec s).2) := by
  rw [issue, Script.exec_run_bind, Script.exec_run_bind, exec_ofLedger]
  rcases (Ledger.setAsset .empty (g.record supply)).run.exec s with ⟨e | _, t⟩
  · rfl
  · exact exec_ofLedger (credit g.allocations) t

theorem symbol_iff {g : Genesis} : ¬(g.symbol.isEmpty || decide (Limits.maxSymbol < g.symbol.length)) = true ↔
    g.symbol ≠ [] ∧ g.symbol.length ≤ Limits.maxSymbol := by simp

/-- A distribution looks at its own terms and at the record of the native asset. Only then is something written. -/
theorem exec_script (g : Genesis) (s : Store) : g.script.run.exec s =
    if g.symbol.isEmpty || decide (Limits.maxSymbol < g.symbol.length) then (.error .symbol, s)
    else if Limits.maxDecimals < g.decimals then (.error .decimals, s)
    else match (Ledger.asset? .empty).run.eval s with
      | .error e => (.error (.ledger e), s)
      | .ok (some _) => (.error .alreadyApplied, s)
      | .ok none => match g.supply with
        | .error e => (.error e, s)
        | .ok supply => match (g.issue supply).run.exec s with
          | (.error e, _) => (.error (.ledger e), s)
          | (.ok (), s') => (.ok supply, s') := by
  by_cases hsymbol : (g.symbol.isEmpty || decide (Limits.maxSymbol < g.symbol.length)) = true
  · simp only [script, if_pos hsymbol]
    rfl
  by_cases hdecimals : Limits.maxDecimals < g.decimals
  · simp only [script, if_neg hsymbol, if_pos hdecimals]
    rfl
  have hread : (ofLedger (liftM (Ledger.asset? .empty))).run.exec s =
      (((Ledger.asset? .empty).run.eval s).mapError .ledger, s) := by
    rw [exec_ofLedger, LedgerScript.exec_read]
  simp only [script, if_neg hsymbol, if_neg hdecimals, Script.exec_run_bind, hread]
  rcases (Ledger.asset? .empty).run.eval s with e | _ | record
  · rfl
  · cases g.supply with
    | error e => rfl
    | ok supply =>
      change (Script.staged _ >>= fun _ => pure supply).run.exec s = _
      rw [Script.exec_run_bind, Script.exec_staged, exec_issue]
      dsimp only
      rcases (g.issue supply).run.exec s with ⟨e | _, s'⟩ <;> rfl
  · rfl

/-- A distribution fails without effect, or its terms are fine, there is no record yet, and everything is written. -/
theorem exec_cases (g : Genesis) (s : Store) :
    (∃ e, g.script.run.exec s = (.error e, s)) ∨ ∃ supply s', (g.symbol ≠ [] ∧ g.symbol.length ≤ Limits.maxSymbol) ∧
      g.decimals ≤ Limits.maxDecimals ∧ g.supply = .ok supply ∧ Yields (g.issue supply) s () s' ∧
      g.script.run.exec s = (.ok supply, s') := by
  rw [exec_script]
  split
  · exact .inl ⟨_, rfl⟩
  rename_i hsymbol
  split
  · exact .inl ⟨_, rfl⟩
  rename_i hdecimals
  rcases (Ledger.asset? .empty).run.eval s with e | _ | record
  · exact .inl ⟨_, rfl⟩
  · cases hsupply : g.supply with
    | error e => exact .inl ⟨_, rfl⟩
    | ok supply =>
      dsimp only
      cases hissue : (g.issue supply).run.exec s with
      | mk result s' =>
        cases result with
        | error e => exact .inl ⟨_, rfl⟩
        | ok u =>
          exact .inr ⟨supply, s', symbol_iff.1 hsymbol, UInt8.not_lt.1 hdecimals, rfl, hissue, rfl⟩
  · exact .inl ⟨_, rfl⟩

theorem apply_store (g : Genesis) (s : Store) : g.apply s = match g.script.run.exec s with
    | (.ok supply, s') => .ok supply s'
    | (.error e, s') => .error e s' := by
  unfold apply
  simp only [bind, EStateM.bind, withError, Script.run_store]
  rcases g.script.run.exec s with ⟨_ | _, s'⟩ <;> rfl

end Script

section Unissued

variable {g : Genesis} {s : Store}

end Unissued

theorem answer_apply (g : Genesis) (s : Store) : answer g.apply s = (g.script.run.exec s).1 := by
  unfold answer
  rw [apply_store]
  rcases g.script.run.exec s with ⟨_ | _, s'⟩ <;> rfl

theorem endState_apply (g : Genesis) (s : Store) : endState g.apply s = (g.script.run.exec s).2 := by
  unfold endState
  rw [apply_store]
  rcases g.script.run.exec s with ⟨_ | _, s'⟩ <;> rfl

section Outcome

variable {g : Genesis} {s : Store}

theorem endState_of_error {e : GenesisError} (h : answer g.apply s = .error e) : endState g.apply s = s := by
  rw [answer_apply] at h
  rw [endState_apply]
  obtain ⟨e', hexec⟩ | ⟨supply, s', -, -, -, -, hexec⟩ := g.exec_cases s
  · rw [hexec]
  · rw [hexec] at h
    cases h

end Outcome

namespace NamedTwice

def genesis : Genesis := ⟨[87, 76, 71], 9, [(.filled 1, 100), (.filled 2, 0), (.filled 1, 5)]⟩

def state : Store := Store.replace .empty (.balance (.filled 3) (.filled 9)) (Cell.ofAmount 7)

end NamedTwice
end Genesis
end BridgeLedger
