import BridgeLedger.Proofs.ActionAccounting
import BridgeLedger.Proofs.OpeningState

/-! Conservation of supply on one chain. In every state that a chain reaches by recorded executions, the balances and
loans of an asset add up to the supply in its record, and the supply stays within its limits. -/
namespace BridgeLedger

open Store

/-- What a recorded execution leaves in the two keyspaces of a chain, whether it fails or not. -/
def Execution.after (ctx : Context) (action : Action) (signatureUnits fee : UInt64) (ledger : Store × Store) :
    Store × Store :=
  match executeRecorded ctx action signatureUnits fee ledger with
  | .ok _ ledger' => ledger'
  | .error _ ledger' => ledger'

/-- The states of a chain that starts with a distribution and executes transactions. No transaction is named like a
bridged asset on record. -/
inductive Reachable : Store × Store → Prop
  | opening (g : Genesis) : Reachable (g.opening, .empty)
  | step {ledger : Store × Store} (ctx : Context) (action : Action) (signatureUnits fee : UInt64)
      (start : Reachable ledger) (named : ctx.transaction ≠ .empty)
      (unbridged : ledger.1.bridged? ctx.transaction = none) :
      Reachable (Execution.after ctx action signatureUnits fee ledger)

structure Tidy (ledger : Store × Store) : Prop where
  wellFormed : ledger.1.WellFormed
  /-- a local asset is the native one or named by a transaction on record -/
  named : ∀ a, (ledger.1.local? a).isSome → a = .empty ∨ ledger.2.find? (transactionKey a) ≠ none

structure Sound (ledger : Store × Store) : Prop extends Tidy ledger where
  conserved : ∀ a, ledger.1.held a = ledger.1.supply a

variable {ledger : Store × Store}

/-- A recorded execution changes nothing, or it records a new transaction and carries out the action as far as it
succeeds. -/
theorem Execution.after_yields (ledger : Store × Store) (ctx : Context) (action : Action) (signatureUnits fee : UInt64) :
    after ctx action signatureUnits fee ledger = ledger ∨
      ∃ (s' : Store) (record : TransactionRecord), ledger.2.find? (transactionKey ctx.transaction) = none ∧
        after ctx action signatureUnits fee ledger =
          (s', ledger.2.insert (transactionKey ctx.transaction) record.encode) ∧
        (s' = ledger.1 ∨ ∃ y, Yields (action.perform ctx) ledger.1 y s') := by
  unfold after
  obtain ⟨e, he⟩ | ⟨receipt, record, s', hnew, hok, hs'⟩ :=
    executeRecorded_cases ledger.1 ledger.2 ctx action signatureUnits fee
  · exact .inl (by rw [he])
  · exact .inr ⟨s', record, hnew, by rw [hok], hs'.imp (fun ⟨_, _, hsame⟩ => hsame) fun ⟨y, _, hyields⟩ => ⟨y, hyields⟩⟩

/-- A recorded execution changes nothing, or it records a new transaction and keeps what an action keeps. -/
theorem Execution.after_cases (hwf : ledger.1.WellFormed) (ctx : Context) (action : Action)
    (signatureUnits fee : UInt64) :
    after ctx action signatureUnits fee ledger = ledger ∨
      ∃ (s' : Store) (record : TransactionRecord), ledger.2.find? (transactionKey ctx.transaction) = none ∧
        after ctx action signatureUnits fee ledger =
          (s', ledger.2.insert (transactionKey ctx.transaction) record.encode) ∧
        Keeps ctx.transaction ledger.1 s' := by
  obtain hsame | ⟨s', record, hnew, hafter, hends⟩ := after_yields ledger ctx action signatureUnits fee
  · exact .inl hsame
  · refine .inr ⟨s', record, hnew, hafter, ?_⟩
    obtain rfl | ⟨y, hyields⟩ := hends
    · exact .of_frame hwf (Frame.refl (p := fun _ => False) _) (fun _ => id) fun _ => rfl
    · exact Action.keeps hyields hwf

namespace Tidy

/-- A new transaction does not name a local asset. -/
theorem local?_transaction (h : Tidy ledger) {transaction : Identifier} (hnamed : transaction ≠ .empty)
    (hnew : ledger.2.find? (transactionKey transaction) = none) : ledger.1.local? transaction = none := by
  cases hr : ledger.1.local? transaction with
  | none => rfl
  | some r =>
    obtain hempty | hknown := h.named transaction (by rw [hr]; rfl)
    · exact absurd hempty hnamed
    · exact absurd hnew hknown

theorem after (h : Tidy ledger) (ctx : Context) (action : Action) (signatureUnits fee : UInt64) :
    Tidy (Execution.after ctx action signatureUnits fee ledger) := by
  obtain hsame | ⟨s', record, -, hafter, hkeeps⟩ := Execution.after_cases h.wellFormed ctx action signatureUnits fee
  · rwa [hsame]
  · rw [hafter]
    refine ⟨hkeeps.wellFormed, fun a ha => ?_⟩
    rw [KeyMap.find?_insert]
    obtain rfl | ha := hkeeps.named a ha
    · exact .inr (by simp)
    · refine (h.named a ha).imp id fun hknown => ?_
      split
      · nofun
      · exact hknown

end Tidy

namespace Sound

theorem opening (g : Genesis) : Sound (g.opening, .empty) := by
  have hnamed (a : Identifier) (ha : (g.opening.local? a).isSome) : a = .empty := by
    obtain hnone | ⟨hempty, -⟩ := g.opening_asset? a
    · rw [local?_of_none hnone] at ha
      cases ha
    · exact hempty
  obtain hempty | ⟨total, t, hset, hframe, hwf, hheld⟩ := g.opening_cases
  · rw [hempty]
    exact ⟨⟨.empty, nofun⟩, fun _ => rfl⟩
  · refine ⟨⟨hwf, fun a ha => .inl (hnamed a ha)⟩, fun a => ?_⟩
    rw [hheld, hframe.supply_eq (by simp [StateKey.IsBalance])]
    by_cases ha : Identifier.empty = a
    · rw [if_pos ha, ← ha, supply_registered hset]
      rfl
    · rw [if_neg ha, (Frame.registered (p := (· = .asset .empty)) hset rfl).supply_eq (by simpa using Ne.symm ha)]
      rfl

theorem after (h : Sound ledger) (ctx : Context) (action : Action) (signatureUnits fee : UInt64)
    (hnamed : ctx.transaction ≠ .empty) (hunbridged : ledger.1.bridged? ctx.transaction = none) :
    Sound (Execution.after ctx action signatureUnits fee ledger) := by
  refine ⟨h.toTidy.after ctx action signatureUnits fee, ?_⟩
  obtain hsame | ⟨s', record, hnew, hafter, hkeeps⟩ := Execution.after_cases h.wellFormed ctx action signatureUnits fee
  · rw [hsame]
    exact h.conserved
  · rw [hafter]
    have hnone := asset?_eq_none_iff.2 ⟨h.toTidy.local?_transaction hnamed hnew, hunbridged⟩
    intro a
    have hbalanced := hkeeps.balanced hnone a
    have hconserved := h.conserved a
    dsimp only
    omega

/-- No more units of an asset are held than the largest supply. -/
theorem held_le (h : Sound ledger) (a : Identifier) : ledger.1.held a ≤ Limits.maxSupply.toNat :=
  Nat.le_trans (Nat.le_of_eq (h.conserved a)) (h.wellFormed.supply_le a)

theorem of_reachable (h : Reachable ledger) : Sound ledger := by
  induction h with
  | opening g => exact opening g
  | step ctx action signatureUnits fee _ hnamed hunbridged ih =>
    exact ih.after ctx action signatureUnits fee hnamed hunbridged

end Sound

/-- A stored balance or loan is an amount, and not zero. -/
theorem Store.WellFormed.amount_ne_zero {s : Store} (h : s.WellFormed) {key bytes : Octets}
    (hfind : s.find? key = some bytes) (hcell : (StateKey.looksLikeBalance key || StateKey.looksLikeLoan key) = true) :
    ∃ v, Amount.decode bytes = .ok v ∧ v ≠ 0 := by
  obtain ⟨k, rfl, hadmits⟩ := h key bytes hfind
  rw [StateKey.looksLikeBalance_octets, StateKey.looksLikeLoan_octets] at hcell
  cases k <;> first | exact hadmits | cases hcell

/-- The balances and the loans of an asset add up to the supply on record; the supply is at most the largest one, which
fits a signed 64-bit number; and no balance or loan is stored as zero. -/
theorem supply_conserved {ledger : Store × Store} (h : Reachable ledger) (a : Identifier) :
    ∃ record? : Option AssetRecord, (Ledger.asset? a).runOn ledger.1 = .ok record? ∧
      ledger.1.totalBalances a + ledger.1.totalLoans a = record?.elim 0 (fun r => r.supply.toNat) ∧
      (∀ r ∈ record?, r.supply ≤ r.maxSupply ∧ r.maxSupply.toNat ≤ Int64.maxValue.toInt.toNat) ∧
      ∀ key bytes, ledger.1.find? key = some bytes →
        (StateKey.looksLikeBalance key || StateKey.looksLikeLoan key) = true →
        ∃ v, Amount.decode bytes = .ok v ∧ v ≠ 0 := by
  have hsound := Sound.of_reachable h
  refine ⟨ledger.1.asset? a, ?_, hsound.conserved a, fun r hr => ?_, fun key bytes => hsound.wellFormed.amount_ne_zero⟩
  · rw [LedgerRead.runOn_store]
    exact Yields.asset?_iff.2 ⟨hsound.wellFormed.decodes_asset a, rfl⟩
  · have hproper := hsound.wellFormed.proper hr
    exact ⟨hproper.capped, UInt64.le_iff_toNat_le.1 hproper.limited⟩

namespace LentUnits

/-- A thousand native units, all with one account. -/
def genesis : Genesis := ⟨[87], 9, [(.filled 1, 1000)]⟩

def context : Context := ⟨.filled 1, .filled 7, 0, .filled 9, 1, false⟩

def lending : Action := .exportAsset ⟨.filled 2, .empty, 100, false, ⟨5, ⟨0, .empty, 0, 0⟩⟩, .filled 8⟩

def exported : Store × Store := Execution.after context lending 0 0 (genesis.opening, .empty)

theorem reachable : Reachable exported := by
  have hunbridged : genesis.opening.bridged? context.transaction = none := by decide +kernel
  exact .step context lending 0 0 (.opening genesis) (by decide) hunbridged

theorem books : exported.1.totalBalances .empty = 895 ∧ exported.1.totalLoans .empty = 105 ∧
    ∃ record?, (Ledger.asset? .empty).runOn exported.1 = .ok record? ∧
      895 + 105 = record?.elim 0 (fun r => r.supply.toNat) := by
  obtain ⟨record?, hrecord, hsum, -⟩ := supply_conserved reachable .empty
  have hbalances : exported.1.totalBalances .empty = 895 := by decide +kernel
  have hloans : exported.1.totalLoans .empty = 105 := by decide +kernel
  exact ⟨hbalances, hloans, record?, hrecord, by rw [← hsum, hbalances, hloans]⟩

end LentUnits
end BridgeLedger
