import BridgeLedger.Proofs.LedgerInvariant
import BridgeLedger.Proofs.ScriptHalts

/-! How the operations of the ledger halt on a store of the right form. Records are read and written without fail; a
credit has room as long as all units of the asset stay within the largest supply; and a debit halts only on an amount
that is too small, which refuses the action. -/
namespace BridgeLedger

open Store Yields

/-- The action is refused, and not for an amount that grew too large; nor is it aborted. -/
def Halt.Tame : Halt → Prop
  | .refused (.accounting e) => ∃ kind asset current amount, e = .underflow kind asset current amount
  | .refused _ => True
  | .aborted _ => False

namespace Store

/-- The store has the right form, and no asset exceeds the largest supply even when `n` units of this one are added. -/
structure Fits (s : Store) (asset : Identifier) (n : Nat) : Prop where
  wellFormed : s.WellFormed
  held_le : ∀ x, s.held x + (if asset = x then n else 0) ≤ Limits.maxSupply.toNat

namespace Fits

variable {s s' : Store} {asset : Identifier} {k : StateKey} {n m : Nat}

theorem mono (h : s.Fits asset m) (hle : n ≤ m) : s.Fits asset n where
  wellFormed := h.wellFormed
  held_le x := Nat.le_trans (Nat.add_le_add_left (by split <;> omega) _) (h.held_le x)

/-- With nothing to be added the asset does not matter. -/
theorem change (h : s.Fits asset 0) (other : Identifier) : s.Fits other 0 where
  wellFormed := h.wellFormed
  held_le x := by simpa using h.held_le x

/-- What is credited is no longer to be added. -/
theorem credited (h : s.Fits asset (n + m)) (hc : Credited s s' k n) (hk : k.counted = some asset) :
    s'.Fits asset m where
  wellFormed := h.wellFormed.credited hc (by rw [hk]; rfl)
  held_le x := by
    have hroom := h.held_le x
    rw [held_credited hc hk]
    by_cases hx : asset = x
    · simp only [if_pos hx] at hroom ⊢
      omega
    · simpa only [if_neg hx] using hroom

/-- What is debited may be added again. -/
theorem debited (h : s.Fits asset m) (hd : Debited s s' k n) (hk : k.counted = some asset) :
    s'.Fits asset (m + n) where
  wellFormed := h.wellFormed.debited hd (by rw [hk]; rfl)
  held_le x := by
    have hroom := h.held_le x
    have hpaid := held_debited hd hk x
    by_cases hx : asset = x
    · simp only [if_pos hx] at hroom hpaid ⊢
      omega
    · simp only [if_neg hx] at hroom hpaid ⊢
      omega

/-- An amount has room for what may be added. -/
theorem amount_add_lt (h : s.Fits asset n) (hk : k.counted = some asset) : s.amount k + n < UInt64.size := by
  have hheld := h.held_le asset
  have hamount := s.amount_le_held hk
  have hmax : Limits.maxSupply.toNat < UInt64.size := by decide
  rw [if_pos rfl] at hheld
  omega

end Fits
end Store

namespace OnlyHalts

variable {p : Halt → Prop} {s : Store} {asset : Identifier} {owner : Address} {n : UInt64} {m : Nat}

theorem asset? (h : s.WellFormed) : OnlyHalts p (liftM (Ledger.asset? asset) : ActionScript _) s :=
  of_yields (ledger_read_iff.2 ⟨asset?_iff.2 ⟨h.decodes_asset asset, rfl⟩, rfl⟩)

theorem setAsset {r : AssetRecord} (h : r.Proper) :
    OnlyHalts p (liftM (Ledger.setAsset asset r) : ActionScript _) s := by
  obtain ⟨s', hregistered⟩ := exists_registered s asset h
  exact operation (a := ()) (setAsset_iff.2 hregistered)

theorem addBalance (h : s.Fits asset m) (hn : n.toNat ≤ m) :
    OnlyHalts p (liftM (Ledger.addBalance owner asset n true) : ActionScript _) s := by
  obtain ⟨s', hcredited⟩ := exists_credited ((h.mono hn).amount_add_lt (k := .balance owner asset) rfl)
  exact operation (a := ()) (addBalance_iff.2 ⟨h.wellFormed.readable rfl, hcredited⟩)

theorem addLoan {destination : Identifier} (h : s.Fits asset m) (hn : n.toNat ≤ m) :
    OnlyHalts p (liftM (Ledger.addLoan asset destination n) : ActionScript _) s := by
  obtain ⟨s', hcredited⟩ := exists_credited ((h.mono hn).amount_add_lt (k := .loan asset destination) rfl)
  exact operation (a := ()) (addLoan_iff.2 ⟨h.wellFormed.readable rfl, hcredited⟩)

private theorem sub {k : StateKey} {kind : CellKind} (h : Cell.Readable (s.stored k)) :
    OnlyHalts Halt.Tame (liftM (Cell.sub k.octets kind asset n) : ActionScript _) s := by
  obtain ⟨current, hcurrent⟩ := Cell.exists_toNat_eq_amount (s.stored k)
  refine .ledger (.bind (.of_yields (read_iff.2 ⟨cell_read_iff.2 ⟨h, hcurrent⟩, rfl⟩)) fun v t _ => ?_)
  split
  · exact fun _ hwrite => absurd hwrite Halts.not_write
  · exact .throw ⟨kind, asset, v, n, rfl⟩

theorem subBalance (h : s.WellFormed) :
    OnlyHalts Halt.Tame (liftM (Ledger.subBalance owner asset n) : ActionScript _) s := sub (h.readable rfl)

theorem subLoan {destination : Identifier} (h : s.WellFormed) :
    OnlyHalts Halt.Tame (liftM (Ledger.subLoan asset destination n) : ActionScript _) s := sub (h.readable rfl)

end OnlyHalts
end BridgeLedger
