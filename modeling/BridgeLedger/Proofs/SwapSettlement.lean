import BridgeLedger.Proofs.DirectExecution
import BridgeLedger.Proofs.SupplyConservation

/-! When the swap of a transfer is settled. Time alone decides it before the expiry, when no import goes through without
the swap, and after it, when no import settles it. At the moment of the expiry it is up to the importer. -/
namespace BridgeLedger

open Store Yields

def Store.Paid (s s' : Store) (payer payee : Address) (asset : Identifier) (n : UInt64) : Prop :=
  ∃ t, Debited s t (.balance payer asset) n.toNat ∧ Credited t s' (.balance payee asset) n.toNat

namespace Action.Import

variable {a : Import} {ctx : Context} {s s' v w : Store} {y : Yield} {asset id : Identifier}

/-- The units of the message are there: released from the loan or minted, with the recipient and, as a reward, with the
actor. -/
def Arrives (a : Import) (ctx : Context) (asset : Identifier) (s v : Store) : Prop :=
  ∃ total t u, a.transfer.total? = some total ∧
    Yields (if a.transfer.returning then release a.transfer a.message.source total
      else mint a.transfer a.message.source total) s asset t ∧
    Credited t u (.balance a.transfer.recipient asset) a.transfer.value.toNat ∧
    if 0 < a.transfer.terms.reward then Credited u v (.balance ctx.actor asset) a.transfer.terms.reward.toNat else u = v

/-- The actor pays the recipient what is wanted, and the recipient pays for it with units that have arrived. -/
def Settles (a : Import) (ctx : Context) (asset : Identifier) (v w : Store) : Prop :=
  ∃ m, Paid v m ctx.actor a.transfer.recipient a.transfer.terms.swap.assetOut a.transfer.terms.swap.amountOut ∧
    Paid m w a.transfer.recipient ctx.actor asset a.transfer.terms.swap.amountIn

structure SettlesInTime (a : Import) (ctx : Context) (asset : Identifier) (v w : Store) : Prop where
  early : ctx.timestamp < a.transfer.terms.swap.expiry → a.fill = true ∧ a.Settles ctx asset v w
  late : a.transfer.terms.swap.expiry < ctx.timestamp → v = w
  /-- at the moment of the expiry it is up to the importer -/
  last : ctx.timestamp = a.transfer.terms.swap.expiry → if a.fill then a.Settles ctx asset v w else v = w

/-- Units arrive, the swap is settled if it is filled and has not lapsed, and the message is marked. -/
theorem arrives_then_settles (h : Yields (a.execute ctx) s y s') : ∃ id asset v w, a.Admits ctx s id ∧
    a.Arrives ctx asset s v ∧
    (if a.fill && ctx.timestamp ≤ a.transfer.terms.swap.expiry then a.Settles ctx asset v w else v = w) ∧
    s' = w.replace (.incoming a.message.source id) (some []) := by
  obtain ⟨-, id, total, asset, t, hadmits, htotal, hmove, u, v, w, hvalue, hreward, hswap, hmark⟩ := execute_iff.1 h
  refine ⟨id, asset, v, w, hadmits, ⟨total, t, u, htotal, hmove, (addBalance_iff.1 hvalue).2, ?_⟩, ?_, hmark⟩
  · split at hreward
    · rename_i hpos
      rw [if_pos hpos]
      exact (addBalance_iff.1 hreward).2
    · rename_i hzero
      rwa [if_neg hzero]
  · split at hswap
    · rename_i hfilled
      rw [if_pos hfilled]
      obtain ⟨s₁, s₂, s₃, h₁, h₂, h₃, h₄⟩ := of_settleSwap hswap
      exact ⟨s₂, ⟨s₁, h₁, h₂⟩, s₃, h₃, h₄⟩
    · rename_i hlapsed
      rwa [if_neg hlapsed]

end Action.Import

/-- An import of a transfer with a swap first lets the units arrive. Before the expiry it goes through only if the swap is
filled, and settles it; after the expiry it does not settle it, filled or not. At the moment of the expiry itself the
swap is settled if the importer fills it, and the import goes through without it if not. -/
theorem swap_settled_by_expiry {s : Store} {ctx : Context} {a : Action.Import}
    (hoffered : a.transfer.terms.swap.offered = true)
    (hsucceeds : Execution.succeeded (Execution.execute ctx (.importAsset a)) s = true) :
    ∃ id asset v w, a.message.identifier = .ok id ∧ a.Arrives ctx asset s v ∧
      endState (Execution.execute ctx (.importAsset a)) s = w.replace (.incoming a.message.source id) (some []) ∧
      a.SettlesInTime ctx asset v w := by
  obtain ⟨y, hyields⟩ := Execution.yields_of_succeeded hsucceeds
  obtain ⟨id, asset, v, w, hadmits, harrives, hswap, hmark⟩ := Action.Import.arrives_then_settles hyields
  refine ⟨id, asset, v, w, hadmits.identifier, harrives, hmark, ?_⟩
  constructor
  case early =>
    intro hbefore
    have hfill : a.fill = true := by
      cases hfill : a.fill with
      | true => rfl
      | false => exact absurd hbefore (hadmits.unbound (by rw [hoffered, hfill]; rfl))
    rw [hfill, decide_eq_true (Int64.le_of_lt hbefore)] at hswap
    exact ⟨hfill, hswap⟩
  case late =>
    intro hafter
    rw [decide_eq_false (Int64.not_le.2 hafter), Bool.and_false] at hswap
    exact hswap
  case last =>
    intro hnow
    rw [decide_eq_true (Int64.le_of_eq hnow), Bool.and_true] at hswap
    exact hswap

namespace LastMoment

/-- Thirty units of another chain's native asset with a reward of five. Until time five, ten of the units are offered for
four native ones. -/
def transfer : Bridge.Transfer :=
  ⟨.filled 3, [88], 6, .empty, 30, false, ⟨5, ⟨10, .empty, 4, 5⟩⟩, .filled 12, .filled 9⟩

def message : Bridge.Message := ⟨1, .filled 8, transfer.encode.toOption.getD []⟩

theorem decode_message : Bridge.Transfer.decode message.payload = .ok transfer :=
  Bridge.Transfer.decode_encode rfl (by decide) (by decide) (by decide) (by decide) (by decide)

def context : Context := ⟨.filled 1, .filled 13, 5, .filled 9, 1, true⟩

def claiming (fill : Bool) : Action.Import := ⟨fill, message, transfer, decode_message⟩

def claimed (fill : Bool) : Store :=
  endState (Execution.execute context (.importAsset (claiming fill))) LentUnits.genesis.opening

def asset : Identifier := Bridge.Origin.bridgedAsset ⟨.empty, .filled 8⟩

theorem settled_if_filled : ∃ id asset v w, (claiming true).Arrives context asset LentUnits.genesis.opening v ∧
    (claiming true).Settles context asset v w ∧ claimed true = w.replace (.incoming (.filled 8) id) (some []) := by
  have hsucceeds : Execution.succeeded (Execution.execute context (.importAsset (claiming true)))
      LentUnits.genesis.opening = true := by decide +kernel
  obtain ⟨id, asset, v, w, -, harrives, hmark, hswap⟩ :=
    swap_settled_by_expiry (a := claiming true) (by decide) hsucceeds
  exact ⟨id, asset, v, w, harrives, hswap.last rfl, hmark⟩

/-- The importer takes the reward and keeps all native units, the recipient keeps all thirty units, and no swap is
settled, although its expiry is not over. -/
theorem unsettled_if_unfilled : transfer.terms.swap.offered = true ∧ context.timestamp ≤ transfer.terms.swap.expiry ∧
    Execution.succeeded (Execution.execute context (.importAsset (claiming false))) LentUnits.genesis.opening = true ∧
    (claimed false).amount (.balance (.filled 1) asset) = 5 ∧
    (claimed false).amount (.balance (.filled 1) .empty) = 1000 ∧
    (claimed false).amount (.balance (.filled 3) asset) = 30 ∧
    (claimed false).amount (.balance (.filled 3) .empty) = 0 := by decide +kernel

end LastMoment
end BridgeLedger
