import BridgeLedger.Proofs.FederationRuns

/-! Value on its way between chains: the units that a message carries, and their sum over the messages that were emitted
and not imported yet. -/
namespace BridgeLedger

open Store

namespace Bridge

/-- The asset of a transfer by its name at home, when it was sent by the given chain. -/
def Transfer.home (t : Transfer) (source : Identifier) : Origin :=
  ⟨t.asset, if t.returning then t.destination else source⟩

/-- The units of an asset that a message carries from one chain to another, out into the world or back home. -/
def Message.carries (m : Message) (asset source destination : Identifier) (returning : Bool) : Nat :=
  match Transfer.decode m.payload with
  | .ok t =>
    if source = m.source ∧ asset = t.asset ∧ destination = t.destination ∧ returning = t.returning then t.units else 0
  | .error _ => 0

theorem Message.carries_eq {m : Message} {t : Transfer} (h : Transfer.decode m.payload = .ok t)
    (asset source destination : Identifier) (returning : Bool) : m.carries asset source destination returning =
      if source = m.source ∧ asset = t.asset ∧ destination = t.destination ∧ returning = t.returning then t.units
      else 0 := by rw [carries, h]

theorem Origin.metadata_injective {o p : Origin} (h : o.metadata = p.metadata) : o = p := by
  obtain ⟨ha, hc⟩ := List.append_inj h (by simp)
  cases o
  cases p
  exact congr (congrArg mk (Identifier.octets_injective ha)) (Identifier.octets_injective hc)

end Bridge

namespace World

variable {w w' : World} {m : Bridge.Message}

private theorem sum_filter_of_mem (value : Bridge.Message → Nat) (imported : List Bridge.Message)
    {messages : List Bridge.Message} (hdistinct : messages.Nodup) (hm : m ∈ messages) (hnew : m ∉ imported) :
    sumOver value (messages.filter (· ∉ imported ++ [m])) + value m =
      sumOver value (messages.filter (· ∉ imported)) := by
  induction messages with
  | nil => cases hm
  | cons x rest ih =>
    obtain ⟨hx, hrest⟩ := List.nodup_cons.1 hdistinct
    by_cases hxm : x = m
    · have hsame : rest.filter (· ∉ imported ++ [m]) = rest.filter (· ∉ imported) := by
        refine List.filter_congr fun y hy => ?_
        have hne : y ≠ m := fun heq => hx (hxm ▸ heq ▸ hy)
        simp [hne]
      rw [List.filter_cons_of_neg (by simp [hxm]), List.filter_cons_of_pos (by simpa [hxm] using hnew), hsame,
        sumOver, hxm, Nat.add_comm]
    · have := ih hrest ((List.mem_cons.1 hm).resolve_left (Ne.symm hxm))
      by_cases hin : x ∈ imported
      · rwa [List.filter_cons_of_neg (by simp [hin]), List.filter_cons_of_neg (by simp [hin])]
      · rw [List.filter_cons_of_pos (by simp [hin, hxm]), List.filter_cons_of_pos (by simp [hin]), sumOver, sumOver]
        omega

/-- A message that is imported is no longer on its way. -/
theorem underway_of_import (value : Bridge.Message → Nat) (hemitted : w'.emitted = w.emitted)
    (himported : w'.imported = w.imported ++ [m]) (hdistinct : w.emitted.Nodup) (hm : m ∈ w.emitted)
    (hnew : m ∉ w.imported) : w'.underway value + value m = w.underway value := by
  unfold underway
  rw [hemitted, himported]
  exact sum_filter_of_mem value w.imported hdistinct hm hnew

/-- A message that is emitted is on its way. -/
theorem underway_of_emit (value : Bridge.Message → Nat) (hemitted : w'.emitted = w.emitted ++ [m])
    (himported : w'.imported = w.imported) (hnew : m ∉ w.imported) :
    w'.underway value = w.underway value + value m := by
  unfold underway
  rw [hemitted, himported, List.filter_append, sumOver_append]
  simp [hnew, sumOver]

/-- A message on its way contributes to the sum. -/
theorem le_underway (value : Bridge.Message → Nat) (hdistinct : w.emitted.Nodup) (hm : m ∈ w.emitted)
    (hnew : m ∉ w.imported) : value m ≤ w.underway value := by
  have := sum_filter_of_mem value w.imported hdistinct hm hnew
  unfold underway
  omega

/-- What a chain has lent of an asset to another one is there, on its way there, or on its way back. -/
def Backed (w : World) (o : Bridge.Origin) (abroad : Identifier) : Prop :=
  (w.ledger o.chain).1.amount (.loan o.asset abroad) = (w.ledger abroad).1.bridgedSupply o.bridgedAsset +
    w.underway (·.carries o.asset o.chain abroad false) + w.underway (·.carries o.asset abroad o.chain true)

end World

end BridgeLedger
