import BridgeLedger.Proofs.ActionWireFormat
import BridgeLedger.Proofs.OutgoingMessages

/-! What executes can be sent. An action checks its fields when it executes, and its reader checks them when it arrives;
the first checks are as strict as the second but for one. An asset of which no unit may be minted is registered, and its
bytes are refused. -/
namespace BridgeLedger

variable {α : Type}

/-- A script that is not refused before its first look at the ledger. -/
def Proceeds (x : ActionScript α) : Prop := ∀ reason, x ≠ refuse reason

theorem Proceeds.check_iff {condition : Bool} {reason : Refusal} {f : Unit → ActionScript α} :
    Proceeds (refuseIf condition reason >>= f) ↔ condition = false ∧ Proceeds (f ()) := by
  cases condition with
  | false => exact (and_iff_right rfl).symm
  | true => exact ⟨fun h => absurd rfl (h reason), fun h => nomatch h.1⟩

namespace Action

open Proceeds

variable {ctx : Context}

def unmintable : Action → Bool
  | .createAsset a => a.maxSupply == 0
  | _ => false

theorem CreateAsset.limits_of_proceeds {a : CreateAsset} (h : Proceeds (a.execute ctx)) :
    (a.symbol ≠ [] ∧ a.symbol.length ≤ Limits.maxSymbol) ∧ a.decimals ≤ Limits.maxDecimals ∧
      (a.metadata ≠ [] ∧ a.metadata.length ≤ Limits.maxMetadata) := by
  simp only [execute, check_iff, List.isEmpty_eq_false_iff, decide_eq_false_iff_not, Nat.not_lt, UInt8.not_lt] at h
  obtain ⟨hsymbol, hsymbol', hdecimals, hmetadata, hmetadata', -⟩ := h
  exact ⟨⟨hsymbol, hsymbol'⟩, hdecimals, hmetadata, hmetadata'⟩

/-- An action that gets past its checks is within the limits of the wire format, unless nothing could be minted. -/
theorem withinLimits_of_proceeds {action : Action} (h : Proceeds (action.perform ctx))
    (hmintable : action.unmintable = false) : action.WithinLimits := by
  cases action with
  | payment a =>
    simp only [perform, Payment.execute, check_iff, beq_eq_false_iff_ne, decide_eq_false_iff_not, Nat.not_lt] at h
    obtain ⟨hvalue, hmemo, -⟩ := h
    exact ⟨hvalue, hmemo⟩
  | mint a =>
    simp only [perform, Mint.execute, check_iff, Identifier.isEmpty, decide_eq_false_iff_not, beq_eq_false_iff_ne] at h
    obtain ⟨hasset, hvalue, -⟩ := h
    exact ⟨hasset, hvalue⟩
  | createAsset a =>
    obtain ⟨hsymbol, -, hmetadata⟩ := CreateAsset.limits_of_proceeds h
    exact ⟨hsymbol, hmetadata, beq_eq_false_iff_ne.1 hmintable⟩
  | createNft a =>
    simp only [perform, CreateNft.execute, check_iff, List.isEmpty_eq_false_iff, decide_eq_false_iff_not,
      Nat.not_lt] at h
    obtain ⟨hmetadata, hmetadata', hurl, hurl', -⟩ := h
    exact ⟨⟨hmetadata, hmetadata'⟩, hurl, hurl'⟩
  | readNft a => trivial
  | importAsset a => exact a.decoded
  | exportAsset a =>
    simp only [perform, Export.execute, check_iff, Identifier.isEmpty, decide_eq_false_iff_not, beq_eq_false_iff_ne,
      Bool.not_eq_eq_eq_not, Bool.not_false] at h
    obtain ⟨hvalue, hdestination, -, hswap, -⟩ := h
    exact ⟨hvalue, hdestination, hswap⟩
  | transferNft a =>
    simp only [perform, TransferNft.execute, check_iff, decide_eq_false_iff_not, Nat.not_lt] at h
    exact h.1

end Action

/-- A number that is required is refused when it is zero. -/
theorem FailsOn.uint64 : FailsOn (Reader.uint64 true) (Wire.ofUInt64 0) .missing := by
  have hread : Reads (UInt64.ofNat <$> Reader.number 8) (Wire.ofUInt64 0) 0 :=
    (Reads.number 8 (n := 0) (by decide)).map UInt64.ofNat
  have hrequire : FailsOn (Reader.require (!true || (0 : UInt64) != 0) .missing) [] .missing :=
    fun rest => ⟨rest, rfl⟩
  exact (after hread hrequire.bind).cast (List.append_nil _)

/-- The bytes of an asset of which no unit may be minted are refused for the missing largest supply. -/
theorem Action.CreateAsset.decode_of_unmintable {a : CreateAsset} {bytes : Octets}
    (hbytes : (Action.createAsset a).encode = .ok bytes)
    (hsymbol : a.symbol ≠ [] ∧ a.symbol.length ≤ Limits.maxSymbol)
    (hmetadata : a.metadata ≠ [] ∧ a.metadata.length ≤ Limits.maxMetadata) (hzero : a.maxSupply = 0) :
    Catalog.standard.decodeAction bytes none = .error (.wire .missing) := by
  obtain ⟨body, hbody, hbytes⟩ := exists_ok_of_bind hbytes
  cases hbytes
  obtain ⟨symbol, hs, hbody⟩ := exists_ok_of_bind hbody
  obtain ⟨metadata, hm, hbody⟩ := exists_ok_of_bind hbody
  cases hbody
  have hfails : FailsOn read (symbol ++ ([a.decimals] ++ (metadata ++ Wire.ofUInt64 0))) .missing := by
    refine .after (Reads.prefixed true hs hsymbol.2 fun _ => hsymbol.1) ?_
    refine .after (Reads.uint8 a.decimals) ?_
    refine .after (Reads.prefixed true hm hmetadata.2 fun _ => hmetadata.1) ?_
    exact FailsOn.uint64.bind
  have hall := (show FailsOn (Action.createAsset <$> read) _ .missing from hfails.map).readAll []
  have hentry : Catalog.standard.actions.lookup (Action.createAsset a).tag =
      some ⟨fun _ => Action.createAsset <$> read, false⟩ := rfl
  have hbody : symbol ++ [a.decimals] ++ metadata ++ Wire.ofUInt64 a.maxSupply =
      symbol ++ ([a.decimals] ++ (metadata ++ Wire.ofUInt64 0)) ++ [] := by simp [hzero]
  rw [Catalog.decodeAction_cons hentry rfl, hbody, hall]
  rfl

/-- The bytes of an action that gets past its checks are read back as that action, or they miss the largest supply. -/
theorem Catalog.standard_decodeAction_of_proceeds {action : Action} {ctx : Context} {bytes : Octets}
    (h : Proceeds (action.perform ctx)) (hbytes : action.encode = .ok bytes) :
    standard.decodeAction bytes action.attachedMessage? =
      if action.unmintable then .error (.wire .missing) else .ok action := by
  cases hunmintable : action.unmintable with
  | false =>
    exact standard_decodeAction_iff.2 ⟨hbytes, rfl, Action.withinLimits_of_proceeds h hunmintable⟩
  | true =>
    cases action with
    | createAsset a =>
      obtain ⟨hsymbol, -, hmetadata⟩ := Action.CreateAsset.limits_of_proceeds h
      exact Action.CreateAsset.decode_of_unmintable hbytes hsymbol hmetadata (beq_iff_eq.1 hunmintable)
    | _ => cases hunmintable

namespace Execution

variable {σ : Type} [Keyspace σ] {ctx : Context} {action : Action} {s s' : σ} {receipt : Receipt}

/-- A receipt is that of the staged action, whatever the store does. -/
theorem stage_of_execute (h : execute ctx action s = .ok receipt s') :
    ∃ writes, stage s ctx action = .ok (receipt, writes) := by
  have hget : (EStateM.get : EStateM ExecutionError σ σ) s = .ok s s := rfl
  unfold execute at h
  simp only [bind, EStateM.bind, get, getThe, MonadStateOf.get, hget] at h
  cases hstage : stage s ctx action with
  | error e =>
    rw [hstage] at h
    cases h
  | ok staged =>
    obtain ⟨receipt', writes⟩ := staged
    rw [hstage] at h
    dsimp only [MonadExcept.ofExcept, pure, EStateM.pure] at h
    have hreceipt : receipt' = receipt := by
      split at h
      · simp only [EStateM.bind, withError] at h
        cases happly : Keyspace.apply writes s with
        | ok _ _ =>
          rw [happly] at h
          cases h
          rfl
        | error _ _ =>
          rw [happly] at h
          cases h
      · cases h
        rfl
    exact ⟨writes, by rw [hreceipt]⟩

/-- An action that takes effect got past its checks. -/
theorem proceeds_of_observe {units : UInt64} {y : Yield} {o : Overlay} (h : observe s ctx action = .ok (.success units y, o)) :
    Proceeds (action.perform ctx) := by
  intro reason hrefuse
  rw [observe, Action.script_eq, hrefuse] at h
  cases h

/-- What executes with success can be sent: it has a written form, from which it is read back with its own message. The
only exception is the registration of an asset of which no unit may be minted, which readers refuse for the missing
number. -/
theorem executed_decodes (h : execute ctx action s = .ok receipt s') (hsucceeded : receipt.outcome.succeeded = true) :
    ∃ bytes, action.encode = .ok bytes ∧ Catalog.standard.decodeAction bytes action.attachedMessage? =
      if action.unmintable then .error (.wire .missing) else .ok action := by
  obtain ⟨writes, hstage⟩ := stage_of_execute h
  obtain ⟨bytes, hbytes, hstage⟩ := exists_ok_of_bind hstage
  obtain ⟨⟨outcome, o⟩, hobserve, hstage⟩ := exists_ok_of_bind hstage
  cases hstage
  have hbytes := mapError_eq_ok hbytes
  cases outcome with
  | failure units reason => cases hsucceeded
  | success units y =>
    have hproceeds := proceeds_of_observe (mapError_eq_ok hobserve)
    exact ⟨bytes, hbytes, Catalog.standard_decodeAction_of_proceeds hproceeds hbytes⟩

end Execution

namespace LentUnits

/-- The export of the units executes, and its bytes are read back. -/
theorem lending_sendable : ∃ receipt s' bytes, Execution.execute context lending genesis.opening = .ok receipt s' ∧
    receipt.outcome.succeeded = true ∧ lending.encode = .ok bytes ∧
      Catalog.standard.decodeAction bytes none = .ok lending := by
  have hexecutes : Execution.succeeded (Execution.execute context lending) genesis.opening = true := by decide +kernel
  obtain ⟨receipt, s', hrun, hsucceeded⟩ := Execution.succeeded_iff.1 hexecutes
  obtain ⟨bytes, hbytes, hdecode⟩ := Execution.executed_decodes hrun hsucceeded
  exact ⟨receipt, s', bytes, hrun, hsucceeded, hbytes, hdecode⟩

end LentUnits

namespace UnmintableAsset

def registration : Action := .createAsset ⟨[84], 2, [109], 0⟩

/-- The registration executes on an empty chain, and its bytes are refused. -/
theorem executes_unsendable : ∃ receipt s' bytes,
    Execution.execute LentUnits.context registration (.empty : Store) = .ok receipt s' ∧
      receipt.outcome.succeeded = true ∧ registration.encode = .ok bytes ∧
      Catalog.standard.decodeAction bytes none = .error (.wire .missing) := by
  have hexecutes : Execution.succeeded (Execution.execute LentUnits.context registration) (.empty : Store) = true := by
    decide +kernel
  obtain ⟨receipt, s', hrun, hsucceeded⟩ := Execution.succeeded_iff.1 hexecutes
  have hbytes : registration.encode = .ok [2, 0, 1, 84, 2, 0, 1, 109, 0, 0, 0, 0, 0, 0, 0, 0] := by rfl
  exact ⟨receipt, s', _, hrun, hsucceeded, hbytes,
    Action.CreateAsset.decode_of_unmintable hbytes (by decide) (by decide) rfl⟩

end UnmintableAsset
end BridgeLedger
