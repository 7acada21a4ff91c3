import BridgeLedger.Proofs.ActionEffects
import BridgeLedger.Proofs.OverlayAccounts

/-! Which writes actions ask for. Whatever an action finds and however it ends, it asks for few writes, and for no two of one
key: what it would write more than once goes through an overlay of its own first. -/
namespace BridgeLedger

variable {α β ε δ : Type}

/-- A limit on the writes that something asks for. No writes at all are within every limit. -/
structure WriteLimit where
  within : List Write → Prop
  nil : within []

namespace WriteLimit

def few (n : Nat) : WriteLimit := ⟨fun ws => ws.length ≤ n, Nat.zero_le n⟩

def along (keys : List Octets) : WriteLimit := ⟨fun ws => (ws.map Write.key).Sublist keys, List.nil_sublist keys⟩

def apart (n : Nat) : WriteLimit := ⟨fun ws => ws.length ≤ n ∧ (ws.map Write.key).Nodup, Nat.zero_le n, List.nodup_nil⟩

end WriteLimit

open WriteLimit

/-- On every store the body asks for writes within the limit, also if it halts. -/
def Asks (limit : WriteLimit) (x : ExceptT ε Script α) : Prop := ∀ s, limit.within (x.run.requested s)

namespace Asks

variable {b c d : WriteLimit} {m n : Nat}

protected theorem pure {a : α} : Asks b (pure a : ExceptT ε Script α) := fun _ => b.nil

protected theorem throw {e : ε} : Asks b (throw e : ExceptT ε Script α) := fun _ => b.nil

theorem throw_bind {e : ε} {f : α → ExceptT ε Script β} : Asks b (throw e >>= f) := fun _ => b.nil

theorem mono {x : ExceptT ε Script α} (h : Asks b x) (hle : ∀ ws, b.within ws → c.within ws) : Asks c x :=
  fun s => hle _ (h s)

theorem bind {x : ExceptT ε Script α} {f : α → ExceptT ε Script β} (hx : Asks b x) (hf : ∀ a, Asks c (f a))
    (hjoin : ∀ ws ws', b.within ws → c.within ws' → d.within (ws ++ ws')) : Asks d (x >>= f) := by
  intro s
  rw [ExceptT.run_bind, Script.requested_bind]
  refine hjoin _ _ (hx s) ?_
  cases (x.run.exec s).1 with
  | error e => exact c.nil
  | ok a => exact hf a _

theorem adapt {f : ε → δ} {x : ExceptT ε Script α} (h : Asks b x) : Asks b (ExceptT.adapt f x) := by
  intro s
  change b.within ((Except.mapError f <$> x.run).requested s)
  rw [map_eq_pure_bind, Script.requested_bind]
  exact (List.append_nil _).symm ▸ h s

/-- After a body that asks for no writes. -/
theorem after_look {x : ExceptT ε Script α} {f : α → ExceptT ε Script β} (hx : Asks (few 0) x) (hf : ∀ a, Asks b (f a)) :
    Asks b (x >>= f) :=
  .bind hx hf fun ws ws' hnone h => by rwa [List.eq_nil_of_length_eq_zero (Nat.le_zero.1 hnone)]

/-- The last step is followed by the answer only. -/
theorem last {x : ExceptT ε Script α} {f : α → β} (hx : Asks b x) : Asks b (x >>= fun a => pure (f a)) :=
  .bind hx (fun _ => Asks.pure (b := few 0)) fun ws ws' h hnone => by
    rwa [List.eq_nil_of_length_eq_zero (Nat.le_zero.1 hnone), List.append_nil]

/-- One body after another asks for the writes of both. -/
theorem both {x : ExceptT ε Script α} {f : α → ExceptT ε Script β} (hx : Asks (few m) x) (hf : ∀ a, Asks (few n) (f a)) :
    Asks (few (m + n)) (x >>= f) :=
  .bind hx hf fun ws ws' h h' => by
    change (ws ++ ws').length ≤ m + n
    rw [List.length_append]
    exact Nat.add_le_add h h'

theorem along_cons {key : Octets} {keys : List Octets} {x : ExceptT ε Script α} {f : α → ExceptT ε Script β}
    (hx : Asks (along [key]) x) (hf : ∀ a, Asks (along keys) (f a)) : Asks (along (key :: keys)) (x >>= f) :=
  .bind hx hf fun ws ws' h h' => by
    change ((ws ++ ws').map Write.key).Sublist ([key] ++ keys)
    rw [List.map_append]
    exact h.append h'

theorem few_of_le {x : ExceptT ε Script α} (h : Asks (few m) x) (hle : m ≤ n) : Asks (few n) x :=
  h.mono fun _ hws => Nat.le_trans hws hle

theorem few_of_one {key : Octets} {x : ExceptT ε Script α} (h : Asks (along [key]) x) : Asks (few 1) x :=
  h.mono fun ws hws => by
    have hle := hws.length_le
    rwa [List.length_map] at hle

theorem apart_of_along {keys : List Octets} {x : ExceptT ε Script α} (h : Asks (along keys) x) (hnodup : keys.Nodup) :
    Asks (apart keys.length) x :=
  h.mono fun ws hws => by
    have hle := hws.length_le
    rw [List.length_map] at hle
    exact ⟨hle, hnodup.sublist hws⟩

theorem apart_of_le {x : ExceptT ε Script α} (h : Asks (apart m) x) (hle : m ≤ n) : Asks (apart n) x :=
  h.mono fun _ hws => ⟨Nat.le_trans hws.1 hle, hws.2⟩

theorem apart_of_one {key : Octets} {x : ExceptT ε Script α} (h : Asks (along [key]) x) : Asks (apart 1) x :=
  h.apart_of_along (List.pairwise_singleton _ key)

/-- What a staged body asks for has different keys, since its overlay keeps one write for each. -/
theorem staged {x : ExceptT ε Script α} (h : Asks (few n) x) : Asks (apart n) (Script.staged x) := by
  intro s
  have hstaged := (Overlay.accounts_new x.run s).staged
  unfold Script.staged
  rw [ExceptT.run_mk, Script.requested_bind, Script.requested_toScript, Script.exec_toScript]
  generalize (x.run.onOverlay .empty).eval s = ended at hstaged ⊢
  obtain ⟨e | a, o⟩ := ended
  · exact (apart n).nil
  · change (apart n).within (o.writes ++ [])
    rw [List.append_nil]
    exact ⟨Nat.le_trans (Overlay.length_writes_le hstaged) (h s), o.nodup_writes⟩

section Ledger

variable {key : Octets} {kind : CellKind} {asset : Identifier} {amount : UInt64} {create : Bool}

theorem read {x : ExceptT ε Lookup α} : Asks (few 0) (liftM x : ExceptT ε Script α) := by
  intro s
  change (x.run.toScript.requested s).length ≤ 0
  rw [Script.requested_toScript]
  exact Nat.le_refl 0

theorem insert {value : Octets} : Asks (along [key]) (liftM (Script.insert key value) : ExceptT ε Script Unit) :=
  fun _ => List.Sublist.refl [key]

theorem remove : Asks (along [key]) (liftM (Script.remove key) : ExceptT ε Script Unit) :=
  fun _ => List.Sublist.refl [key]

theorem write : Asks (along [key]) (Cell.write key amount) := by
  unfold Cell.write
  split
  · exact remove
  · exact insert

theorem add : Asks (along [key]) (Cell.add key kind asset amount create) := by
  refine .after_look .read fun old => ?_
  split
  · dsimp only
    split
    · exact write
    · exact .throw
  · exact .pure

theorem sub : Asks (along [key]) (Cell.sub key kind asset amount) := by
  refine .after_look .read fun current => ?_
  split
  · exact write
  · exact .throw

theorem writeRecord {bytes : Except WireError Octets} : Asks (along [key]) (Ledger.writeRecord key bytes) := by
  unfold Ledger.writeRecord
  split
  · exact insert
  · exact .throw

end Ledger

section Action

variable {condition : Bool} {reason : Refusal}

theorem ledger {x : LedgerScript α} (h : Asks b x) : Asks b (liftM x : ActionScript α) := h.adapt

theorem check : Asks (few 0) (refuseIf condition reason) := by
  cases condition with
  | true => exact .throw
  | false => exact .pure

theorem check_bind {f : Unit → ActionScript β} (hf : ∀ u, Asks b (f u)) : Asks b (refuseIf condition reason >>= f) :=
  .after_look check hf

theorem lookup_bind {x : LedgerRead α} {f : α → ActionScript β} (hf : ∀ a, Asks b (f a)) :
    Asks b ((liftM x : ActionScript α) >>= f) :=
  .after_look (.ledger .read) hf

/-- A step that is taken on a condition. -/
theorem optional_bind {p : Prop} [Decidable p] {x : ActionScript Unit} {f : Unit → ActionScript β}
    (hx : Asks (few m) x) (hf : ∀ u, Asks (few n) (f u)) : Asks (few (m + n)) (if p then x >>= f else f ()) := by
  split
  · exact .both hx hf
  · exact (hf ()).few_of_le (Nat.le_add_left n m)

end Action

end Asks

namespace Action

variable {ctx : Context}

theorem Payment.asks (a : Payment) : Asks (apart 2) (a.execute ctx) :=
  .check_bind fun _ => .check_bind fun _ => .last <|
    .staged (.both (.few_of_one (.ledger .sub)) fun _ => .few_of_one (.ledger .add))

/-- The balance and the record of an asset are under different keys. -/
theorem Mint.asks (a : Mint) : Asks (apart 2) (a.execute ctx) := by
  refine .check_bind fun _ => .check_bind fun _ => .lookup_bind fun record? => ?_
  cases record? with
  | none => exact .throw
  | some record =>
    refine .check_bind fun _ => .check_bind fun _ => ?_
    split
    · let keys := [(StateKey.balance a.recipient a.asset).octets, (StateKey.asset a.asset).octets]
      have hnodup : keys.Nodup := by simp [keys, StateKey.octets_inj]
      refine .check_bind fun _ => Asks.apart_of_along ?_ hnodup
      exact .along_cons (.ledger .add) fun _ => .last (.ledger .writeRecord)
    · exact .throw

theorem CreateAsset.asks (a : CreateAsset) : Asks (apart 1) (a.execute ctx) :=
  .check_bind fun _ => .check_bind fun _ => .check_bind fun _ => .check_bind fun _ => .check_bind fun _ =>
    .check_bind fun _ => .last (.apart_of_one (.ledger .writeRecord))

theorem CreateNft.asks (a : CreateNft) : Asks (apart 1) (a.execute ctx) :=
  .check_bind fun _ => .check_bind fun _ => .check_bind fun _ => .check_bind fun _ =>
    .last (.apart_of_one (.ledger .writeRecord))

theorem ReadNft.asks (a : ReadNft) : Asks (apart 0) a.execute := by
  refine .check_bind fun _ => .lookup_bind fun record? => ?_
  cases record? with
  | none => exact .throw
  | some record => exact .pure

theorem TransferNft.asks (a : TransferNft) : Asks (apart 1) (a.execute ctx) := by
  refine .check_bind fun _ => .lookup_bind fun record? => ?_
  cases record? with
  | none => exact .throw
  | some record => exact .check_bind fun _ => .last (.apart_of_one (.ledger .writeRecord))

namespace Import

variable {t : Bridge.Transfer} {source name : Identifier} {total : UInt64} {record : AssetRecord}

private theorem sameAsset_bind {limit : WriteLimit} {f : Unit → ActionScript Identifier} (hf : ∀ u, Asks limit (f u)) :
    Asks limit (requireSameAsset record t >>= f) :=
  .after_look (.check_bind fun _ => .check) hf

theorem release_asks : Asks (few 1) (release t source total) := by
  refine .lookup_bind fun record? => ?_
  cases record? with
  | none => exact .throw
  | some record => exact .check_bind fun _ => sameAsset_bind fun _ => .last (.few_of_one (.ledger .sub))

private theorem raise_asks :
    Asks (few 1) (do
      let some supply := Amount.add? record.supply total | refuse .maxSupplyExceeded
      refuseIf (record.maxSupply < supply) .maxSupplyExceeded
      Ledger.setAsset name { record with supply }
      return name : ActionScript Identifier) := by
  split
  · exact .check_bind fun _ => .last (.few_of_one (.ledger .writeRecord))
  · exact .throw

theorem mint_asks : Asks (few 1) (mint t source total) := by
  unfold mint
  refine .lookup_bind fun record? => ?_
  cases record? with
  | none => exact raise_asks
  | some record => exact .check_bind fun _ => sameAsset_bind fun _ => raise_asks

/-- A swap that is settled takes two writes for each of its assets. -/
theorem settleSwap_asks {asset : Identifier} {actor : Address} : Asks (few 4) (settleSwap t asset actor) :=
  .both (.few_of_one (.ledger .sub)) fun _ => .both (.few_of_one (.ledger .add)) fun _ =>
    .both (.few_of_one (.ledger .sub)) fun _ => .few_of_one (.ledger .add)

/-- All that is released or minted, paid and settled goes through one overlay. -/
theorem asks (a : Import) : Asks (apart 8) (a.execute ctx) := by
  unfold execute
  refine .check_bind fun _ => .check_bind fun _ => .check_bind fun _ => .check_bind fun _ => ?_
  cases a.message.identifier with
  | error e => exact .throw_bind
  | ok id =>
    refine .lookup_bind fun imported => .check_bind fun _ => ?_
    split
    · rw [← branch_bind]
      refine .last (.staged (.few_of_le (.both ?_ fun asset => .both (.few_of_one (.ledger .add)) fun _ =>
        .optional_bind (.few_of_one (.ledger .add)) fun _ => .optional_bind settleSwap_asks fun _ =>
          .few_of_one (.ledger .insert)) (Nat.le_refl 8)))
      split
      · exact release_asks
      · exact mint_asks
    · exact .throw

end Import

namespace Export

variable {a : Export} {record : AssetRecord} {actor : Address} {total : UInt64}

theorem lend_asks : Asks (few 2) (lend a record actor total) :=
  .check_bind fun _ => .both (.few_of_one (.ledger .sub)) fun _ => .last (.few_of_one (.ledger .add))

theorem burn_asks : Asks (few 2) (burn a record actor total) := by
  refine .check_bind fun _ => ?_
  split
  · refine .check_bind fun _ => .both (m := 1) (n := 1) (.few_of_one (.ledger .sub)) fun _ => ?_
    split
    · dsimp only
      rw [← branch_bind]
      refine .last ?_
      split
      · exact .few_of_one (.ledger .remove)
      · exact .few_of_one (.ledger .writeRecord)
    · exact .throw
  · exact .throw

theorem asks (a : Export) : Asks (apart 3) (a.execute ctx) := by
  unfold execute
  refine .check_bind fun _ => .check_bind fun _ => .check_bind fun _ => .check_bind fun _ => ?_
  split
  · refine .lookup_bind fun record? => ?_
    cases record? with
    | none => exact .throw
    | some record =>
      dsimp only
      rw [← branch_bind]
      refine .last (.staged (.both (m := 2) (n := 1) ?_ fun asset => ?_))
      · split
        · exact burn_asks
        · exact lend_asks
      · cases (a.toTransfer record asset ctx.transaction).encode with
        | error e => exact .throw_bind
        | ok payload => exact .last (.few_of_one (.ledger .writeRecord))
  · exact .throw

end Export

def maxWrites : Nat := 8

/-- Whatever an action finds, it asks for few writes, and for no two of one key. -/
theorem asks (action : Action) (ctx : Context) : Asks (apart maxWrites) (action.perform ctx) := by
  cases action with
  | payment a => exact (Payment.asks a).apart_of_le (by decide)
  | mint a => exact (Mint.asks a).apart_of_le (by decide)
  | createAsset a => exact (CreateAsset.asks a).apart_of_le (by decide)
  | createNft a => exact (CreateNft.asks a).apart_of_le (by decide)
  | readNft a => exact (ReadNft.asks a).apart_of_le (by decide)
  | importAsset a => exact (Import.asks a).apart_of_le (by decide)
  | exportAsset a => exact (Export.asks a).apart_of_le (by decide)
  | transferNft a => exact (TransferNft.asks a).apart_of_le (by decide)

end Action
end BridgeLedger
