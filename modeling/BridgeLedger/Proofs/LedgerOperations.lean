import BridgeLedger.Proofs.IndependentExecutions
import BridgeLedger.Proofs.WholeActions

/-! Operations on the ledger one after another. What an operation answers and leaves is decided by what is stored for
the one record that it is about, so it does not meet the operations on other records; and an operation that fails leaves
the store as it was. -/
namespace BridgeLedger

open Store

variable {α β : Type}

/-- A read inside a ledger operation. -/
theorem LedgerScript.exec_read (x : LedgerRead α) (s : Store) :
    (liftM x : LedgerScript α).run.exec s = (x.run.eval s, s) := Script.exec_toScript s x.run

/-- What the body answers, and what it leaves for one record, is decided by what is stored for that record. All other
records it leaves alone. -/
structure ActsOn (k : StateKey) (x : LedgerScript α) : Prop where
  answers : ∀ {s t : Store}, t.stored k = s.stored k → (x.run.exec t).1 = (x.run.exec s).1
  leaves : ∀ {s t : Store}, t.stored k = s.stored k → (x.run.exec t).2.stored k = (x.run.exec s).2.stored k
  spares : ∀ s : Store, Frame (· = k) s (x.run.exec s).2

namespace ActsOn

variable {k : StateKey}

protected theorem pure {a : α} : ActsOn k (pure a : LedgerScript α) where
  answers _ := rfl
  leaves h := h
  spares := Frame.refl

protected theorem throw {e : LedgerError} : ActsOn k (throw e : LedgerScript α) where
  answers _ := rfl
  leaves h := h
  spares := Frame.refl

protected theorem bind {x : LedgerScript α} {f : α → LedgerScript β} (hx : ActsOn k x) (hf : ∀ a, ActsOn k (f a)) :
    ActsOn k (x >>= f) := by
  have both : ∀ {s t : Store}, t.stored k = s.stored k → ((x >>= f).run.exec t).1 = ((x >>= f).run.exec s).1 ∧
      ((x >>= f).run.exec t).2.stored k = ((x >>= f).run.exec s).2.stored k := by
    intro s t h
    have hanswers := hx.answers h
    have hleaves := hx.leaves h
    rw [Script.exec_run_bind, Script.exec_run_bind]
    generalize x.run.exec s = ends at hanswers hleaves ⊢
    generalize x.run.exec t = ends' at hanswers hleaves ⊢
    obtain ⟨e | a, u⟩ := ends <;> obtain ⟨e' | a', u'⟩ := ends' <;> cases hanswers
    · exact ⟨rfl, hleaves⟩
    · exact ⟨(hf a).answers hleaves, (hf a).leaves hleaves⟩
  refine ⟨fun h => (both h).1, fun h => (both h).2, fun s => ?_⟩
  have hspares := hx.spares s
  rw [Script.exec_run_bind]
  generalize x.run.exec s = ends at hspares ⊢
  obtain ⟨e | a, u⟩ := ends
  · exact hspares
  · exact hspares.trans ((hf a).spares u)

/-- A look at the record. -/
theorem look {x : LedgerRead α} (seen : Option Octets → Except LedgerError α)
    (h : ∀ s : Store, x.run.eval s = seen (s.stored k)) : ActsOn k (liftM x : LedgerScript α) := by
  refine ⟨fun hsame => ?_, fun hsame => ?_, fun s => ?_⟩
  · rw [LedgerScript.exec_read, LedgerScript.exec_read, h, h, hsame]
  · rw [LedgerScript.exec_read, LedgerScript.exec_read]
    exact hsame
  · rw [LedgerScript.exec_read]
    exact Frame.refl s

/-- What is stored for the record is replaced. -/
theorem store {x : LedgerScript Unit} (v : Option Octets) (h : ∀ s : Store, x.run.exec s = (.ok (), s.replace k v)) :
    ActsOn k x where
  answers _ := by rw [h, h]
  leaves _ := by rw [h, h, stored_replace_self, stored_replace_self]
  spares s := by
    rw [h]
    exact Frame.replace v rfl

theorem insert {value : Octets} : ActsOn k (liftM (Script.insert k.octets value) : LedgerScript Unit) :=
  store (some value) fun _ => rfl

theorem remove : ActsOn k (liftM (Script.remove k.octets) : LedgerScript Unit) := store none fun _ => rfl

theorem write {n : UInt64} : ActsOn k (Cell.write k.octets n) := by
  unfold Cell.write
  split
  · exact remove
  · exact insert

theorem add {kind : CellKind} {asset : Identifier} {n : UInt64} {create : Bool} :
    ActsOn k (Cell.add k.octets kind asset n create) := by
  refine .bind (.look (Cell.decode k.octets) fun _ => rfl) fun old => ?_
  split
  · dsimp only
    split
    · exact .write
    · exact .throw
  · exact .pure

theorem read : ActsOn k (liftM (Cell.read k.octets) : LedgerScript UInt64) := by
  refine .look (fun cell => (Cell.decode k.octets cell).map (·.getD 0)) fun s => ?_
  have hread : (Cell.read? k.octets).run.eval s = Cell.decode k.octets (s.stored k) := rfl
  rw [Cell.read, ExceptT.run_bind, Lookup.eval_bind', hread]
  cases Cell.decode k.octets (s.stored k) <;> rfl

theorem sub {kind : CellKind} {asset : Identifier} {n : UInt64} : ActsOn k (Cell.sub k.octets kind asset n) := by
  refine .bind .read fun current => ?_
  split
  · exact .write
  · exact .throw

theorem readRecord {ρ : Type} {decode : Octets → Except WireError ρ} :
    ActsOn k (liftM (Ledger.readRecord k.octets decode) : LedgerScript (Option ρ)) := by
  refine .look (fun cell => cell.elim (.ok none) fun bytes =>
    ((decode bytes).map some).mapError fun e => corruptRecord k.octets (.wire e)) fun s => ?_
  have hread : (liftM (Lookup.read k.octets) : LedgerRead (Option Octets)).run.eval s = .ok (s.stored k) := rfl
  rw [Ledger.readRecord, ExceptT.run_bind, Lookup.eval_bind', hread]
  rcases s.stored k with _ | bytes
  · rfl
  · dsimp only [Option.elim_some]
    cases decode bytes <;> rfl

theorem writeRecord {bytes : Except WireError Octets} : ActsOn k (Ledger.writeRecord k.octets bytes) := by
  unfold Ledger.writeRecord
  split
  · exact .insert
  · exact .throw

theorem imported {source message : Identifier} :
    ActsOn (.incoming source message) (liftM (Ledger.imported source message) : LedgerScript Bool) :=
  .look (fun cell => .ok cell.isSome) fun _ => rfl

end ActsOn

namespace Whole

variable {s : Store} {key : Octets}

theorem write {n : UInt64} : Whole (Cell.write key n) s := of_not_halts fun _ h => Halts.not_write h

theorem sub {kind : CellKind} {asset : Identifier} {n : UInt64} : Whole (Cell.sub key kind asset n) s := by
  refine .read_bind fun current _ => ?_
  split
  · exact .write
  · exact .throw

theorem insert {value : Octets} : Whole (liftM (Script.insert key value) : LedgerScript Unit) s :=
  of_not_halts fun _ h => Halts.not_insert h

theorem remove : Whole (liftM (Script.remove key) : LedgerScript Unit) s := of_not_halts fun _ h => Halts.not_remove h

end Whole

namespace Cell

variable {s : Store} {k : StateKey} {v : UInt64}

theorem decode_ofAmount (key : Octets) (v : UInt64) :
    decode key (ofAmount v) = .ok (if v = 0 then none else some v) := by
  unfold ofAmount
  split
  · rfl
  · rename_i hv
    rw [decode, Amount.decode_encode]
    exact if_neg hv

theorem eval_read (hs : s.stored k = ofAmount v) : (read k.octets).run.eval s = .ok v :=
  Yields.cell_read_iff.2 ⟨hs ▸ readable_ofAmount v, by rw [Store.amount, hs, amount_ofAmount]⟩

theorem exec_add (hs : s.stored k = ofAmount v) (kind : CellKind) (asset : Identifier) (n : UInt64) (create : Bool) :
    (add k.octets kind asset n create).run.exec s =
    if v ≠ 0 ∨ create then
      match Amount.add? v n with
      | some next => (.ok (), s.replace k (ofAmount next))
      | none => (.error (.overflow kind asset v n), s)
    else (.ok (), s) := by
  have hread : (read? k.octets).run.eval s = .ok (if v = 0 then none else some v) := by
    change decode k.octets (s.stored k) = _
    rw [hs, decode_ofAmount]
  have hcurrent : (if v = 0 then none else some v).getD 0 = v := by
    split
    · rename_i hv
      exact hv.symm
    · rfl
  have hpresent : (if v = 0 then none else some v).isSome = decide (v ≠ 0) := by split <;> simp_all
  rw [add, Script.exec_run_bind, LedgerScript.exec_read, hread]
  simp only [hcurrent, hpresent, Bool.or_eq_true, decide_eq_true_eq]
  split
  · cases Amount.add? v n with
    | none => rfl
    | some next => exact Yields.write_iff.2 rfl
  · rfl

theorem exec_sub (hs : s.stored k = ofAmount v) (kind : CellKind) (asset : Identifier) (n : UInt64) :
    (sub k.octets kind asset n).run.exec s =
    match Amount.sub? v n with
    | some next => (.ok (), s.replace k (ofAmount next))
    | none => (.error (.underflow kind asset v n), s) := by
  rw [sub, Script.exec_run_bind, LedgerScript.exec_read, eval_read hs]
  dsimp only
  cases Amount.sub? v n with
  | none => rfl
  | some next => exact Yields.write_iff.2 rfl

end Cell

namespace Ledger

/-- A call of the ledger. A message that is stored has a source. -/
inductive Operation where
  | balance (owner : Address) (asset : Identifier)
  | setBalance (owner : Address) (asset : Identifier) (amount : UInt64)
  | addBalance (owner : Address) (asset : Identifier) (amount : UInt64) (create : Bool)
  | subBalance (owner : Address) (asset : Identifier) (amount : UInt64)
  | loan (asset destination : Identifier)
  | setLoan (asset destination : Identifier) (amount : UInt64)
  | addLoan (asset destination : Identifier) (amount : UInt64)
  | subLoan (asset destination : Identifier) (amount : UInt64)
  | asset (asset : Identifier)
  | setAsset (asset : Identifier) (record : AssetRecord)
  | deleteAsset (asset : Identifier)
  | nft (nft : Identifier)
  | setNft (nft : Identifier) (record : NftRecord)
  | imported (source message : Identifier)
  | markImported (source message : Identifier)
  | outgoing (transaction : Identifier)
  | storeOutgoing (transaction : Identifier) (message : Bridge.Message) (sourced : message.source ≠ .empty)

inductive Answer where
  | done
  | amount (n : Nat)
  | asset (record? : Option AssetRecord)
  | nft (record? : Option NftRecord)
  | imported (mark : Bool)
  | outgoing (message? : Option Bridge.Message)
deriving DecidableEq

namespace Operation

def key : Operation → StateKey
  | .balance o a | .setBalance o a _ | .addBalance o a _ _ | .subBalance o a _ => .balance o a
  | .loan a d | .setLoan a d _ | .addLoan a d _ | .subLoan a d _ => .loan a d
  | .asset a | .setAsset a _ | .deleteAsset a => .asset a
  | .nft n | .setNft n _ => .nft n
  | .imported s m | .markImported s m => .incoming s m
  | .outgoing t | .storeOutgoing t _ _ => .outgoing t

def script : Operation → LedgerScript Answer
  | .balance o a => return .amount (← Ledger.balance o a).toNat
  | .setBalance o a n => do Ledger.setBalance o a n; return .done
  | .addBalance o a n create => do Ledger.addBalance o a n create; return .done
  | .subBalance o a n => do Ledger.subBalance o a n; return .done
  | .loan a d => return .amount (← Ledger.loan a d).toNat
  | .setLoan a d n => do Ledger.setLoan a d n; return .done
  | .addLoan a d n => do Ledger.addLoan a d n; return .done
  | .subLoan a d n => do Ledger.subLoan a d n; return .done
  | .asset a => return .asset (← Ledger.asset? a)
  | .setAsset a record => do Ledger.setAsset a record; return .done
  | .deleteAsset a => do Ledger.deleteAsset a; return .done
  | .nft n => return .nft (← Ledger.nft? n)
  | .setNft n record => do Ledger.setNft n record; return .done
  | .imported s m => return .imported (← Ledger.imported s m)
  | .markImported s m => do Ledger.markImported s m; return .done
  | .outgoing t => return .outgoing (← Ledger.outgoing? t)
  | .storeOutgoing t message _ => do Ledger.storeOutgoing t message; return .done

def perform (op : Operation) : EStateM LedgerError Store Answer := op.script.runOn

theorem answer_perform (op : Operation) (s : Store) : answer op.perform s = (op.script.run.exec s).1 := by
  unfold answer perform
  rw [LedgerScript.runOn_store]
  rcases op.script.run.exec s with ⟨_ | _, _⟩ <;> rfl

theorem endState_perform (op : Operation) (s : Store) : endState op.perform s = (op.script.run.exec s).2 := by
  unfold endState perform
  rw [LedgerScript.runOn_store]
  rcases op.script.run.exec s with ⟨_ | _, _⟩ <;> rfl

theorem actsOn (op : Operation) : ActsOn op.key op.script := by
  cases op with
  | balance | loan => exact .bind .read fun _ => .pure
  | setBalance | setLoan => exact .bind .write fun _ => .pure
  | addBalance | addLoan => exact .bind .add fun _ => .pure
  | subBalance | subLoan => exact .bind .sub fun _ => .pure
  | asset | nft | outgoing => exact .bind .readRecord fun _ => .pure
  | setAsset | setNft | storeOutgoing => exact .bind .writeRecord fun _ => .pure
  | deleteAsset => exact .bind .remove fun _ => .pure
  | imported => exact .bind .imported fun _ => .pure
  | markImported => exact .bind .insert fun _ => .pure

theorem whole (op : Operation) (s : Store) : Whole op.script s := by
  cases op with
  | balance | loan | asset | nft | imported | outgoing => exact .last .read
  | setBalance | setLoan => exact .last .write
  | addBalance | addLoan => exact .last .add
  | subBalance | subLoan => exact .last .sub
  | setAsset | setNft | storeOutgoing => exact .last .writeRecord
  | deleteAsset => exact .last .remove
  | markImported => exact .last .insert

/-- An operation that fails leaves the store as it was. -/
theorem endState_of_error {op : Operation} {s : Store} {e : LedgerError} (h : answer op.perform s = .error e) :
    endState op.perform s = s := by
  rw [answer_perform] at h
  rw [endState_perform]
  exact op.whole s e h

/-- Whatever an operation does, an operation on another record answers as it would have answered before. -/
theorem answer_after {op op' : Operation} (h : op'.key ≠ op.key) (s : Store) :
    answer op'.perform (endState op.perform s) = answer op'.perform s := by
  rw [answer_perform, answer_perform, endState_perform]
  exact op'.actsOn.answers (op.actsOn.spares s op'.key h)

end Operation

def runAll : List Operation → Store → List (Except LedgerError Answer) × Store
  | [], s => ([], s)
  | op :: ops, s =>
    let (answers, s') := runAll ops (endState op.perform s)
    (answer op.perform s :: answers, s')

end Ledger
end BridgeLedger
