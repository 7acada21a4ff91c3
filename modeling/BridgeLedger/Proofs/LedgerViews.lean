import BridgeLedger.Action.Script
import BridgeLedger.Proofs.KeySeparation
import BridgeLedger.Proofs.RecordWireFormat
import BridgeLedger.Proofs.ScriptExecution

/-! What a store in memory says about the records of the ledger, and what the ledger operations do to it: each one
replaces what is stored for a single record. -/
namespace BridgeLedger

namespace Cell

/-- The amount that a cell holds; nothing when it is absent or no amount. -/
def amount : Option Octets → Nat
  | none => 0
  | some bytes => match Amount.decode bytes with
    | .ok v => v.toNat
    | .error _ => 0

theorem exists_toNat_eq_amount (cell : Option Octets) : ∃ v : UInt64, v.toNat = amount cell := by
  unfold amount
  split
  · exact ⟨0, rfl⟩
  · split
    · exact ⟨_, rfl⟩
    · exact ⟨0, rfl⟩

/-- A cell is absent or holds an amount that is not zero. -/
def Readable (cell : Option Octets) : Prop := ∀ bytes ∈ cell, ∃ v, Amount.decode bytes = .ok v ∧ v ≠ 0

def ofAmount (v : UInt64) : Option Octets := if v = 0 then none else some (Amount.encode v)

@[simp] theorem amount_ofAmount (v : UInt64) : amount (ofAmount v) = v.toNat := by
  unfold ofAmount
  split
  · rename_i h
    rw [h]
    rfl
  · simp [amount]

theorem readable_ofAmount (v : UInt64) : Readable (ofAmount v) := by
  intro bytes hb
  unfold ofAmount at hb
  split at hb
  · cases hb
  · rename_i h
    cases hb
    exact ⟨v, Amount.decode_encode v, h⟩

/-- An amount has one stored form. -/
theorem eq_ofAmount {cell : Option Octets} (h : Readable cell) : ∃ v, cell = ofAmount v := by
  cases cell with
  | none => exact ⟨0, rfl⟩
  | some bytes =>
    obtain ⟨v, hv, hz⟩ := h bytes rfl
    have hbytes : Amount.encode v = bytes := Except.ok.inj ((Amount.exact.accepted bytes v).1 hv)
    exact ⟨v, by rw [ofAmount, if_neg hz, hbytes]⟩

theorem eq_of_amount_eq {cell cell' : Option Octets} (h : Readable cell) (h' : Readable cell')
    (heq : amount cell = amount cell') : cell = cell' := by
  obtain ⟨v, rfl⟩ := eq_ofAmount h
  obtain ⟨v', rfl⟩ := eq_ofAmount h'
  rw [amount_ofAmount, amount_ofAmount] at heq
  rw [UInt64.toNat_inj.1 heq]

theorem eq_none_iff {cell : Option Octets} (h : Readable cell) : cell = none ↔ amount cell = 0 :=
  ⟨fun hnone => hnone ▸ rfl, fun hzero => eq_of_amount_eq h nofun hzero⟩

theorem of_decode_eq_ok {key : Octets} {cell : Option Octets} {old : Option UInt64} (h : decode key cell = .ok old) :
    Readable cell ∧ (old.getD 0).toNat = amount cell := by
  cases cell with
  | none => cases h; exact ⟨nofun, rfl⟩
  | some bytes =>
    cases hv : Amount.decode bytes with
    | error e => simp [decode, hv] at h
    | ok v =>
      by_cases hz : v = 0
      · simp [decode, hv, hz] at h
      · have ho : old = some v := by simpa [decode, hv, hz, eq_comm] using h
        subst ho
        refine ⟨fun b hb => ?_, ?_⟩
        · cases hb
          exact ⟨v, hv, hz⟩
        · simp [amount, hv]

theorem decode_of_readable (key : Octets) {cell : Option Octets} (h : Readable cell) :
    ∃ old, decode key cell = .ok old ∧ (old.getD 0).toNat = amount cell := by
  cases cell with
  | none => exact ⟨none, rfl, rfl⟩
  | some bytes =>
    obtain ⟨v, hv, hz⟩ := h bytes rfl
    exact ⟨some v, by rw [decode, hv]; exact if_neg hz, by rw [amount, hv]; rfl⟩

end Cell

def StateKey.IsBalance : StateKey → Prop
  | .balance .. => True
  | _ => False

namespace Store

def stored (s : Store) (k : StateKey) : Option Octets := s.find? k.octets

def replace (s : Store) (k : StateKey) : Option Octets → Store
  | some bytes => s.insert k.octets bytes
  | none => s.erase k.octets

theorem stored_replace (s : Store) (j k : StateKey) (v : Option Octets) :
    (s.replace k v).stored j = if j = k then v else s.stored j := by
  cases v with
  | none => simp [stored, replace, KeyMap.find?_erase]
  | some bytes => simp [stored, replace, KeyMap.find?_insert]

theorem stored_replace_ne (s : Store) {j k : StateKey} (v : Option Octets) (h : j ≠ k) :
    (s.replace k v).stored j = s.stored j := by rw [stored_replace, if_neg h]

@[simp] theorem stored_replace_self (s : Store) (k : StateKey) (v : Option Octets) :
    (s.replace k v).stored k = v := by rw [stored_replace, if_pos rfl]

/-- What is stored for a record is absent or decodes. -/
def Decodes {ρ : Type} (decode : Octets → Except WireError ρ) (cell : Option Octets) : Prop :=
  ∀ bytes ∈ cell, ∃ r, decode bytes = .ok r

/-- A record is there when some bytes are stored for it and decode to it. -/
theorem decoded_eq_some {ρ : Type} {decode : Octets → Except WireError ρ} {cell : Option Octets} {r : ρ} :
    cell.bind (fun bytes => (decode bytes).toOption) = some r ↔ ∃ bytes, cell = some bytes ∧ decode bytes = .ok r := by
  rw [Option.bind_eq_some_iff]
  refine exists_congr fun bytes => and_congr_right fun _ => ?_
  cases decode bytes <;> simp [Except.toOption]

def amount (s : Store) (k : StateKey) : Nat := Cell.amount (s.stored k)

/-- A balance or loan that can be read is absent exactly if it is zero. -/
theorem stored_eq_none_iff {s : Store} {k : StateKey} (h : Cell.Readable (s.stored k)) {v : UInt64}
    (hv : v.toNat = s.amount k) : s.stored k = none ↔ v = 0 := by
  rw [Cell.eq_none_iff h, ← UInt64.toNat_inj, hv]
  exact Iff.rfl

def asset? (s : Store) (a : Identifier) : Option AssetRecord :=
  (s.stored (.asset a)).bind fun bytes => (AssetRecord.decode bytes).toOption

def nft? (s : Store) (n : Identifier) : Option NftRecord :=
  (s.stored (.nft n)).bind fun bytes => (NftRecord.decode bytes).toOption

def local? (s : Store) (a : Identifier) : Option AssetRecord := (s.asset? a).filter fun r => !r.bridged

def bridged? (s : Store) (a : Identifier) : Option AssetRecord := (s.asset? a).filter fun r => r.bridged

def supply (s : Store) (a : Identifier) : Nat := (s.asset? a).elim 0 fun r => r.supply.toNat

def marked (s : Store) (source message : Identifier) : Bool := (s.stored (.incoming source message)).isSome

/-- An amount has grown and nothing else has changed. -/
def Credited (s s' : Store) (k : StateKey) (n : Nat) : Prop :=
  ∃ v : UInt64, s' = s.replace k (Cell.ofAmount v) ∧ v.toNat = s.amount k + n

def Debited (s s' : Store) (k : StateKey) (n : Nat) : Prop :=
  ∃ v : UInt64, s' = s.replace k (Cell.ofAmount v) ∧ v.toNat + n = s.amount k

def Registered (s s' : Store) (a : Identifier) (r : AssetRecord) : Prop :=
  ∃ bytes, r.encode = .ok bytes ∧ s' = s.replace (.asset a) (some bytes)

theorem asset?_registered {s s' : Store} {a : Identifier} {r : AssetRecord} (h : Registered s s' a r) :
    s'.asset? a = some r := by
  obtain ⟨bytes, hb, rfl⟩ := h
  simp [asset?, AssetRecord.decode_encode hb, Except.toOption]

theorem local?_eq_some {s : Store} {a : Identifier} {r : AssetRecord} :
    s.local? a = some r ↔ s.asset? a = some r ∧ r.bridged = false := by
  simp [local?, Option.filter_eq_some_iff]

theorem bridged?_eq_some {s : Store} {a : Identifier} {r : AssetRecord} :
    s.bridged? a = some r ↔ s.asset? a = some r ∧ r.bridged = true := by
  simp [bridged?, Option.filter_eq_some_iff]

theorem local?_of_none {s : Store} {a : Identifier} (h : s.asset? a = none) : s.local? a = none := by
  rw [local?, h, Option.filter_none]

theorem local?_of_bridged {s : Store} {a : Identifier} {r : AssetRecord} (h : s.asset? a = some r)
    (hbridged : r.bridged = true) : s.local? a = none := by simp [local?, h, hbridged]

theorem bridged?_of_none {s : Store} {a : Identifier} (h : s.asset? a = none) : s.bridged? a = none := by
  rw [bridged?, h, Option.filter_none]

theorem bridged?_of_local {s : Store} {a : Identifier} {r : AssetRecord} (h : s.asset? a = some r)
    (hlocal : r.bridged = false) : s.bridged? a = none := by simp [bridged?, h, hlocal]

theorem asset?_eq_bridged? {s : Store} {a : Identifier} (h : s.local? a = none) : s.asset? a = s.bridged? a := by
  cases hr : s.asset? a with
  | none => rw [bridged?_of_none hr]
  | some r =>
    cases hbridged : r.bridged with
    | false => cases h.symm.trans (local?_eq_some.2 ⟨hr, hbridged⟩)
    | true => rw [bridged?_eq_some.2 ⟨hr, hbridged⟩]

theorem asset?_eq_none_iff {s : Store} {a : Identifier} :
    s.asset? a = none ↔ s.local? a = none ∧ s.bridged? a = none := by
  constructor
  · exact fun h => ⟨local?_of_none h, bridged?_of_none h⟩
  · exact fun ⟨hlocal, hbridged⟩ => (asset?_eq_bridged? hlocal).trans hbridged

theorem supply_of_asset? {s : Store} {a : Identifier} {r : AssetRecord} (h : s.asset? a = some r) :
    s.supply a = r.supply.toNat := by rw [supply, h, Option.elim_some]

theorem supply_registered {s s' : Store} {a : Identifier} {r : AssetRecord} (h : Registered s s' a r) :
    s'.supply a = r.supply.toNat := supply_of_asset? (asset?_registered h)

/-- Nothing has changed but records with a property. -/
def Frame (p : StateKey → Prop) (s s' : Store) : Prop := ∀ k, ¬p k → s'.stored k = s.stored k

namespace Frame

variable {p q : StateKey → Prop} {s t s' : Store} {k : StateKey} {n : Nat}

theorem refl (s : Store) : Frame p s s := fun _ _ => rfl

theorem trans (h : Frame p s t) (h' : Frame p t s') : Frame p s s' := fun k hk => (h' k hk).trans (h k hk)

theorem mono (h : Frame p s s') (hpq : ∀ k, p k → q k) : Frame q s s' := fun k hk => h k fun hp => hk (hpq k hp)

theorem replace (v : Option Octets) (hk : p k) : Frame p s (s.replace k v) :=
  fun _ hj => stored_replace_ne s v fun heq => hj (heq ▸ hk)

theorem credited (h : Credited s s' k n) (hk : p k) : Frame p s s' := by
  obtain ⟨v, rfl, -⟩ := h
  exact replace _ hk

theorem debited (h : Debited s s' k n) (hk : p k) : Frame p s s' := by
  obtain ⟨v, rfl, -⟩ := h
  exact replace _ hk

theorem registered {a : Identifier} {r : AssetRecord} (h : Registered s s' a r) (hk : p (.asset a)) :
    Frame p s s' := by
  obtain ⟨bytes, -, rfl⟩ := h
  exact replace _ hk

theorem amount_eq (h : Frame p s s') (hk : ¬p k) : s'.amount k = s.amount k := congrArg Cell.amount (h k hk)

theorem asset?_eq (h : Frame p s s') {a : Identifier} (hk : ¬p (.asset a)) : s'.asset? a = s.asset? a := by
  unfold asset?
  rw [h _ hk]

theorem local?_eq (h : Frame p s s') {a : Identifier} (hk : ¬p (.asset a)) : s'.local? a = s.local? a := by
  unfold local?
  rw [h.asset?_eq hk]

theorem bridged?_eq (h : Frame p s s') {a : Identifier} (hk : ¬p (.asset a)) : s'.bridged? a = s.bridged? a := by
  unfold bridged?
  rw [h.asset?_eq hk]

theorem supply_eq (h : Frame p s s') {a : Identifier} (hk : ¬p (.asset a)) : s'.supply a = s.supply a := by
  unfold supply
  rw [h.asset?_eq hk]

theorem marked_eq (h : Frame p s s') {source message : Identifier} (hk : ¬p (.incoming source message)) :
    s'.marked source message = s.marked source message := congrArg Option.isSome (h _ hk)

end Frame

theorem asset?_replace_asset (s : Store) (a b : Identifier) (v : Option Octets) :
    (s.replace (.asset a) v).asset? b =
      if b = a then v.bind fun bytes => (AssetRecord.decode bytes).toOption else s.asset? b := by
  unfold asset?
  simp only [stored_replace, StateKey.asset.injEq]
  split <;> rfl

/-- Of an asset on record so many units are left, and nothing else has changed. The record goes with the last of them. -/
def Lowered (s s' : Store) (a : Identifier) (r : AssetRecord) (supply : UInt64) : Prop :=
  if supply = 0 then s' = s.replace (.asset a) none else Registered s s' a { r with supply }

namespace Lowered

variable {s s' : Store} {a : Identifier} {r : AssetRecord} {supply : UInt64}

theorem frame {p : StateKey → Prop} (h : Lowered s s' a r supply) (hk : p (.asset a)) : Frame p s s' := by
  unfold Lowered at h
  split at h
  · exact h ▸ Frame.replace _ hk
  · exact Frame.registered h hk

theorem asset?_eq (h : Lowered s s' a r supply) :
    s'.asset? a = if supply = 0 then none else some { r with supply } := by
  unfold Lowered at h
  split at h
  · rename_i hzero
    rw [h, asset?_replace_asset, if_pos rfl, Option.bind_none, if_pos hzero]
  · rename_i hleft
    rw [asset?_registered h, if_neg hleft]

theorem supply_eq (h : Lowered s s' a r supply) : s'.supply a = supply.toNat := by
  rw [Store.supply, h.asset?_eq]
  split
  · rename_i hzero
    rw [hzero]
    rfl
  · rfl

end Lowered

/-- A property that lasts while units are credited to balances and debited from them. -/
structure StableOnBalances (p : Store → Prop) : Prop where
  credited : ∀ {s s' : Store} {owner : Address} {x : Identifier} {n : Nat},
    Credited s s' (.balance owner x) n → p s → p s'
  debited : ∀ {s s' : Store} {owner : Address} {x : Identifier} {n : Nat},
    Debited s s' (.balance owner x) n → p s → p s'

theorem Frame.stableOnBalances {p : StateKey → Prop} (s : Store) (hp : ∀ owner x, p (.balance owner x)) :
    StableOnBalances (Frame p s) where
  credited h hs := hs.trans (.credited h (hp _ _))
  debited h hs := hs.trans (.debited h (hp _ _))

/-- Nothing has changed but what is stored for records. -/
def OnlyRecords (s s' : Store) : Prop := ∀ key, (∀ k : StateKey, key ≠ k.octets) → s'.find? key = s.find? key

namespace OnlyRecords

variable {s t s' : Store} {k : StateKey} {n : Nat}

theorem refl (s : Store) : OnlyRecords s s := fun _ _ => rfl

theorem trans (h : OnlyRecords s t) (h' : OnlyRecords t s') : OnlyRecords s s' :=
  fun key hkey => (h' key hkey).trans (h key hkey)

theorem replace (s : Store) (k : StateKey) (v : Option Octets) : OnlyRecords s (s.replace k v) := by
  intro key hkey
  cases v with
  | none => rw [Store.replace, KeyMap.find?_erase, if_neg (hkey k)]
  | some bytes => rw [Store.replace, KeyMap.find?_insert, if_neg (hkey k)]

theorem credited (h : Credited s s' k n) : OnlyRecords s s' := by
  obtain ⟨v, rfl, -⟩ := h
  exact replace s k _

theorem debited (h : Debited s s' k n) : OnlyRecords s s' := by
  obtain ⟨v, rfl, -⟩ := h
  exact replace s k _

theorem registered {a : Identifier} {r : AssetRecord} (h : Registered s s' a r) : OnlyRecords s s' := by
  obtain ⟨bytes, -, rfl⟩ := h
  exact replace s (.asset a) _

theorem lowered {a : Identifier} {r : AssetRecord} {supply : UInt64} (h : Lowered s s' a r supply) :
    OnlyRecords s s' := by
  unfold Lowered at h
  split at h
  · exact h ▸ replace s (.asset a) none
  · exact registered h

theorem stableOnBalances (s : Store) : StableOnBalances (OnlyRecords s) where
  credited h hs := hs.trans (.credited h)
  debited h hs := hs.trans (.debited h)

/-- Where nothing but some records has changed, every other key keeps what is stored under it. -/
theorem find?_eq {p : StateKey → Prop} (h : OnlyRecords s s') (hframe : Frame p s s') {key : Octets}
    (hkey : ∀ k, p k → key ≠ k.octets) : s'.find? key = s.find? key := by
  by_cases hrecord : ∃ k : StateKey, key = k.octets
  · obtain ⟨k, rfl⟩ := hrecord
    exact hframe k fun hk => hkey k hk rfl
  · exact h key fun k hk => hrecord ⟨k, hk⟩

end OnlyRecords

theorem amount_credited {s s' : Store} {k : StateKey} {n : Nat} (h : Credited s s' k n) :
    s'.amount k = s.amount k + n := by
  obtain ⟨v, rfl, hv⟩ := h
  rw [amount, stored_replace_self, Cell.amount_ofAmount, hv]

theorem amount_debited {s s' : Store} {k : StateKey} {n : Nat} (h : Debited s s' k n) :
    s'.amount k + n = s.amount k := by
  obtain ⟨v, rfl, hv⟩ := h
  rw [amount, stored_replace_self, Cell.amount_ofAmount, hv]

/-- All amounts after one of them has grown. -/
theorem amount_of_credited {s s' : Store} {k : StateKey} {n : Nat} (h : Credited s s' k n) (j : StateKey) :
    s'.amount j = s.amount j + if j = k then n else 0 := by
  by_cases hj : j = k
  · rw [if_pos hj, hj, amount_credited h]
  · rw [if_neg hj, (Frame.credited (p := (· = k)) h rfl).amount_eq hj, Nat.add_zero]

/-- All amounts after one of them has shrunk. -/
theorem amount_of_debited {s s' : Store} {k : StateKey} {n : Nat} (h : Debited s s' k n) (j : StateKey) :
    (s'.amount j + if j = k then n else 0) = s.amount j := by
  by_cases hj : j = k
  · rw [if_pos hj, hj, amount_debited h]
  · rw [if_neg hj, (Frame.debited (p := (· = k)) h rfl).amount_eq hj, Nat.add_zero]

/-- An amount can grow as long as the sum fits. -/
theorem exists_credited {s : Store} {k : StateKey} {n : Nat} (h : s.amount k + n < UInt64.size) :
    ∃ s', Credited s s' k n :=
  ⟨_, UInt64.ofNat (s.amount k + n), rfl, UInt64.toNat_ofNat_of_lt' h⟩

/-- An amount can shrink by no more than itself. -/
theorem exists_debited {s : Store} {k : StateKey} {n : Nat} (h : n ≤ s.amount k) : ∃ s', Debited s s' k n := by
  obtain ⟨v, hv⟩ := Cell.exists_toNat_eq_amount (s.stored k)
  have hlt : s.amount k - n < UInt64.size := by
    have : v.toNat < UInt64.size := v.toNat_lt
    simp only [amount] at h ⊢
    omega
  exact ⟨_, UInt64.ofNat (s.amount k - n), rfl, by rw [UInt64.toNat_ofNat_of_lt' hlt, Nat.sub_add_cancel h]⟩

end Store

namespace Yields

open Store

variable {α : Type} {s s' : Store} {a : α} {u : Unit} {k : StateKey} {kind : CellKind} {asset : Identifier} {n : UInt64}

/-- A ledger operation inside an action. -/
@[simp] theorem ledger_iff {x : LedgerScript α} :
    Yields (liftM x : ActionScript α) s a s' ↔ Yields x s a s' := adapt_iff

/-- A ledger operation inside an action that only reads. -/
@[simp] theorem ledger_read_iff {x : LedgerRead α} :
    Yields (liftM x : ActionScript α) s a s' ↔ x.run.eval s = .ok a ∧ s = s' :=
  ledger_iff.trans read_iff

@[simp] theorem not_refuse {reason : Refusal} : ¬Yields (refuse reason : ActionScript α) s a s' := not_throw

@[simp] theorem not_abort {e : LedgerError} : ¬Yields (abort e : ActionScript α) s a s' := not_throw

@[simp] theorem refuseIf_iff {condition : Bool} {reason : Refusal} :
    Yields (refuseIf condition reason) s u s' ↔ condition = false ∧ s = s' := by
  cases condition <;> simp [refuseIf]

/-- A refusal that does not happen changes nothing. -/
theorem refuseIf_bind_iff {β : Type} {b : β} {condition : Bool} {reason : Refusal} {f : Unit → ActionScript β} :
    Yields (refuseIf condition reason >>= f) s b s' ↔ condition = false ∧ Yields (f ()) s b s' := by
  rw [bind_iff]
  constructor
  · rintro ⟨_, _, h, hf⟩
    obtain ⟨hc, rfl⟩ := refuseIf_iff.1 h
    exact ⟨hc, hf⟩
  · rintro ⟨hc, hf⟩
    exact ⟨(), s, refuseIf_iff.2 ⟨hc, rfl⟩, hf⟩

/-- What is read goes into what follows. -/
theorem read_bind_iff {β : Type} {b : β} {x : LedgerRead α} {f : α → ActionScript β} :
    Yields ((liftM x : ActionScript α) >>= f) s b s' ↔ ∃ a, x.run.eval s = .ok a ∧ Yields (f a) s b s' := by
  rw [bind_iff]
  constructor
  · rintro ⟨a, _, h, hf⟩
    obtain ⟨ha, rfl⟩ := ledger_read_iff.1 h
    exact ⟨a, ha, hf⟩
  · rintro ⟨a, ha, hf⟩
    exact ⟨a, s, ledger_read_iff.2 ⟨ha, rfl⟩, hf⟩

@[simp] theorem write_iff {v : UInt64} :
    Yields (Cell.write k.octets v) s u s' ↔ s.replace k (Cell.ofAmount v) = s' := by
  unfold Cell.write Cell.ofAmount
  split <;> simp [replace]

private theorem read?_iff {old : Option UInt64} :
    (Cell.read? k.octets).run.eval s = .ok old ↔ Cell.decode k.octets (s.stored k) = .ok old := Iff.rfl

/-- A balance or loan is read as long as its cell is readable. -/
@[simp] theorem cell_read_iff {v : UInt64} :
    (Cell.read k.octets).run.eval s = .ok v ↔ Cell.Readable (s.stored k) ∧ v.toNat = s.amount k := by
  simp only [Cell.read, Lookup.run_bind_iff, Lookup.run_pure_iff, read?_iff]
  constructor
  · rintro ⟨old, hold, rfl⟩
    exact Cell.of_decode_eq_ok hold
  · rintro ⟨hr, hv⟩
    obtain ⟨old, hold, ha⟩ := Cell.decode_of_readable k.octets hr
    exact ⟨old, hold, UInt64.toNat_inj.1 (ha.trans hv.symm)⟩

/-- Adding succeeds exactly when the amount can be read and the sum fits. -/
theorem add_iff :
    Yields (Cell.add k.octets kind asset n true) s u s' ↔
      Cell.Readable (s.stored k) ∧ Credited s s' k n.toNat := by
  simp only [Cell.add, bind_iff, read_iff, read?_iff, Bool.or_true, if_true]
  constructor
  · rintro ⟨old, t, ⟨hold, rfl⟩, h⟩
    obtain ⟨hr, ha⟩ := Cell.of_decode_eq_ok hold
    cases hn : Amount.add? (old.getD 0) n with
    | none => simp [hn] at h
    | some next =>
      simp only [hn, write_iff] at h
      exact ⟨hr, next, h.symm, by rw [Amount.toNat_of_add?_eq_some hn, ha]; rfl⟩
  · rintro ⟨hr, next, rfl, hnext⟩
    obtain ⟨old, hold, ha⟩ := Cell.decode_of_readable k.octets hr
    refine ⟨old, s, ⟨hold, rfl⟩, ?_⟩
    have hadd : Amount.add? (old.getD 0) n = some next := by
      cases hn : Amount.add? (old.getD 0) n with
      | none =>
        have := Amount.add?_eq_none_iff.1 hn
        have : next.toNat < UInt64.size := next.toNat_lt
        simp only [amount] at hnext
        omega
      | some m =>
        have := Amount.toNat_of_add?_eq_some hn
        simp only [amount] at hnext
        exact congrArg some (UInt64.toNat_inj.1 (by omega))
    simp only [hadd, write_iff]

/-- Subtracting succeeds exactly when the amount can be read and suffices. -/
theorem sub_iff :
    Yields (Cell.sub k.octets kind asset n) s u s' ↔
      Cell.Readable (s.stored k) ∧ Debited s s' k n.toNat := by
  simp only [Cell.sub, bind_iff, read_iff, cell_read_iff]
  constructor
  · rintro ⟨current, t, ⟨⟨hr, ha⟩, rfl⟩, h⟩
    cases hn : Amount.sub? current n with
    | none => simp [hn] at h
    | some next =>
      simp only [hn, write_iff] at h
      exact ⟨hr, next, h.symm, by rw [Amount.toNat_of_sub?_eq_some hn, ha]⟩
  · rintro ⟨hr, next, rfl, hnext⟩
    obtain ⟨old, -, ha⟩ := Cell.decode_of_readable k.octets hr
    refine ⟨old.getD 0, s, ⟨⟨hr, ha⟩, rfl⟩, ?_⟩
    have hsub : Amount.sub? (old.getD 0) n = some next := by
      cases hn : Amount.sub? (old.getD 0) n with
      | none =>
        have := Amount.sub?_eq_none_iff.1 hn
        simp only [amount] at hnext
        omega
      | some m =>
        have := Amount.toNat_of_sub?_eq_some hn
        simp only [amount] at hnext
        exact congrArg some (UInt64.toNat_inj.1 (by omega))
    simp only [hsub, write_iff]

@[simp] theorem addBalance_iff {owner : Address} :
    Yields (Ledger.addBalance owner asset n true) s u s' ↔
      Cell.Readable (s.stored (.balance owner asset)) ∧ Credited s s' (.balance owner asset) n.toNat := add_iff

@[simp] theorem subBalance_iff {owner : Address} :
    Yields (Ledger.subBalance owner asset n) s u s' ↔
      Cell.Readable (s.stored (.balance owner asset)) ∧ Debited s s' (.balance owner asset) n.toNat := sub_iff

@[simp] theorem addLoan_iff {destination : Identifier} :
    Yields (Ledger.addLoan asset destination n) s u s' ↔
      Cell.Readable (s.stored (.loan asset destination)) ∧ Credited s s' (.loan asset destination) n.toNat := add_iff

@[simp] theorem subLoan_iff {destination : Identifier} :
    Yields (Ledger.subLoan asset destination n) s u s' ↔
      Cell.Readable (s.stored (.loan asset destination)) ∧ Debited s s' (.loan asset destination) n.toNat := sub_iff

/-- A record is read as long as its bytes decode. -/
theorem readRecord_iff {ρ : Type} {key : Octets} {decode : Octets → Except WireError ρ} {r? : Option ρ} :
    (Ledger.readRecord key decode).run.eval s = .ok r? ↔
      Store.Decodes decode (s.find? key) ∧ (s.find? key).bind (fun bytes => (decode bytes).toOption) = r? := by
  simp only [Ledger.readRecord, Lookup.run_bind_iff, Lookup.run_read_iff, exists_eq_left']
  cases s.find? key with
  | none => simp [Store.Decodes]
  | some bytes => cases h : decode bytes <;> simp [Store.Decodes, h, Except.toOption]

@[simp] theorem asset?_iff {r? : Option AssetRecord} :
    (Ledger.asset? asset).run.eval s = .ok r? ↔
      Store.Decodes AssetRecord.decode (s.stored (.asset asset)) ∧ s.asset? asset = r? := readRecord_iff

@[simp] theorem imported_iff {source message : Identifier} {b : Bool} :
    (Ledger.imported source message).run.eval s = .ok b ↔ s.marked source message = b := by
  simp only [Ledger.imported, Lookup.run_bind_iff, Lookup.run_read_iff, exists_eq_left', Lookup.run_pure_iff]
  exact Iff.rfl

@[simp] theorem nft?_iff {nft : Identifier} {r? : Option NftRecord} :
    (Ledger.nft? nft).run.eval s = .ok r? ↔
      Store.Decodes NftRecord.decode (s.stored (.nft nft)) ∧ s.nft? nft = r? := readRecord_iff

theorem writeRecord_iff {bytes : Except WireError Octets} :
    Yields (Ledger.writeRecord k.octets bytes) s u s' ↔ ∃ b, bytes = .ok b ∧ s' = s.replace k (some b) := by
  cases bytes with
  | ok b => simp [Ledger.writeRecord, replace, eq_comm]
  | error e => simp [Ledger.writeRecord]

@[simp] theorem setAsset_iff {r : AssetRecord} :
    Yields (Ledger.setAsset asset r) s u s' ↔ Registered s s' asset r := writeRecord_iff

@[simp] theorem setNft_iff {nft : Identifier} {r : NftRecord} :
    Yields (Ledger.setNft nft r) s u s' ↔ ∃ b, r.encode = .ok b ∧ s' = s.replace (.nft nft) (some b) := writeRecord_iff

@[simp] theorem storeOutgoing_iff {transaction : Identifier} {message : Bridge.Message} :
    Yields (Ledger.storeOutgoing transaction message) s u s' ↔
      ∃ b, message.encode = .ok b ∧ s' = s.replace (.outgoing transaction) (some b) := writeRecord_iff

@[simp] theorem deleteAsset_iff : Yields (Ledger.deleteAsset asset) s u s' ↔ s' = s.replace (.asset asset) none := by
  simp [Ledger.deleteAsset, replace, eq_comm]

@[simp] theorem markImported_iff {source message : Identifier} :
    Yields (Ledger.markImported source message) s u s' ↔ s' = s.replace (.incoming source message) (some []) := by
  simp [Ledger.markImported, replace, eq_comm]

end Yields
end BridgeLedger
