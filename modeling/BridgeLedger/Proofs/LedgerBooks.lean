import BridgeLedger.Proofs.LedgerOperations
import Mathlib.Data.Finmap

/-! The ledger as books: a table for each kind of record, with amounts as natural numbers. On a store that starts empty
the operations of the ledger answer as the books do, and the store holds the books in written form. -/
namespace BridgeLedger

open Store Ledger

abbrev Table (κ ρ : Type) := Finmap fun _ : κ => ρ

abbrev AmountTable (κ : Type) := Table κ Nat

namespace AmountTable

variable {κ : Type} [DecidableEq κ]

def amount (t : AmountTable κ) (x : κ) : Nat := (t.lookup x).getD 0

def put (t : AmountTable κ) (x : κ) (n : Nat) : AmountTable κ := if n = 0 then t.erase x else t.insert x n

/-- The table with a larger amount, unless it does not fit 64 bits. An absent amount is left alone unless it may be
created. -/
def add? (t : AmountTable κ) (x : κ) (n : Nat) (create : Bool) : Option (AmountTable κ) :=
  if x ∈ t ∨ create then
    if 2 ^ 64 ≤ t.amount x + n then none else some (t.put x (t.amount x + n))
  else some t

def sub? (t : AmountTable κ) (x : κ) (n : Nat) : Option (AmountTable κ) :=
  if t.amount x < n then none else some (t.put x (t.amount x - n))

theorem lookup_put (t : AmountTable κ) (x y : κ) (n : Nat) :
    (t.put x n).lookup y = if y = x then (if n = 0 then none else some n) else t.lookup y := by
  unfold put
  by_cases hy : y = x
  · subst hy
    rw [if_pos rfl]
    split
    · exact Finmap.lookup_erase y t
    · exact Finmap.lookup_insert t
  · rw [if_neg hy]
    split
    · exact Finmap.lookup_erase_ne hy
    · exact Finmap.lookup_insert_of_ne t hy

end AmountTable

structure Books where
  balances : AmountTable (Address × Identifier)
  loans : AmountTable (Identifier × Identifier)
  assets : Table Identifier AssetRecord
  nfts : Table Identifier NftRecord
  imported : Table (Identifier × Identifier) Unit
  outgoing : Table Identifier Bridge.Message

inductive Entry where
  | amount (n : Nat)
  | asset (record : AssetRecord)
  | nft (record : NftRecord)
  | mark
  | message (message : Bridge.Message)

def Entry.StoredAs : Entry → Octets → Prop
  | amount n, bytes => ∃ v : UInt64, v ≠ 0 ∧ v.toNat = n ∧ bytes = Amount.encode v
  | asset r, bytes => r.encode = .ok bytes
  | nft r, bytes => r.encode = .ok bytes
  | mark, bytes => bytes = []
  | message m, bytes => m.source ≠ .empty ∧ m.encode = .ok bytes

namespace Books

def empty : Books := ⟨∅, ∅, ∅, ∅, ∅, ∅⟩

def settle (b : Books) (changed : Option Books) (e : LedgerError) : Except LedgerError Answer × Books :=
  match changed with
  | some b' => (.ok .done, b')
  | none => (.error e, b)

def carryOut (b : Books) : Operation → Except LedgerError Answer × Books
  | .balance o a => (.ok (.amount (b.balances.amount (o, a))), b)
  | .setBalance o a n => (.ok .done, { b with balances := b.balances.put (o, a) n.toNat })
  | .addBalance o a n create =>
    b.settle ((b.balances.add? (o, a) n.toNat create).map ({ b with balances := · }))
      (.overflow .balance a (.ofNat (b.balances.amount (o, a))) n)
  | .subBalance o a n =>
    b.settle ((b.balances.sub? (o, a) n.toNat).map ({ b with balances := · }))
      (.underflow .balance a (.ofNat (b.balances.amount (o, a))) n)
  | .loan a d => (.ok (.amount (b.loans.amount (a, d))), b)
  | .setLoan a d n => (.ok .done, { b with loans := b.loans.put (a, d) n.toNat })
  | .addLoan a d n =>
    b.settle ((b.loans.add? (a, d) n.toNat true).map ({ b with loans := · }))
      (.overflow .loan a (.ofNat (b.loans.amount (a, d))) n)
  | .subLoan a d n =>
    b.settle ((b.loans.sub? (a, d) n.toNat).map ({ b with loans := · }))
      (.underflow .loan a (.ofNat (b.loans.amount (a, d))) n)
  | .asset a => (.ok (.asset (b.assets.lookup a)), b)
  | .setAsset a r =>
    b.settle (if r.symbol.length ≤ Wire.maxPrefixed ∧ r.metadata.length ≤ Wire.maxPrefixed
        then some { b with assets := b.assets.insert a r } else none)
      (corruptRecord (StateKey.asset a).octets (.wire .tooLarge))
  | .deleteAsset a => (.ok .done, { b with assets := b.assets.erase a })
  | .nft n => (.ok (.nft (b.nfts.lookup n)), b)
  | .setNft n r =>
    b.settle (if r.metadata.length ≤ Wire.maxPrefixed ∧ r.url.length ≤ Wire.maxPrefixed
        then some { b with nfts := b.nfts.insert n r } else none)
      (corruptRecord (StateKey.nft n).octets (.wire .tooLarge))
  | .imported s m => (.ok (.imported ((s, m) ∈ b.imported)), b)
  | .markImported s m => (.ok .done, { b with imported := b.imported.insert (s, m) () })
  | .outgoing t => (.ok (.outgoing (b.outgoing.lookup t)), b)
  | .storeOutgoing t m _ =>
    b.settle (if m.payload.length ≤ Limits.maxPayload then some { b with outgoing := b.outgoing.insert t m } else none)
      (corruptRecord (StateKey.outgoing t).octets (.wire .tooLarge))

def carryOutAll : List Operation → Books → List (Except LedgerError Answer) × Books
  | [], b => ([], b)
  | op :: ops, b =>
    let (answers, b') := carryOutAll ops (b.carryOut op).2
    ((b.carryOut op).1 :: answers, b')

def entry (b : Books) : StateKey → Option Entry
  | .balance o a => (b.balances.lookup (o, a)).map .amount
  | .loan a d => (b.loans.lookup (a, d)).map .amount
  | .asset a => (b.assets.lookup a).map .asset
  | .nft n => (b.nfts.lookup n).map .nft
  | .incoming s m => (b.imported.lookup (s, m)).map fun _ => .mark
  | .outgoing t => (b.outgoing.lookup t).map .message

/-- The store holds what is in the books, in its written form, and nothing else. -/
structure Represents (b : Books) (s : Store) : Prop where
  stored : ∀ k, Option.Rel Entry.StoredAs (b.entry k) (s.stored k)
  onlyRecords : OnlyRecords .empty s

theorem represents_empty : empty.Represents .empty where
  stored k := by cases k <;> exact .none
  onlyRecords := OnlyRecords.refl _

/-- One table of the books: the keys of its records, and what they are as entries. -/
structure Column (κ ρ : Type) [DecidableEq κ] where
  table : Books → Table κ ρ
  update : Books → Table κ ρ → Books
  key : κ → StateKey
  enter : ρ → Entry
  update_table : ∀ b, update b (table b) = b
  entry_key : ∀ b t x, (update b t).entry (key x) = (t.lookup x).map enter
  entry_other : ∀ b t j, (∀ x, j ≠ key x) → (update b t).entry j = b.entry j

namespace Column

def balances : Column (Address × Identifier) Nat where
  table := Books.balances
  update b t := { b with balances := t }
  key x := .balance x.1 x.2
  enter := .amount
  update_table _ := rfl
  entry_key _ _ _ := rfl
  entry_other _ _ j h := by
    cases j with
    | balance o a => exact absurd rfl (h (o, a))
    | _ => rfl

def loans : Column (Identifier × Identifier) Nat where
  table := Books.loans
  update b t := { b with loans := t }
  key x := .loan x.1 x.2
  enter := .amount
  update_table _ := rfl
  entry_key _ _ _ := rfl
  entry_other _ _ j h := by
    cases j with
    | loan a d => exact absurd rfl (h (a, d))
    | _ => rfl

def assets : Column Identifier AssetRecord where
  table := Books.assets
  update b t := { b with assets := t }
  key := .asset
  enter := .asset
  update_table _ := rfl
  entry_key _ _ _ := rfl
  entry_other _ _ j h := by
    cases j with
    | asset a => exact absurd rfl (h a)
    | _ => rfl

def nfts : Column Identifier NftRecord where
  table := Books.nfts
  update b t := { b with nfts := t }
  key := .nft
  enter := .nft
  update_table _ := rfl
  entry_key _ _ _ := rfl
  entry_other _ _ j h := by
    cases j with
    | nft n => exact absurd rfl (h n)
    | _ => rfl

def imported : Column (Identifier × Identifier) Unit where
  table := Books.imported
  update b t := { b with imported := t }
  key x := .incoming x.1 x.2
  enter _ := .mark
  update_table _ := rfl
  entry_key _ _ _ := rfl
  entry_other _ _ j h := by
    cases j with
    | incoming s m => exact absurd rfl (h (s, m))
    | _ => rfl

def outgoing : Column Identifier Bridge.Message where
  table := Books.outgoing
  update b t := { b with outgoing := t }
  key := .outgoing
  enter := .message
  update_table _ := rfl
  entry_key _ _ _ := rfl
  entry_other _ _ j h := by
    cases j with
    | outgoing t => exact absurd rfl (h t)
    | _ => rfl

variable {κ ρ : Type} [DecidableEq κ] (c : Column κ ρ)

theorem entry_table (b : Books) (x : κ) : b.entry (c.key x) = ((c.table b).lookup x).map c.enter := by
  rw [← c.entry_key, c.update_table]

/-- A change at one place of a table is a change of one entry. -/
theorem entry_update {b : Books} {t : Table κ ρ} {x : κ} (ht : ∀ y, y ≠ x → t.lookup y = (c.table b).lookup y)
    (j : StateKey) : (c.update b t).entry j = if j = c.key x then (t.lookup x).map c.enter else b.entry j := by
  by_cases hx : j = c.key x
  · rw [if_pos hx, hx, c.entry_key]
  rw [if_neg hx]
  by_cases hkey : ∃ y, j = c.key y
  · obtain ⟨y, rfl⟩ := hkey
    rw [c.entry_key, ht y fun hy => hx (hy ▸ rfl), c.entry_table]
  · exact c.entry_other b t j fun y hy => hkey ⟨y, hy⟩

end Column

namespace Represents

variable {κ ρ : Type} [DecidableEq κ] {b : Books} {s : Store}

/-- One place of a table and what is stored for it are replaced together. -/
theorem replace (h : b.Represents s) (c : Column κ ρ) {t : Table κ ρ} {x : κ} {v : Option Octets}
    (ht : ∀ y, y ≠ x → t.lookup y = (c.table b).lookup y)
    (hv : Option.Rel Entry.StoredAs ((t.lookup x).map c.enter) v) :
    (c.update b t).Represents (s.replace (c.key x) v) where
  stored j := by
    rw [c.entry_update ht, stored_replace]
    split
    · exact hv
    · exact h.stored j
  onlyRecords := h.onlyRecords.trans (.replace s (c.key x) v)

theorem insert (h : b.Represents s) (c : Column κ ρ) {x : κ} {r : ρ} {bytes : Octets}
    (hr : (c.enter r).StoredAs bytes) :
    (c.update b ((c.table b).insert x r)).Represents (s.replace (c.key x) (some bytes)) := by
  refine h.replace c (fun y hy => Finmap.lookup_insert_of_ne _ hy) ?_
  rw [Finmap.lookup_insert]
  exact .some hr

theorem erase (h : b.Represents s) (c : Column κ ρ) (x : κ) :
    (c.update b ((c.table b).erase x)).Represents (s.replace (c.key x) none) := by
  refine h.replace c (fun y hy => Finmap.lookup_erase_ne hy) ?_
  rw [Finmap.lookup_erase]
  exact .none

theorem isSome_stored (h : b.Represents s) (c : Column κ ρ) (x : κ) :
    (s.stored (c.key x)).isSome = ((c.table b).lookup x).isSome := by
  have hstored := h.stored (c.key x)
  rw [c.entry_table] at hstored
  generalize s.stored (c.key x) = cell at hstored
  generalize (c.table b).lookup x = record? at hstored
  rcases record? with _ | r <;> cases hstored <;> rfl

/-- A record in the books is read back from what is stored for it. -/
theorem record (h : b.Represents s) (c : Column κ ρ) {decode : Octets → Except WireError ρ}
    (hread : ∀ r bytes, (c.enter r).StoredAs bytes → decode bytes = .ok r) (x : κ) :
    (Ledger.readRecord (c.key x).octets decode).run.eval s = .ok ((c.table b).lookup x) := by
  have hstored := h.stored (c.key x)
  rw [c.entry_table] at hstored
  rw [Yields.readRecord_iff]
  change Decodes decode (s.stored (c.key x)) ∧ (s.stored (c.key x)).bind _ = _
  generalize s.stored (c.key x) = cell at hstored
  generalize (c.table b).lookup x = record? at hstored
  rcases record? with _ | r <;> rcases hstored with hr | _
  · exact ⟨nofun, rfl⟩
  · have hdecode := hread r _ hr
    refine ⟨?_, by rw [Option.bind_some, hdecode]; rfl⟩
    rintro bytes ⟨⟩
    exact ⟨r, hdecode⟩

/-- An amount in the books is stored as such, and it is there exactly if it is not zero. -/
theorem amount (h : b.Represents s) (c : Column κ Nat) (hc : c.enter = .amount) (x : κ) :
    ∃ v : UInt64, s.stored (c.key x) = Cell.ofAmount v ∧ AmountTable.amount (c.table b) x = v.toNat ∧
      (x ∈ c.table b ↔ v ≠ 0) := by
  have hstored := h.stored (c.key x)
  rw [c.entry_table, hc] at hstored
  rw [AmountTable.amount, ← Finmap.lookup_isSome]
  generalize s.stored (c.key x) = cell at hstored
  generalize (c.table b).lookup x = n? at hstored
  rcases n? with _ | n <;> rcases hstored with ⟨v, hv, rfl, rfl⟩ | _
  · exact ⟨0, rfl, rfl, by simp⟩
  · exact ⟨v, (if_neg hv).symm, rfl, by simp [hv]⟩

theorem isSome_stored_iff (h : b.Represents s) (c : Column κ Nat) (hc : c.enter = .amount) (x : κ) :
    (s.stored (c.key x)).isSome = true ↔ AmountTable.amount (c.table b) x ≠ 0 := by
  obtain ⟨v, hs, hv, hpresent⟩ := h.amount c hc x
  have hzero : v = 0 ↔ v.toNat = 0 := UInt64.toNat_inj.symm
  rw [h.isSome_stored c, Finmap.lookup_isSome, hpresent, hv, ne_eq, hzero]

/-- Another amount is put in the books and stored. -/
theorem put (h : b.Represents s) (c : Column κ Nat) (hc : c.enter = .amount) (x : κ) (v : UInt64) :
    (c.update b (AmountTable.put (c.table b) x v.toNat)).Represents (s.replace (c.key x) (Cell.ofAmount v)) := by
  refine h.replace c (fun y hy => ?_) ?_
  · rw [AmountTable.lookup_put, if_neg hy]
  · rw [AmountTable.lookup_put, if_pos rfl, hc]
    by_cases hv : v = 0
    · subst hv
      exact .none
    · have hne : v.toNat ≠ 0 := fun hzero => hv (UInt64.toNat_inj.1 hzero)
      rw [if_neg hne, Cell.ofAmount, if_neg hv]
      exact .some ⟨v, hv, rfl, rfl⟩

end Represents

/-- An operation answers as expected, and leaves a store that represents the expected books. -/
structure Agrees (expected : Except LedgerError Answer × Books) (x : LedgerScript Answer) (s : Store) : Prop where
  answers : (x.run.exec s).1 = expected.1
  represents : expected.2.Represents (x.run.exec s).2

namespace Agrees

variable {α κ ρ : Type} [DecidableEq κ] {b : Books} {s s' : Store}

theorem read (h : b.Represents s) {x : LedgerRead α} {a : α} {f : α → Answer} (hx : x.run.eval s = .ok a) :
    Agrees (.ok (f a), b) (do return f (← x)) s := by
  have hexec : (do return f (← x) : LedgerScript Answer).run.exec s = (.ok (f a), s) := by
    rw [Script.exec_run_bind, LedgerScript.exec_read, hx]
    rfl
  exact ⟨by rw [hexec], by rw [hexec]; exact h⟩

theorem done {x : LedgerScript Unit} (hx : Yields x s () s') (h : b.Represents s') :
    Agrees (.ok .done, b) (do x; return .done) s := by
  have hexec : (do x; return .done : LedgerScript Answer).run.exec s = (.ok .done, s') :=
    Yields.bind_iff.2 ⟨(), s', hx, rfl⟩
  exact ⟨by rw [hexec], by rw [hexec]; exact h⟩

theorem fails (h : b.Represents s) {x : LedgerScript Unit} {e : LedgerError} (hx : x.run.exec s = (.error e, s)) :
    Agrees (.error e, b) (do x; return .done) s := by
  have hexec : (do x; return .done : LedgerScript Answer).run.exec s = (.error e, s) := by
    rw [Script.exec_run_bind, hx]
  exact ⟨by rw [hexec], by rw [hexec]; exact h⟩

section Amounts

variable (h : b.Represents s) (c : Column κ Nat) (hc : c.enter = .amount) (x : κ) (n : UInt64)
include h hc

theorem amount : Agrees (.ok (.amount (AmountTable.amount (c.table b) x)), b)
    (do return .amount (← Cell.read (c.key x).octets).toNat) s := by
  obtain ⟨v, hs, hv, -⟩ := h.amount c hc x
  rw [hv]
  exact .read h (f := fun v => .amount v.toNat) (Cell.eval_read hs)

theorem put : Agrees (.ok .done, c.update b (AmountTable.put (c.table b) x n.toNat))
    (do Cell.write (c.key x).octets n; return .done) s :=
  .done (Yields.write_iff.2 rfl) (h.put c hc x n)

theorem add (kind : CellKind) (asset : Identifier) (create : Bool) :
    Agrees (b.settle ((AmountTable.add? (c.table b) x n.toNat create).map (c.update b))
        (.overflow kind asset (.ofNat (AmountTable.amount (c.table b) x)) n))
      (do Cell.add (c.key x).octets kind asset n create; return .done) s := by
  obtain ⟨v, hs, hv, hpresent⟩ := h.amount c hc x
  have hexec := Cell.exec_add hs kind asset n create
  rw [AmountTable.add?, hv, UInt64.ofNat_toNat]
  by_cases hopen : x ∈ c.table b ∨ create = true
  · rw [if_pos (hopen.imp_left hpresent.1)] at hexec
    rw [if_pos hopen]
    cases hsum : Amount.add? v n with
    | none =>
      rw [hsum] at hexec
      have hlarge : 2 ^ 64 ≤ v.toNat + n.toNat := Amount.add?_eq_none_iff.1 hsum
      rw [if_pos hlarge]
      exact .fails h hexec
    | some next =>
      rw [hsum] at hexec
      have hnext := Amount.toNat_of_add?_eq_some hsum
      have hfits : next.toNat < 2 ^ 64 := next.toNat_lt
      rw [if_neg (by omega), ← hnext]
      exact .done hexec (h.put c hc x next)
  · rw [if_neg fun hopen' => hopen (hopen'.imp_left hpresent.2)] at hexec
    rw [if_neg hopen]
    refine .done hexec ?_
    rw [c.update_table]
    exact h

theorem sub (kind : CellKind) (asset : Identifier) :
    Agrees (b.settle ((AmountTable.sub? (c.table b) x n.toNat).map (c.update b))
        (.underflow kind asset (.ofNat (AmountTable.amount (c.table b) x)) n))
      (do Cell.sub (c.key x).octets kind asset n; return .done) s := by
  obtain ⟨v, hs, hv, -⟩ := h.amount c hc x
  have hexec := Cell.exec_sub hs kind asset n
  rw [AmountTable.sub?, hv, UInt64.ofNat_toNat]
  cases hleft : Amount.sub? v n with
  | none =>
    rw [hleft] at hexec
    rw [if_pos (Amount.sub?_eq_none_iff.1 hleft)]
    exact .fails h hexec
  | some next =>
    rw [hleft] at hexec
    have hnext := Amount.toNat_of_sub?_eq_some hleft
    have hdifference : v.toNat - n.toNat = next.toNat := by omega
    rw [if_neg (by omega), hdifference]
    exact .done hexec (h.put c hc x next)

end Amounts

/-- A record is written unless it is too long. -/
theorem insert (h : b.Represents s) (c : Column κ ρ) {x : κ} {r : ρ} {bytes : Except WireError Octets} {fits : Prop}
    [Decidable fits] (hfits : fits → ∃ written, bytes = .ok written ∧ (c.enter r).StoredAs written)
    (hlong : ¬fits → bytes = .error .tooLarge) :
    Agrees (b.settle (if fits then some (c.update b ((c.table b).insert x r)) else none)
        (corruptRecord (c.key x).octets (.wire .tooLarge)))
      (do Ledger.writeRecord (c.key x).octets bytes; return .done) s := by
  by_cases hf : fits
  · obtain ⟨written, rfl, hstored⟩ := hfits hf
    rw [if_pos hf]
    exact .done (Yields.writeRecord_iff.2 ⟨written, rfl, rfl⟩) (h.insert c hstored)
  · rw [if_neg hf, hlong hf]
    exact .fails h rfl

end Agrees

theorem agrees_carryOut {b : Books} {s : Store} (h : b.Represents s) (op : Operation) :
    Agrees (b.carryOut op) op.script s := by
  cases op with
  | balance o a => exact .amount h .balances rfl (o, a)
  | setBalance o a n => exact .put h .balances rfl (o, a) n
  | addBalance o a n create => exact .add h .balances rfl (o, a) n .balance a create
  | subBalance o a n => exact .sub h .balances rfl (o, a) n .balance a
  | loan a d => exact .amount h .loans rfl (a, d)
  | setLoan a d n => exact .put h .loans rfl (a, d) n
  | addLoan a d n => exact .add h .loans rfl (a, d) n .loan a true
  | subLoan a d n => exact .sub h .loans rfl (a, d) n .loan a
  | asset a => exact .read h (h.record .assets (fun _ _ => AssetRecord.decode_encode) a)
  | setAsset a r =>
    refine .insert h .assets (fun ⟨hsymbol, hmetadata⟩ => ?_) (fun hlong => ?_)
    · obtain ⟨written, hwritten⟩ := AssetRecord.encode_isOk hsymbol hmetadata
      exact ⟨written, hwritten, hwritten⟩
    · exact Wire.two_ofPrefixed_error_iff.2 ⟨rfl, (not_and_or.1 hlong).imp Nat.lt_of_not_le Nat.lt_of_not_le⟩
  | deleteAsset a => exact .done (Yields.deleteAsset_iff.2 rfl) (h.erase .assets a)
  | nft n => exact .read h (h.record .nfts (fun _ _ => NftRecord.decode_encode) n)
  | setNft n r =>
    refine .insert h .nfts (fun ⟨hmetadata, hurl⟩ => ?_) (fun hlong => ?_)
    · obtain ⟨written, hwritten⟩ := NftRecord.encode_isOk hmetadata hurl
      exact ⟨written, hwritten, hwritten⟩
    · exact Wire.two_ofPrefixed_error_iff.2 ⟨rfl, (not_and_or.1 hlong).imp Nat.lt_of_not_le Nat.lt_of_not_le⟩
  | imported c m =>
    refine .read h (f := .imported) (Yields.imported_iff.2 ?_)
    have hmark := h.isSome_stored .imported (c, m)
    exact hmark.trans (Bool.eq_iff_iff.2 (Finmap.lookup_isSome.trans decide_eq_true_iff.symm))
  | markImported c m => exact .done (Yields.markImported_iff.2 rfl) (h.insert .imported rfl)
  | outgoing t =>
    exact .read h (h.record .outgoing (fun _ _ hm => Bridge.Message.decode_encode hm.2 hm.1) t)
  | storeOutgoing t m sourced =>
    refine .insert h .outgoing (fun hpayload => ?_) (fun hlong => if_neg hlong)
    exact ⟨_, if_pos hpayload, sourced, if_pos hpayload⟩

/-- Operations answer one after another as the books do, and the store they leave represents the books. -/
theorem runAll_carryOutAll {b : Books} {s : Store} (h : b.Represents s) (ops : List Operation) :
    (runAll ops s).1 = (carryOutAll ops b).1 ∧ (carryOutAll ops b).2.Represents (runAll ops s).2 := by
  induction ops generalizing b s with
  | nil => exact ⟨rfl, h⟩
  | cons op ops ih =>
    obtain ⟨hanswer, hrepresents⟩ := agrees_carryOut h op
    rw [← op.answer_perform] at hanswer
    rw [← op.endState_perform] at hrepresents
    obtain ⟨hanswers, hend⟩ := ih hrepresents
    exact ⟨congrArg₂ List.cons hanswer hanswers, hend⟩

/-- Operations on a store that starts empty answer, one after another, as the books do, and leave a store that
represents the books; a balance or loan is stored exactly if it is not zero. Whatever the store, an operation that fails
leaves it as it was, and an operation does not change what any operation on another record answers. -/
theorem operations_refine_books :
    (∀ ops : List Operation,
      (runAll ops .empty).1 = (carryOutAll ops .empty).1 ∧
      (carryOutAll ops .empty).2.Represents (runAll ops .empty).2 ∧
      (∀ o a, ((runAll ops .empty).2.stored (.balance o a)).isSome = true ↔
        (carryOutAll ops .empty).2.balances.amount (o, a) ≠ 0) ∧
      ∀ a d, ((runAll ops .empty).2.stored (.loan a d)).isSome = true ↔
        (carryOutAll ops .empty).2.loans.amount (a, d) ≠ 0) ∧
    (∀ (s : Store) (op : Operation) (e : LedgerError), answer op.perform s = .error e → endState op.perform s = s) ∧
    ∀ (s : Store) (op op' : Operation), op'.key ≠ op.key →
      answer op'.perform (endState op.perform s) = answer op'.perform s := by
  refine ⟨fun ops => ?_, fun s op e => Operation.endState_of_error, fun s op op' h => Operation.answer_after h s⟩
  obtain ⟨hanswers, hrepresents⟩ := runAll_carryOutAll represents_empty ops
  refine ⟨hanswers, hrepresents, fun o a => ?_, fun a d => ?_⟩
  · exact hrepresents.isSome_stored_iff .balances rfl (o, a)
  · exact hrepresents.isSome_stored_iff .loans rfl (a, d)

example : (carryOutAll [.addBalance (.filled 1) .empty 5 false, .addBalance (.filled 1) .empty 5 true,
      .subBalance (.filled 1) .empty 6, .subBalance (.filled 1) .empty 5, .balance (.filled 1) .empty] .empty).1 =
    [.ok .done, .ok .done, .error (.underflow .balance .empty 5 6), .ok .done, .ok (.amount 0)] := rfl

end Books
end BridgeLedger
