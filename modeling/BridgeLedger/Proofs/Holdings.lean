import BridgeLedger.Proofs.LedgerViews

/-! Sums over the balances and the loans of an asset. Replacing what is stored for one record changes them by the
units in that record, so an operation on the ledger moves them by its amount. -/
namespace BridgeLedger

def sumOver {α : Type} (value : α → Nat) : List α → Nat
  | [] => 0
  | x :: rest => value x + sumOver value rest

theorem sumOver_append {α : Type} (value : α → Nat) (xs ys : List α) :
    sumOver value (xs ++ ys) = sumOver value xs + sumOver value ys := by
  induction xs with
  | nil => exact (Nat.zero_add _).symm
  | cons x rest ih => rw [List.cons_append, sumOver, sumOver, ih, Nat.add_assoc]

namespace KeyMap

variable {β : Type}

private def weighEntries (f : Octets → β → Nat) (entries : List (Octets × β)) : Nat :=
  sumOver (fun e => f e.1 e.2) entries

def weigh (f : Octets → β → Nat) (m : KeyMap β) : Nat := weighEntries f m.entries

private theorem findEntry_eq_none {key : Octets} {entries : List (Octets × β)} (h : ∀ e ∈ entries, key < e.1) :
    findEntry key entries = none := by
  induction entries with
  | nil => rfl
  | cons e rest ih =>
    have hne : key ≠ e.1 := fun heq => List.lt_irrefl key (heq ▸ h e List.mem_cons_self)
    rw [findEntry, if_neg hne]
    exact ih fun f hf => h f (List.mem_cons_of_mem _ hf)

private theorem weighEntries_insert (f : Octets → β → Nat) (key : Octets) (value : β) {entries : List (Octets × β)}
    (h : Ascending entries) :
    weighEntries f (insertEntry key value entries) + (findEntry key entries).elim 0 (f key) =
      weighEntries f entries + f key value := by
  induction entries with
  | nil => simp [insertEntry, findEntry, weighEntries, sumOver]
  | cons e rest ih =>
    obtain ⟨he, hr⟩ := List.pairwise_cons.1 h
    unfold insertEntry
    split
    · rename_i hlt
      have hall : ∀ e' ∈ e :: rest, key < e'.1 := by
        intro e' he'
        rcases List.mem_cons.1 he' with rfl | hm
        · exact hlt
        · exact List.lt_trans hlt (he e' hm)
      rw [findEntry_eq_none hall]
      simp only [weighEntries, sumOver, Option.elim_none]
      omega
    · split
      · rename_i heq
        rw [findEntry, if_pos heq]
        simp only [weighEntries, sumOver, Option.elim_some, heq]
        omega
      · rename_i hne
        rw [findEntry, if_neg hne]
        have := ih hr
        simp only [weighEntries, sumOver] at this ⊢
        omega

private theorem weighEntries_erase (f : Octets → β → Nat) (key : Octets) {entries : List (Octets × β)}
    (h : Ascending entries) :
    weighEntries f (entries.filter fun e => e.1 != key) + (findEntry key entries).elim 0 (f key) =
      weighEntries f entries := by
  induction entries with
  | nil => rfl
  | cons e rest ih =>
    obtain ⟨he, hr⟩ := List.pairwise_cons.1 h
    by_cases hk : e.1 = key
    · have hrest : (rest.filter fun e => e.1 != key) = rest := by
        refine List.filter_eq_self.2 fun e' he' => bne_iff_ne.2 fun heq => ?_
        exact List.lt_irrefl e.1 (by simpa [hk, heq] using he e' he')
      rw [List.filter_cons_of_neg (by simp [hk]), hrest, findEntry, if_pos hk.symm]
      simp only [weighEntries, sumOver, Option.elim_some, hk]
      omega
    · rw [List.filter_cons_of_pos (by simp [hk]), findEntry, if_neg (Ne.symm hk)]
      have := ih hr
      simp only [weighEntries, sumOver] at this ⊢
      omega

theorem weigh_insert (f : Octets → β → Nat) (m : KeyMap β) (key : Octets) (value : β) :
    (m.insert key value).weigh f + (m.find? key).elim 0 (f key) = m.weigh f + f key value :=
  weighEntries_insert f key value m.ascending

theorem weigh_erase (f : Octets → β → Nat) (m : KeyMap β) (key : Octets) :
    (m.erase key).weigh f + (m.find? key).elim 0 (f key) = m.weigh f := weighEntries_erase f key m.ascending

end KeyMap

/-- The asset whose units are stored under a key, when it is a balance or a loan. -/
def StateKey.counted : StateKey → Option Identifier
  | .balance _ a => some a
  | .loan a _ => some a
  | _ => none

namespace Store

private def balanceUnits (a : Identifier) (key bytes : Octets) : Nat :=
  match StateKey.balanceParts? key with
  | some (_, b) => if b = a then Cell.amount (some bytes) else 0
  | none => 0

private def loanUnits (a : Identifier) (key bytes : Octets) : Nat :=
  match StateKey.loanParts? key with
  | some (b, _) => if b = a then Cell.amount (some bytes) else 0
  | none => 0

def totalBalances (s : Store) (a : Identifier) : Nat := s.weigh (balanceUnits a)

def totalLoans (s : Store) (a : Identifier) : Nat := s.weigh (loanUnits a)

/-- All units of an asset that accounts hold or other chains were lent. -/
def held (s : Store) (a : Identifier) : Nat := s.totalBalances a + s.totalLoans a

@[simp] theorem held_empty (a : Identifier) : held .empty a = 0 := rfl

private theorem weigh_replace (f : Octets → Octets → Nat) (s : Store) (k : StateKey) (v : Option Octets) :
    (s.replace k v).weigh f + (s.stored k).elim 0 (f k.octets) = s.weigh f + v.elim 0 (f k.octets) := by
  cases v with
  | none => exact KeyMap.weigh_erase f s k.octets
  | some bytes => exact KeyMap.weigh_insert f s k.octets bytes

private theorem units_octets (a : Identifier) (k : StateKey) (cell : Option Octets) :
    cell.elim 0 (balanceUnits a k.octets) + cell.elim 0 (loanUnits a k.octets) =
      if k.counted = some a then Cell.amount cell else 0 := by
  cases cell with
  | none => simp [Cell.amount]
  | some bytes => cases k <;> simp [balanceUnits, loanUnits, StateKey.balanceParts?_octets,
      StateKey.loanParts?_octets, StateKey.counted]

theorem held_replace (s : Store) (k : StateKey) (v : Option Octets) (a : Identifier) :
    (s.replace k v).held a + (if k.counted = some a then s.amount k else 0) =
      s.held a + if k.counted = some a then Cell.amount v else 0 := by
  have hb := weigh_replace (balanceUnits a) s k v
  have hl := weigh_replace (loanUnits a) s k v
  have hs := units_octets a k (s.stored k)
  have hv := units_octets a k v
  unfold held totalBalances totalLoans amount
  omega

/-- A record that holds no units is no part of the sums. -/
theorem held_replace_of_not_counted (s : Store) {k : StateKey} (v : Option Octets) (a : Identifier)
    (h : k.counted = none) : (s.replace k v).held a = s.held a := by
  simpa [h] using held_replace s k v a

/-- No balance or loan exceeds the sum. -/
theorem amount_le_held (s : Store) {k : StateKey} {a : Identifier} (h : k.counted = some a) :
    s.amount k ≤ s.held a := by
  have := held_replace s k none a
  rw [if_pos h, if_pos h, Cell.amount] at this
  omega

variable {s s' : Store} {k : StateKey} {n : Nat}

theorem held_credited {c : Identifier} (h : Credited s s' k n) (hk : k.counted = some c) (a : Identifier) :
    s'.held a = s.held a + if c = a then n else 0 := by
  obtain ⟨v, rfl, hv⟩ := h
  have := held_replace s k (Cell.ofAmount v) a
  simp only [Cell.amount_ofAmount, hk, Option.some.injEq] at this
  by_cases hc : c = a
  · simp only [if_pos hc] at this ⊢
    omega
  · simp only [if_neg hc] at this ⊢
    omega

theorem held_debited {c : Identifier} (h : Debited s s' k n) (hk : k.counted = some c) (a : Identifier) :
    (s'.held a + if c = a then n else 0) = s.held a := by
  obtain ⟨v, rfl, hv⟩ := h
  have := held_replace s k (Cell.ofAmount v) a
  simp only [Cell.amount_ofAmount, hk, Option.some.injEq] at this
  by_cases hc : c = a
  · simp only [if_pos hc] at this ⊢
    omega
  · simp only [if_neg hc] at this ⊢
    omega

theorem held_registered {asset : Identifier} {r : AssetRecord} (h : Registered s s' asset r) (a : Identifier) :
    s'.held a = s.held a := by
  obtain ⟨bytes, -, rfl⟩ := h
  exact held_replace_of_not_counted s _ a rfl

theorem held_lowered {asset : Identifier} {r : AssetRecord} {supply : UInt64} (h : Lowered s s' asset r supply)
    (a : Identifier) : s'.held a = s.held a := by
  unfold Lowered at h
  split at h
  · rw [h, held_replace_of_not_counted s _ a rfl]
  · exact held_registered h a

end Store
end BridgeLedger
