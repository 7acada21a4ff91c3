import BridgeLedger.Octets

/-! Finite maps from byte strings, kept as a list with strictly ascending keys. The order makes the list
canonical: two maps with the same bindings are equal. -/
namespace BridgeLedger

def Ascending {β : Type} (entries : List (Octets × β)) : Prop := entries.Pairwise fun a b => a.1 < b.1

structure KeyMap (β : Type) where
  entries : List (Octets × β)
  ascending : Ascending entries

namespace KeyMap

variable {β : Type}

instance [DecidableEq β] : DecidableEq (KeyMap β) := fun a b =>
  decidable_of_iff (a.entries = b.entries) ⟨fun h => by cases a; cases b; cases h; rfl, fun h => h ▸ rfl⟩

def empty : KeyMap β := ⟨[], List.Pairwise.nil⟩

def findEntry (key : Octets) : List (Octets × β) → Option β
  | [] => none
  | e :: rest => if key = e.1 then some e.2 else findEntry key rest

def find? (m : KeyMap β) (key : Octets) : Option β := findEntry key m.entries

def contains (m : KeyMap β) (key : Octets) : Bool := (m.find? key).isSome

def size (m : KeyMap β) : Nat := m.entries.length

/-- Where a key stands among the bindings from place `low` on and before place `high`. The interval is halved until its
middle has the key or nothing is left of it. -/
def searchEntries (key : Octets) (entries : List (Octets × β)) (low high : Nat) : Option Nat :=
  if low < high then
    let middle := low + (high - low) / 2
    match entries[middle]? with
    | none => none
    | some e =>
      if e.1 = key then some middle
      else if e.1 < key then searchEntries key entries (middle + 1) high
      else searchEntries key entries low middle
  else none
termination_by high - low

def index? (m : KeyMap β) (key : Octets) : Option Nat := searchEntries key m.entries 0 m.entries.length

def insertEntry (key : Octets) (value : β) : List (Octets × β) → List (Octets × β)
  | [] => [(key, value)]
  | e :: rest =>
    if key < e.1 then (key, value) :: e :: rest
    else if key = e.1 then (key, value) :: rest
    else e :: insertEntry key value rest

theorem lt_of_not_lt {a b : Octets} (h : ¬a < b) (hne : a ≠ b) : b < a :=
  (List.le_iff_lt_or_eq.1 (List.not_lt.1 h)).resolve_right fun e => hne e.symm

theorem mem_insertEntry {key : Octets} {value : β} {entries : List (Octets × β)} {e : Octets × β}
    (h : e ∈ insertEntry key value entries) : e = (key, value) ∨ e ∈ entries := by
  induction entries with
  | nil => simpa [insertEntry] using h
  | cons f rest ih =>
    unfold insertEntry at h
    split at h
    · simpa using h
    · split at h
      · rcases List.mem_cons.1 h with h | h
        · exact .inl h
        · exact .inr (List.mem_cons_of_mem _ h)
      · rcases List.mem_cons.1 h with h | h
        · exact .inr (h ▸ List.mem_cons_self)
        · exact (ih h).imp id (List.mem_cons_of_mem _)

theorem ascending_insertEntry (key : Octets) (value : β) {entries : List (Octets × β)}
    (h : Ascending entries) : Ascending (insertEntry key value entries) := by
  induction entries with
  | nil => exact List.pairwise_singleton _ _
  | cons e rest ih =>
    obtain ⟨he, hr⟩ := List.pairwise_cons.1 h
    unfold insertEntry
    split
    · rename_i hlt
      refine List.pairwise_cons.2 ⟨fun f hf => ?_, h⟩
      rcases List.mem_cons.1 hf with rfl | hf
      · exact hlt
      · exact List.lt_trans hlt (he f hf)
    · split
      · rename_i heq
        exact List.pairwise_cons.2 ⟨fun f hf => heq ▸ he f hf, hr⟩
      · rename_i hlt hne
        refine List.pairwise_cons.2 ⟨fun f hf => ?_, ih hr⟩
        rcases mem_insertEntry hf with rfl | hf
        · exact lt_of_not_lt hlt hne
        · exact he f hf

def insert (m : KeyMap β) (key : Octets) (value : β) : KeyMap β :=
  ⟨insertEntry key value m.entries, ascending_insertEntry key value m.ascending⟩

def erase (m : KeyMap β) (key : Octets) : KeyMap β :=
  ⟨m.entries.filter fun e => e.1 != key, List.Pairwise.filter _ m.ascending⟩

@[simp] theorem find?_empty (key : Octets) : (empty : KeyMap β).find? key = none := rfl

theorem find?_insert (m : KeyMap β) (key k : Octets) (value : β) :
    (m.insert key value).find? k = if k = key then some value else m.find? k := by
  simp only [find?, insert]
  induction m.entries with
  | nil => rfl
  | cons e rest ih =>
    unfold insertEntry
    split
    · simp [findEntry]
    · split
      · rename_i heq
        by_cases hk : k = key <;> simp [findEntry, hk, ← heq]
      · rename_i hne
        by_cases hk : k = e.1
        · subst hk
          simp [findEntry, Ne.symm hne]
        · simp [findEntry, hk, ih]

theorem find?_erase (m : KeyMap β) (key k : Octets) :
    (m.erase key).find? k = if k = key then none else m.find? k := by
  simp only [find?, erase]
  induction m.entries with
  | nil => simp [findEntry]
  | cons e rest ih =>
    by_cases he : e.1 = key
    · subst he
      by_cases hk : k = e.1 <;> simp_all [findEntry]
    · by_cases hk : k = e.1
      · subst hk
        simp [findEntry, he]
      · simp [findEntry, he, hk, ih]

private theorem findEntry_eq_some_iff {entries : List (Octets × β)} (h : Ascending entries) (key : Octets)
    (value : β) : findEntry key entries = some value ↔ (key, value) ∈ entries := by
  induction entries with
  | nil => simp [findEntry]
  | cons e rest ih =>
    obtain ⟨k, v⟩ := e
    obtain ⟨he, hr⟩ := List.pairwise_cons.1 h
    by_cases hk : key = k
    · subst hk
      have hn : (key, value) ∉ rest := fun hm => List.lt_irrefl key (he _ hm)
      simp [findEntry, hn, eq_comm]
    · simp [findEntry, hk, ih hr]

theorem find?_eq_some_iff_mem (m : KeyMap β) (key : Octets) (value : β) :
    m.find? key = some value ↔ (key, value) ∈ m.entries := findEntry_eq_some_iff m.ascending key value

private theorem head_key_le {e : Octets × β} {rest : List (Octets × β)} (h : Ascending (e :: rest))
    {k : Octets} {v : β} (hk : findEntry k (e :: rest) = some v) : e.1 = k ∨ e.1 < k := by
  rcases List.mem_cons.1 ((findEntry_eq_some_iff h k v).1 hk) with hm | hm
  · exact .inl (hm ▸ rfl)
  · exact .inr ((List.pairwise_cons.1 h).1 _ hm)

private theorem findEntry_tail {k : Octets} {v : β} {rest : List (Octets × β)}
    (h : Ascending ((k, v) :: rest)) : findEntry k rest = none := by
  rw [Option.eq_none_iff_forall_not_mem]
  intro x hx
  have hm := (findEntry_eq_some_iff (List.pairwise_cons.1 h).2 k x).1 hx
  exact absurd ((List.pairwise_cons.1 h).1 _ hm) (List.lt_irrefl k)

private theorem entries_ext {as bs : List (Octets × β)} (ha : Ascending as) (hb : Ascending bs)
    (h : ∀ k, findEntry k as = findEntry k bs) : as = bs := by
  induction as generalizing bs with
  | nil =>
    cases bs with
    | nil => rfl
    | cons f tail => exact absurd (h f.1) (by simp [findEntry])
  | cons e rest ih =>
    cases bs with
    | nil => exact absurd (h e.1) (by simp [findEntry])
    | cons f tail =>
      have h1 := head_key_le hb (k := e.1) (v := e.2) (by rw [← h]; simp [findEntry])
      have h2 := head_key_le ha (k := f.1) (v := f.2) (by rw [h]; simp [findEntry])
      have hk : e.1 = f.1 := by
        rcases h1 with h1 | h1
        · exact h1.symm
        · exact h2.elim id fun h2 => absurd h1 (List.lt_asymm h2)
      obtain ⟨k, v⟩ := e
      obtain ⟨k', w⟩ := f
      cases hk
      have hv := h k
      simp only [findEntry, if_pos, Option.some.injEq] at hv
      subst hv
      congr 1
      refine ih (List.pairwise_cons.1 ha).2 (List.pairwise_cons.1 hb).2 fun q => ?_
      by_cases hq : q = k
      · subst hq
        rw [findEntry_tail ha, findEntry_tail hb]
      · simpa [findEntry, hq] using h q

/-- Maps with the same bindings are equal. -/
theorem ext {a b : KeyMap β} (h : ∀ key, a.find? key = b.find? key) : a = b := by
  obtain ⟨as, ha⟩ := a
  obtain ⟨bs, hb⟩ := b
  cases entries_ext ha hb h
  rfl

private theorem key_lt_key {entries : List (Octets × β)} (h : Ascending entries) {i j : Nat} {e f : Octets × β}
    (hij : i < j) (he : entries[i]? = some e) (hf : entries[j]? = some f) : e.1 < f.1 := by
  obtain ⟨hi, rfl⟩ := List.getElem?_eq_some_iff.1 he
  obtain ⟨hj, rfl⟩ := List.getElem?_eq_some_iff.1 hf
  exact List.pairwise_iff_getElem.1 h i j hi hj hij

private theorem place_unique {entries : List (Octets × β)} (h : Ascending entries) {i j : Nat} {e f : Octets × β}
    (he : entries[i]? = some e) (hf : entries[j]? = some f) (hkey : e.1 = f.1) : i = j := by
  rcases Nat.lt_trichotomy i j with hij | hij | hij
  · exact absurd (hkey ▸ key_lt_key h hij he hf) (List.lt_irrefl _)
  · exact hij
  · exact absurd (hkey ▸ key_lt_key h hij hf he) (List.lt_irrefl _)

/-- The search finds the one place in its interval at which the key stands. -/
private theorem searchEntries_eq_some_iff {entries : List (Octets × β)} (h : Ascending entries) (key : Octets)
    {low high : Nat} (hhigh : high ≤ entries.length) (i : Nat) :
    searchEntries key entries low high = some i ↔ low ≤ i ∧ i < high ∧ ∃ value, entries[i]? = some (key, value) := by
  fun_induction searchEntries key entries low high with
  | case1 low high hlow middle hmiddle =>
    rw [List.getElem?_eq_none_iff] at hmiddle
    omega
  | case2 low high hlow middle e hmiddle hkey =>
    constructor
    · intro hi
      obtain rfl : middle = i := Option.some.inj hi
      exact ⟨by omega, by omega, e.2, hkey ▸ hmiddle⟩
    · rintro ⟨-, -, value, hvalue⟩
      exact congrArg some (place_unique h hmiddle hvalue hkey)
  | case3 low high hlow middle e hmiddle hne hless ih =>
    rw [ih hhigh]
    constructor
    · rintro ⟨hfrom, hbefore, hvalue⟩
      exact ⟨by omega, hbefore, hvalue⟩
    · rintro ⟨-, hbefore, value, hvalue⟩
      refine ⟨Nat.lt_of_not_le fun hle => ?_, hbefore, value, hvalue⟩
      rcases Nat.lt_or_eq_of_le hle with hi | rfl
      · exact List.lt_asymm hless (key_lt_key h hi hvalue hmiddle)
      · exact hne (congrArg Prod.fst (Option.some.inj (hmiddle.symm.trans hvalue)))
  | case4 low high hlow middle e hmiddle hne hless ih =>
    rw [ih (by omega)]
    constructor
    · rintro ⟨hfrom, hbefore, hvalue⟩
      exact ⟨hfrom, by omega, hvalue⟩
    · rintro ⟨hfrom, -, value, hvalue⟩
      refine ⟨hfrom, Nat.lt_of_not_le fun hle => ?_, value, hvalue⟩
      rcases Nat.lt_or_eq_of_le hle with hi | hi
      · exact hless (key_lt_key h hi hmiddle hvalue)
      · rw [← hi] at hvalue
        exact hne (congrArg Prod.fst (Option.some.inj (hmiddle.symm.trans hvalue)))
  | case5 low high hlow =>
    constructor
    · nofun
    · rintro ⟨hfrom, hbefore, -⟩
      omega

/-- The place of a key is the one at which its binding stands. -/
theorem index?_eq_some_iff (m : KeyMap β) (key : Octets) (i : Nat) :
    m.index? key = some i ↔ ∃ value, m.entries[i]? = some (key, value) := by
  unfold index?
  rw [searchEntries_eq_some_iff m.ascending key (Nat.le_refl _)]
  constructor
  · exact fun ⟨_, _, hvalue⟩ => hvalue
  · rintro ⟨value, hvalue⟩
    exact ⟨Nat.zero_le i, (List.getElem?_eq_some_iff.1 hvalue).1, value, hvalue⟩

/-- The map of some bindings, of which the last one for a key counts. -/
def ofList (pairs : List (Octets × β)) : KeyMap β := pairs.foldl (fun m p => m.insert p.1 p.2) empty

end KeyMap
end BridgeLedger
