import BridgeLedger.Proofs.OverlayRefinement

/-! What an overlay keeps an account of while it carries out requests. The writes that are asked of it decide what it has
staged and which keys it records as allocated, and the reads that come before a write of their key decide what it records as
read. Of its base it asks the same keys and, unrecorded, those whose first write puts a value. -/
namespace BridgeLedger

variable {α β : Type}

namespace KeyMap

theorem mem_keys_iff {m : KeyMap β} {key : Octets} : key ∈ m.entries.map Prod.fst ↔ m.contains key = true := by
  rw [contains, Option.isSome_iff_exists, List.mem_map]
  constructor
  · rintro ⟨⟨_, value⟩, hmem, rfl⟩
    exact ⟨value, (m.find?_eq_some_iff_mem _ value).2 hmem⟩
  · rintro ⟨value, hfind⟩
    exact ⟨(key, value), (m.find?_eq_some_iff_mem key value).1 hfind, rfl⟩

theorem nodup_keys (m : KeyMap β) : (m.entries.map Prod.fst).Nodup := by
  rw [List.nodup_iff_pairwise_ne, List.pairwise_map]
  apply m.ascending.imp
  intro a b hless heq
  exact List.lt_irrefl b.1 (heq ▸ hless)

/-- A map has as many bindings as there are keys in it. -/
theorem size_eq_length {m : KeyMap β} {keys : List Octets} (hnodup : keys.Nodup)
    (h : ∀ key, m.contains key = true ↔ key ∈ keys) : m.size = keys.length := by
  have hperm : (m.entries.map Prod.fst).Perm keys :=
    (List.perm_ext_iff_of_nodup m.nodup_keys hnodup).2 fun key => mem_keys_iff.trans (h key)
  rw [size, ← List.length_map (f := Prod.fst), hperm.length_eq]

@[simp] theorem contains_insert (m : KeyMap β) (key k : Octets) (value : β) :
    (m.insert key value).contains k = true ↔ k = key ∨ m.contains k = true := by
  rw [contains, contains, find?_insert]
  by_cases hk : k = key <;> simp [hk]

@[simp] theorem contains_erase (m : KeyMap β) (key k : Octets) :
    (m.erase key).contains k = true ↔ k ≠ key ∧ m.contains k = true := by
  rw [contains, contains, find?_erase]
  by_cases hk : k = key <;> simp [hk]

theorem contains_eq_false_iff {m : KeyMap β} {key : Octets} : m.contains key = false ↔ m.find? key = none := by
  rw [contains, Option.isSome_eq_false_iff, Option.isNone_iff_eq_none]

end KeyMap

def Lookup.asked (s : Store) : Lookup α → List Octets
  | done _ => []
  | get key next => key :: (next (s.find? key)).asked s

theorem Lookup.asked_bind (s : Store) (x : Lookup α) (f : α → Lookup β) :
    (x.bind f).asked s = x.asked s ++ (f (x.eval s)).asked s := by
  induction x with
  | done a => rfl
  | get key next ih => exact congrArg (key :: ·) (ih (s.find? key))

def Script.requested : Script α → Store → List Write
  | done _, _ => []
  | get key next, s => (next (s.find? key)).requested s
  | put key value next, s => .put key value :: next.requested (s.insert key value)
  | delete key next, s => .delete key :: next.requested (s.erase key)
  | apply writes next, s => writes ++ next.requested (s.writeAll writes)

namespace Script

theorem requested_bind (x : Script α) (f : α → Script β) (s : Store) :
    (x >>= f).requested s = x.requested s ++ (f (x.exec s).1).requested (x.exec s).2 := by
  change (x.bind f).requested s = _
  induction x generalizing s with
  | done a => rfl
  | get key next ih => exact ih (s.find? key) s
  | put key value next ih => exact congrArg (Write.put key value :: ·) (ih _)
  | delete key next ih => exact congrArg (Write.delete key :: ·) (ih _)
  | apply writes next ih => exact (congrArg (writes ++ ·) (ih _)).trans (List.append_assoc ..).symm

@[simp] theorem requested_toScript (x : Lookup α) (s : Store) : x.toScript.requested s = [] := by
  induction x with
  | done a => rfl
  | get key next ih => exact ih (s.find? key)

end Script

def Write.spared (ws : List Write) (keys : List Octets) : List Octets := keys.filter fun key => ∀ w ∈ ws, w.key ≠ key

/-- The keys that a script reads on a store before it writes them. -/
def Script.looked : Script α → Store → List Octets
  | done _, _ => []
  | get key next, s => key :: (next (s.find? key)).looked s
  | put key value next, s => Write.spared [.put key value] (next.looked (s.insert key value))
  | delete key next, s => Write.spared [.delete key] (next.looked (s.erase key))
  | apply writes next, s => Write.spared writes (next.looked (s.writeAll writes))

/-- Whether the first of some writes to a key puts a value. -/
def Write.putsFirst (key : Octets) (ws : List Write) : Bool := (ws.find? (·.key = key)).any (·.value?.isSome)

namespace Write

theorem mem_spared_iff {ws : List Write} {keys : List Octets} {key : Octets} :
    key ∈ spared ws keys ↔ key ∈ keys ∧ ∀ w ∈ ws, w.key ≠ key := by
  rw [spared, List.mem_filter, decide_eq_true_iff]

@[simp] theorem nil_spared (keys : List Octets) : spared [] keys = keys := by
  simp [spared]

@[simp] theorem spared_nil (ws : List Write) : spared ws [] = [] := rfl

theorem unwritten_iff {ws : List Write} {key : Octets} :
    (∀ w ∈ ws, w.key ≠ key) ↔ .delete key ∉ ws ∧ ¬∃ value, .put key value ∈ ws := by
  constructor
  · exact fun h => ⟨fun hmem => h _ hmem rfl, fun ⟨value, hmem⟩ => h _ hmem rfl⟩
  · rintro ⟨hdelete, hput⟩ w hw rfl
    cases w with
    | put key value => exact hput ⟨value, hw⟩
    | delete key => exact hdelete hw

@[simp] theorem putsFirst_put (key k value : Octets) : putsFirst k [.put key value] = true ↔ k = key := by
  by_cases hk : key = k <;> simp [putsFirst, Write.key, value?, hk, eq_comm]

@[simp] theorem putsFirst_delete (key k : Octets) : putsFirst k [.delete key] = false := by
  by_cases hk : key = k <;> simp [putsFirst, Write.key, value?, hk]

theorem putsFirst_eq_false {ws : List Write} {key : Octets} (h : ∀ w ∈ ws, w.key ≠ key) : putsFirst key ws = false := by
  have hnone : ws.find? (·.key = key) = none := by simpa using h
  rw [putsFirst, hnone]
  rfl

theorem putsFirst_append (key : Octets) (ws ws' : List Write) :
    putsFirst key (ws ++ ws') = true ↔
      putsFirst key ws = true ∨ (∀ w ∈ ws, w.key ≠ key) ∧ putsFirst key ws' = true := by
  unfold putsFirst
  rw [List.find?_append]
  cases hfirst : ws.find? (·.key = key) with
  | none =>
    have hnone : ∀ w ∈ ws, w.key ≠ key := by simpa using hfirst
    simpa using fun _ => hnone
  | some w =>
    have hmem := List.mem_of_find?_eq_some hfirst
    have hkey : w.key = key := by simpa using List.find?_some hfirst
    have hnot : ¬∀ w ∈ ws, w.key ≠ key := fun h => h w hmem hkey
    simp [hnot]

end Write

namespace Overlay

def stage (staged : KeyMap (Option Octets)) (w : Write) : KeyMap (Option Octets) := staged.insert w.key w.value?

theorem find?_stageAll (staged : KeyMap (Option Octets)) (ws : List Write) (key : Octets) :
    (ws.foldl stage staged).find? key =
      (ws.reverse.find? (·.key = key)).elim (staged.find? key) fun w => some w.value? := by
  induction ws generalizing staged with
  | nil => rfl
  | cons w ws ih =>
    rw [List.foldl_cons, ih, List.reverse_cons, List.find?_append]
    cases ws.reverse.find? (·.key = key) with
    | some last => rfl
    | none =>
      rw [stage, KeyMap.find?_insert]
      by_cases hkey : key = w.key
      · simp [hkey]
      · simp [hkey, Ne.symm hkey]

/-- Nothing is staged for a key that was not written. -/
theorem stageAll_eq_none_iff {staged : KeyMap (Option Octets)} {ws : List Write} {key : Octets} :
    (ws.foldl stage staged).find? key = none ↔ staged.find? key = none ∧ ∀ w ∈ ws, w.key ≠ key := by
  rw [find?_stageAll]
  cases hlast : ws.reverse.find? (·.key = key) with
  | none =>
    have hnone : ∀ w ∈ ws, w.key ≠ key := by simpa using hlast
    simpa using fun _ => hnone
  | some w =>
    have hmem := List.mem_reverse.1 (List.mem_of_find?_eq_some hlast)
    have hkey : w.key = key := by simpa using List.find?_some hlast
    simpa using fun _ => ⟨w, hmem, hkey⟩

/-- What is staged was asked for. -/
theorem exists_write_of_staged {ws : List Write} {key : Octets} {v : Option Octets}
    (h : (ws.foldl stage .empty).find? key = some v) : ∃ w ∈ ws, w.key = key ∧ w.value? = v := by
  rw [find?_stageAll] at h
  cases hlast : ws.reverse.find? (·.key = key) with
  | none =>
    rw [hlast] at h
    cases h
  | some w =>
    rw [hlast] at h
    have hmem := List.mem_reverse.1 (List.mem_of_find?_eq_some hlast)
    exact ⟨w, hmem, by simpa using List.find?_some hlast, Option.some.inj h⟩

/-- An overlay keeps no more writes than it was asked for. -/
theorem length_writes_le {o : Overlay} {ws : List Write} (h : o.staged = ws.foldl stage .empty) :
    o.writes.length ≤ ws.length := by
  have hsubset : o.writes.map Write.key ⊆ ws.map Write.key := by
    intro key hkey
    refine Decidable.byContradiction fun hunwritten => ?_
    have hnone : o.staged.find? key = none :=
      h ▸ stageAll_eq_none_iff.2 ⟨rfl, fun w hw heq => hunwritten (List.mem_map.2 ⟨w, hw, heq⟩)⟩
    rw [keys_writes, KeyMap.mem_keys_iff, KeyMap.contains, hnone] at hkey
    cases hkey
  have hle := o.nodup_writes.length_le_of_subset hsubset
  rwa [List.length_map, List.length_map] at hle

/-- What the overlay after a lookup says of the keys that were looked at and of the writes that were asked of it, and what the
lookup asks of the base. -/
structure Accounts (o : Overlay) (s : Store) (x : Lookup α) (after : α → Overlay) (looks : List Octets) (ws : List Write) :
    Prop where
  staged : (after (x.eval s)).staged = ws.foldl stage o.staged
  /-- once deleted, a key is not recorded as allocated any more -/
  allocated (key : Octets) : (after (x.eval s)).allocated.contains key = true ↔ .delete key ∉ ws ∧
    (o.allocated.contains key = true ∨
      o.staged.find? key = none ∧ s.find? key = none ∧ ∃ value, .put key value ∈ ws)
  reads (key : Octets) : (after (x.eval s)).reads.contains key = true ↔
    o.reads.contains key = true ∨ o.staged.find? key = none ∧ key ∈ looks
  asked (key : Octets) : key ∈ x.asked s ↔
    o.staged.find? key = none ∧ (key ∈ looks ∨ Write.putsFirst key ws = true)

namespace Accounts

variable {o : Overlay} {s : Store} {x : Lookup α} {after : α → Overlay} {looks looks' looks'' : List Octets}
  {ws ws' : List Write}

theorem bind {f : α → Lookup β} {after' : β → Overlay} (h : Accounts o s x after looks ws)
    (h' : Accounts (after (x.eval s)) s (f (x.eval s)) after' looks' ws') (hlooks : looks'' = looks ++ Write.spared ws looks') :
    Accounts o s (x.bind f) after' looks'' (ws ++ ws') := by
  have hunstaged (key : Octets) : (after (x.eval s)).staged.find? key = none ↔
      o.staged.find? key = none ∧ ∀ w ∈ ws, w.key ≠ key := by
    rw [h.staged, stageAll_eq_none_iff]
  subst hlooks
  refine ⟨?_, fun key => ?_, fun key => ?_, fun key => ?_⟩
  · rw [Lookup.eval_bind, h'.staged, h.staged, List.foldl_append]
  · rw [Lookup.eval_bind, h'.allocated, h.allocated, hunstaged, Write.unwritten_iff]
    simp only [List.mem_append, exists_or]
    grind
  · rw [Lookup.eval_bind, h'.reads, h.reads, hunstaged, List.mem_append, Write.mem_spared_iff]
    grind
  · rw [Lookup.asked_bind, List.mem_append, h.asked, h'.asked, hunstaged, List.mem_append, Write.mem_spared_iff,
      Write.putsFirst_append]
    grind

/-- A key whose first write puts a value is staged in the end, whatever is written to it later. -/
theorem contains_staged (h : Accounts o s x after looks ws) {key : Octets} (hputs : Write.putsFirst key ws = true) :
    (after (x.eval s)).staged.contains key = true := by
  refine (Bool.not_eq_false _).mp fun hunstaged => ?_
  rw [KeyMap.contains_eq_false_iff, h.staged, stageAll_eq_none_iff] at hunstaged
  cases hputs.symm.trans (Write.putsFirst_eq_false hunstaged.2)

/-- Nothing is looked at, nothing is written and nothing is asked. -/
theorem done {a : α} (h : after a = o) : Accounts o s (.done a) after [] [] := by
  refine ⟨?_, fun key => ?_, fun key => ?_, fun key => ?_⟩ <;> simp [Lookup.eval, Lookup.asked, h, Write.putsFirst]

end Accounts

theorem accounts_get (o : Overlay) (s : Store) (key : Octets) : Accounts o s (o.get key) Prod.snd [key] [] := by
  unfold get
  cases hstaged : o.staged.find? key with
  | some v =>
    refine ⟨rfl, fun k => ?_, fun k => ?_, fun k => ?_⟩ <;>
      by_cases hk : k = key <;> simp [Lookup.eval, Lookup.asked, Write.putsFirst, hk, hstaged]
  | none =>
    refine ⟨rfl, fun k => ?_, fun k => ?_, fun k => ?_⟩ <;>
      by_cases hk : k = key <;> simp [Lookup.eval, Lookup.asked, Write.putsFirst, hk, hstaged]

/-- Only the first write of a key looks whether the base has it. -/
theorem accounts_put (o : Overlay) (s : Store) (key value : Octets) :
    Accounts o s (o.put key value) id [] [.put key value] := by
  unfold put
  cases hstaged : o.staged.find? key with
  | some v =>
    rw [KeyMap.contains, hstaged]
    refine ⟨rfl, fun k => ?_, fun k => ?_, fun k => ?_⟩ <;>
      by_cases hk : k = key <;> simp [Lookup.eval, Lookup.asked, hk, hstaged]
  | none =>
    rw [KeyMap.contains, hstaged]
    refine ⟨rfl, fun k => ?_, fun k => ?_, fun k => ?_⟩
    · cases hbase : s.find? key <;> by_cases hk : k = key <;> simp [Lookup.eval, hbase, hk, hstaged]
    · simp [Lookup.eval]
    · by_cases hk : k = key <;> simp [Lookup.asked, hk, hstaged]

theorem accounts_delete (o : Overlay) (s : Store) (key : Octets) :
    Accounts o s (.done (o.delete key)) id [] [.delete key] := by
  refine ⟨rfl, fun k => ?_, fun k => ?_, fun k => ?_⟩
  · simp [Lookup.eval, delete]
  · simp [Lookup.eval, delete]
  · simp [Lookup.asked]

theorem accounts_write (o : Overlay) (s : Store) (w : Write) : Accounts o s (o.write w) id [] [w] := by
  cases w with
  | put key value => exact o.accounts_put s key value
  | delete key => exact o.accounts_delete s key

theorem accounts_writeAll (o : Overlay) (s : Store) (ws : List Write) : Accounts o s (o.writeAll ws) id [] ws := by
  induction ws generalizing o with
  | nil => exact .done rfl
  | cons w ws ih => exact (o.accounts_write s w).bind (ih _) rfl

/-- A script on an overlay is accounted for by what it reads and writes on the store for which the overlay stands. -/
theorem accounts_onOverlay (x : Script α) (o : Overlay) (s : Store) :
    Accounts o s (x.onOverlay o) Prod.snd (x.looked (o.laidOn s)) (x.requested (o.laidOn s)) := by
  induction x generalizing o with
  | done a => exact .done rfl
  | get key next ih =>
    obtain ⟨hvalue, hlaid⟩ := o.eval_get s key
    rw [Script.onOverlay, Script.looked, Script.requested, ← hvalue, ← hlaid]
    exact (o.accounts_get s key).bind (ih _ _) (by simp)
  | put key value next ih =>
    rw [Script.onOverlay, Script.looked, Script.requested, ← laidOn_put]
    exact (o.accounts_put s key value).bind (ih _) rfl
  | delete key next ih =>
    rw [Script.onOverlay, Script.looked, Script.requested, ← laidOn_delete]
    exact (o.accounts_delete s key).bind (ih _) rfl
  | apply writes next ih =>
    rw [Script.onOverlay, Script.looked, Script.requested, ← laidOn_writeAll]
    exact (o.accounts_writeAll s writes).bind (ih _) rfl

theorem accounts_new (x : Script α) (s : Store) :
    Accounts .empty s (x.onOverlay .empty) Prod.snd (x.looked s) (x.requested s) :=
  accounts_onOverlay x .empty s

end Overlay
end BridgeLedger
