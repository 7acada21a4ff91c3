import BridgeLedger.Store.Overlay

/-! Scripts on a store in memory. Such a store refuses nothing, so a script is a function of it. An overlay above
the store answers and ends as the store itself would, and a staged body leaves the store alone unless it succeeds. -/
namespace BridgeLedger

variable {α β ε δ : Type}

namespace Lookup

def eval (s : Store) : Lookup α → α
  | done a => a
  | get key next => (next (s.find? key)).eval s

@[simp] theorem eval_pure (s : Store) (a : α) : (pure a : Lookup α).eval s = a := rfl

theorem eval_bind (s : Store) (x : Lookup α) (f : α → Lookup β) :
    (x.bind f).eval s = (f (x.eval s)).eval s := by
  induction x with
  | done a => rfl
  | get key next ih => exact ih (s.find? key)

@[simp] theorem eval_bind' (s : Store) (x : Lookup α) (f : α → Lookup β) :
    (x >>= f).eval s = (f (x.eval s)).eval s := eval_bind s x f

/-- Running a lookup on a store in memory meets no fault. -/
theorem run_store (s : Store) (x : Lookup α) : x.run (Keyspace.get s) = .ok (x.eval s) := by
  induction x with
  | done a => rfl
  | get key next ih => exact ih (s.find? key)

@[simp] theorem run_bind_iff {s : Store} {x : ExceptT ε Lookup α} {f : α → ExceptT ε Lookup β} {b : β} :
    (x >>= f).run.eval s = .ok b ↔ ∃ a, x.run.eval s = .ok a ∧ (f a).run.eval s = .ok b := by
  rw [ExceptT.run_bind, eval_bind']
  rcases x.run.eval s with e | a
  · simp
  · exact ⟨fun h => ⟨a, rfl, h⟩, fun ⟨_, rfl, h⟩ => h⟩

@[simp] theorem run_pure_iff {s : Store} {a b : α} : (pure a : ExceptT ε Lookup α).run.eval s = .ok b ↔ a = b := by
  simp

@[simp] theorem run_read_iff {s : Store} {key : Octets} {v : Option Octets} :
    (liftM (read key) : ExceptT ε Lookup (Option Octets)).run.eval s = .ok v ↔ s.find? key = v := by
  change Except.ok (s.find? key) = Except.ok v ↔ _
  simp

end Lookup

def Write.value? : Write → Option Octets
  | .put _ value => some value
  | .delete _ => none

namespace Store

theorem find?_write (s : Store) (w : Write) (k : Octets) :
    (s.write w).find? k = if k = w.key then (match w with | .put _ v => some v | .delete _ => none) else s.find? k := by
  cases w with
  | put key value => exact KeyMap.find?_insert s key k value
  | delete key => exact KeyMap.find?_erase s key k

theorem writeAll_cons (s : Store) (w : Write) (ws : List Write) : s.writeAll (w :: ws) = (s.write w).writeAll ws := rfl

theorem find?_writeAll_of_not_mem (s : Store) (ws : List Write) {k : Octets} (h : ∀ w ∈ ws, w.key ≠ k) :
    (s.writeAll ws).find? k = s.find? k := by
  induction ws generalizing s with
  | nil => rfl
  | cons w ws ih =>
    rw [writeAll_cons, ih (s.write w) fun v hv => h v (List.mem_cons_of_mem _ hv), find?_write,
      if_neg (h w List.mem_cons_self).symm]

/-- Under a key stands what the last write of it has left, or what stood there before. -/
theorem find?_writeAll (s : Store) (ws : List Write) (key : Octets) :
    (s.writeAll ws).find? key = (ws.reverse.find? (·.key = key)).elim (s.find? key) Write.value? := by
  induction ws generalizing s with
  | nil => rfl
  | cons w ws ih =>
    rw [writeAll_cons, ih, List.reverse_cons, List.find?_append]
    cases ws.reverse.find? (·.key = key) with
    | some last => rfl
    | none =>
      rw [find?_write]
      by_cases hkey : key = w.key
      · cases w <;> simp [hkey, Write.value?]
      · simp [hkey, Ne.symm hkey]

theorem writeAll_append (s : Store) (ws ws' : List Write) : s.writeAll (ws ++ ws') = (s.writeAll ws).writeAll ws' :=
  List.foldl_append

/-- A batch on a store in memory is its writes in order. -/
theorem apply_store (ws : List Write) (s : Store) :
    (Keyspace.apply ws : EStateM StoreFault Store Unit) s = .ok () (s.writeAll ws) := by
  induction ws generalizing s with
  | nil => rfl
  | cons w ws ih => cases w <;> exact ih _

end Store

namespace Script

def exec : Script α → Store → α × Store
  | done a, s => (a, s)
  | get key next, s => (next (s.find? key)).exec s
  | put key value next, s => next.exec (s.insert key value)
  | delete key next, s => next.exec (s.erase key)
  | apply writes next, s => next.exec (s.writeAll writes)

@[simp] theorem exec_pure (s : Store) (a : α) : (pure a : Script α).exec s = (a, s) := rfl

@[simp] theorem exec_insert (s : Store) (key value : Octets) :
    (insert key value).exec s = ((), s.insert key value) := rfl

@[simp] theorem exec_remove (s : Store) (key : Octets) : (remove key).exec s = ((), s.erase key) := rfl

@[simp] theorem exec_bind (s : Store) (x : Script α) (f : α → Script β) :
    (x >>= f).exec s = (f (x.exec s).1).exec (x.exec s).2 := by
  change (x.bind f).exec s = _
  induction x generalizing s with
  | done a => rfl
  | get key next ih => exact ih (s.find? key) s
  | put key value next ih => exact ih (s.insert key value)
  | delete key next ih => exact ih (s.erase key)
  | apply writes next ih => exact ih (s.writeAll writes)

@[simp] theorem exec_toScript (s : Store) (x : Lookup α) : x.toScript.exec s = (x.eval s, s) := by
  induction x with
  | done a => rfl
  | get key next ih => exact ih (s.find? key)

/-- Running a script on a store in memory meets no fault. -/
theorem run_store (x : Script α) (s : Store) : x.run s = .ok (x.exec s).1 (x.exec s).2 := by
  induction x generalizing s with
  | done a => rfl
  | get key next ih => exact ih (s.find? key) s
  | put key value next ih => exact ih (s.insert key value)
  | delete key next ih => exact ih (s.erase key)
  | apply writes next ih =>
    have step : (apply writes next).run s = next.run (s.writeAll writes) := by
      simp only [run, bind, EStateM.bind, Store.apply_store]
    rw [step, ih]
    rfl

end Script

namespace Overlay

/-- The store that results when the staged writes are applied to a base. -/
def laidOn (o : Overlay) (s : Store) : Store := s.writeAll o.writes

@[simp] theorem laidOn_empty (s : Store) : empty.laidOn s = s := rfl

/-- A write is carried out for a key exactly if it leaves there what is staged. -/
theorem mem_writes_iff {o : Overlay} {w : Write} : w ∈ o.writes ↔ o.staged.find? w.key = some w.value? := by
  rw [writes, List.mem_map]
  constructor
  · rintro ⟨⟨key, v⟩, hmem, rfl⟩
    cases v <;> exact (o.staged.find?_eq_some_iff_mem _ _).2 hmem
  · intro h
    refine ⟨(w.key, w.value?), (o.staged.find?_eq_some_iff_mem _ _).1 h, ?_⟩
    cases w <;> rfl

theorem find?_writes (o : Overlay) (key : Octets) :
    (o.writes.reverse.find? (·.key = key)).map Write.value? = o.staged.find? key := by
  cases hlast : o.writes.reverse.find? (·.key = key) with
  | some w =>
    obtain rfl : w.key = key := by simpa using List.find?_some hlast
    exact (mem_writes_iff.1 (List.mem_reverse.1 (List.mem_of_find?_eq_some hlast))).symm
  | none =>
    have hunwritten : ∀ w ∈ o.writes, w.key ≠ key := by simpa using hlast
    symm
    rw [Option.map_none, Option.eq_none_iff_forall_ne_some]
    intro v hstaged
    cases v with
    | some value => exact hunwritten (.put key value) (mem_writes_iff.2 hstaged) rfl
    | none => exact hunwritten (.delete key) (mem_writes_iff.2 hstaged) rfl

theorem find?_laidOn (o : Overlay) (s : Store) (k : Octets) :
    (o.laidOn s).find? k = (o.staged.find? k).getD (s.find? k) := by
  rw [laidOn, Store.find?_writeAll, ← o.find?_writes]
  cases o.writes.reverse.find? (·.key = k) <;> rfl

theorem eval_get (o : Overlay) (s : Store) (key : Octets) :
    ((o.get key).eval s).1 = (o.laidOn s).find? key ∧ ((o.get key).eval s).2.laidOn s = o.laidOn s := by
  rw [find?_laidOn]
  unfold get
  cases o.staged.find? key <;> exact ⟨rfl, rfl⟩

theorem laidOn_eq_of_staged {o o' : Overlay} (s t : Store) (key : Octets) (v : Option Octets)
    (hs : o'.staged = o.staged.insert key v) (ht : ∀ k, t.find? k = if k = key then v else (o.laidOn s).find? k) :
    o'.laidOn s = t := by
  apply KeyMap.ext
  intro k
  rw [find?_laidOn, hs, KeyMap.find?_insert, ht, find?_laidOn]
  split <;> rfl

theorem laidOn_put (o : Overlay) (s : Store) (key value : Octets) :
    ((o.put key value).eval s).laidOn s = (o.laidOn s).insert key value := by
  apply laidOn_eq_of_staged s _ key (some value)
  · unfold put
    split <;> rfl
  · exact fun k => KeyMap.find?_insert _ _ _ _

theorem laidOn_delete (o : Overlay) (s : Store) (key : Octets) : (o.delete key).laidOn s = (o.laidOn s).erase key :=
  laidOn_eq_of_staged s _ key none rfl fun _ => KeyMap.find?_erase _ _ _

theorem laidOn_writeAll (o : Overlay) (s : Store) (ws : List Write) :
    ((o.writeAll ws).eval s).laidOn s = (o.laidOn s).writeAll ws := by
  induction ws generalizing o with
  | nil => rfl
  | cons w ws ih =>
    rw [writeAll, Lookup.eval_bind, ih, Store.writeAll_cons]
    cases w with
    | put key value => exact congrArg (Store.writeAll · ws) (laidOn_put o s key value)
    | delete key => exact congrArg (Store.writeAll · ws) (laidOn_delete o s key)

end Overlay

namespace Script

/-- A script on an overlay answers, and leaves the store below with the staged writes, as on the store itself. -/
theorem exec_onOverlay (x : Script α) (o : Overlay) (s : Store) :
    ((x.onOverlay o).eval s).1 = (x.exec (o.laidOn s)).1 ∧
      ((x.onOverlay o).eval s).2.laidOn s = (x.exec (o.laidOn s)).2 := by
  induction x generalizing o with
  | done a => exact ⟨rfl, rfl⟩
  | get key next ih =>
    obtain ⟨hv, ho⟩ := o.eval_get s key
    rw [onOverlay, Lookup.eval_bind, exec, ← hv, ← ho]
    exact ih _ _
  | put key value next ih =>
    rw [onOverlay, Lookup.eval_bind, exec, ← o.laidOn_put]
    exact ih _
  | delete key next ih =>
    rw [onOverlay, exec, ← o.laidOn_delete]
    exact ih _
  | apply writes next ih =>
    rw [onOverlay, Lookup.eval_bind, exec, ← o.laidOn_writeAll]
    exact ih _

theorem exec_run_bind (s : Store) (x : ExceptT ε Script α) (f : α → ExceptT ε Script β) :
    (x >>= f).run.exec s =
      match x.run.exec s with
      | (.ok a, t) => (f a).run.exec t
      | (.error e, t) => (.error e, t) := by
  rw [ExceptT.run_bind, exec_bind]
  rcases x.run.exec s with ⟨_ | _, t⟩ <;> rfl

/-- A staged body that succeeds acts as the body does; one that fails changes nothing. -/
theorem exec_staged (body : ExceptT ε Script α) (s : Store) :
    (staged body).run.exec s =
      match body.run.exec s with
      | (.ok a, s') => (.ok a, s')
      | (.error e, _) => (.error e, s) := by
  obtain ⟨hv, ho⟩ := exec_onOverlay body.run .empty s
  rw [Overlay.laidOn_empty] at hv ho
  unfold staged
  rw [ExceptT.run_mk, exec_bind, exec_toScript, ← Prod.eta (body.run.exec s), ← hv, ← ho]
  rcases (body.run.onOverlay .empty).eval s with ⟨_ | _, o⟩ <;> rfl

end Script

/-- Carried out on `s`, the body succeeds with `a` and leaves `s'`. -/
def Yields (x : ExceptT ε Script α) (s : Store) (a : α) (s' : Store) : Prop := x.run.exec s = (.ok a, s')

namespace Yields

variable {s s' : Store} {a : α} {b : β} {e : ε}

@[simp] theorem pure_iff {c : α} : Yields (pure c : ExceptT ε Script α) s a s' ↔ c = a ∧ s = s' := by
  simp [Yields]

@[simp] theorem not_throw : ¬Yields (throw e : ExceptT ε Script α) s a s' := fun h => nomatch h

@[simp] theorem bind_iff {x : ExceptT ε Script α} {f : α → ExceptT ε Script β} :
    Yields (x >>= f) s b s' ↔ ∃ a t, Yields x s a t ∧ Yields (f a) t b s' := by
  unfold Yields
  rw [Script.exec_run_bind]
  rcases x.run.exec s with ⟨e | c, t⟩
  · simp
  · simp only [Prod.mk.injEq, Except.ok.injEq]
    exact ⟨fun h => ⟨c, t, ⟨rfl, rfl⟩, h⟩, fun ⟨_, _, ⟨rfl, rfl⟩, h⟩ => h⟩

@[simp] theorem map_iff {x : ExceptT ε Script α} {f : α → β} :
    Yields (f <$> x) s b s' ↔ ∃ a, Yields x s a s' ∧ f a = b := by
  rw [map_eq_pure_bind, bind_iff]
  simp

/-- On an overlay a body succeeds as on the store itself. -/
theorem iff_onOverlay {x : ExceptT ε Script α} :
    Yields x s a s' ↔ ∃ o, (x.run.onOverlay .empty).eval s = (.ok a, o) ∧ o.laidOn s = s' := by
  obtain ⟨hvalue, hlaid⟩ := Script.exec_onOverlay x.run .empty s
  rw [Overlay.laidOn_empty] at hvalue hlaid
  unfold Yields
  rw [← Prod.eta (x.run.exec s), ← hvalue, ← hlaid]
  constructor
  · intro h
    obtain ⟨h1, h2⟩ := Prod.mk.inj h
    exact ⟨_, Prod.ext h1 rfl, h2⟩
  · rintro ⟨o, ho, rfl⟩
    rw [ho]

@[simp] theorem staged_iff {x : ExceptT ε Script α} : Yields (Script.staged x) s a s' ↔ Yields x s a s' := by
  unfold Yields
  rw [Script.exec_staged]
  rcases x.run.exec s with ⟨_ | _, t⟩ <;> simp

@[simp] theorem adapt_iff {f : ε → δ} {x : ExceptT ε Script α} :
    Yields (ExceptT.adapt f x) s a s' ↔ Yields x s a s' := by
  have hx : (ExceptT.adapt f x).run.exec s = ((x.run.exec s).1.mapError f, (x.run.exec s).2) := by
    change (Except.mapError f <$> x.run).exec s = _
    rw [map_eq_pure_bind, Script.exec_bind]
    rfl
  unfold Yields
  rw [hx]
  rcases x.run.exec s with ⟨e | c, t⟩
  · exact ⟨fun h => (nomatch (Prod.mk.inj h).1), fun h => (nomatch (Prod.mk.inj h).1)⟩
  · change (Except.ok c, t) = (Except.ok a, s') ↔ _
    simp

/-- A read succeeds with what it finds and changes nothing. -/
@[simp] theorem read_iff {x : ExceptT ε Lookup α} :
    Yields (liftM x : ExceptT ε Script α) s a s' ↔ x.run.eval s = .ok a ∧ s = s' := by
  change (Lookup.toScript x.run).exec s = (.ok a, s') ↔ _
  simp

/-- A look-up succeeds with what it finds and changes nothing. -/
theorem lookup_iff {x : Lookup α} : Yields (liftM x : ExceptT ε Script α) s a s' ↔ x.eval s = a ∧ s = s' := by
  change (Lookup.toScript (x >>= fun a => pure (Except.ok a))).exec s = (Except.ok a, s') ↔ _
  rw [Script.exec_toScript, Lookup.eval_bind']
  simp

@[simp] theorem insert_iff {key value : Octets} {u : Unit} :
    Yields (liftM (Script.insert key value) : ExceptT ε Script Unit) s u s' ↔ s.insert key value = s' := by
  change ((Script.insert key value >>= fun a => pure (Except.ok a)).exec s = (Except.ok u, s')) ↔ _
  rw [Script.exec_bind]
  simp

@[simp] theorem remove_iff {key : Octets} {u : Unit} :
    Yields (liftM (Script.remove key) : ExceptT ε Script Unit) s u s' ↔ s.erase key = s' := by
  change ((Script.remove key >>= fun a => pure (Except.ok a)).exec s = (Except.ok u, s')) ↔ _
  rw [Script.exec_bind]
  simp

end Yields
end BridgeLedger
