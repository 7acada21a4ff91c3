import BridgeLedger.Proofs.LedgerViews

/-! How a body stops early on a store in memory. What may make a sequence of steps halt is what may make one of them halt
on the store that the steps before it leave. -/
namespace BridgeLedger

variable {α β ε δ : Type}

def Halts (x : ExceptT ε Script α) (s : Store) (e : ε) : Prop := (x.run.exec s).1 = .error e

namespace Yields

variable {x : ExceptT ε Script α} {s t u : Store} {a b : α}

theorem not_halts (h : Yields x s a t) {e : ε} : ¬Halts x s e := by
  intro hhalts
  rw [Halts, h] at hhalts
  cases hhalts

end Yields

namespace Halts

variable {s : Store} {e : ε}

@[simp] theorem not_pure {a : α} : ¬Halts (pure a : ExceptT ε Script α) s e := nofun

@[simp] theorem throw_iff {e' : ε} : Halts (throw e' : ExceptT ε Script α) s e ↔ e' = e :=
  ⟨fun h => Except.error.inj h, fun h => congrArg Except.error h⟩

theorem bind_iff {x : ExceptT ε Script α} {f : α → ExceptT ε Script β} :
    Halts (x >>= f) s e ↔ Halts x s e ∨ ∃ a t, Yields x s a t ∧ Halts (f a) t e := by
  unfold Halts Yields
  rw [Script.exec_run_bind]
  rcases x.run.exec s with ⟨e' | a, t⟩
  · simp
  · simp only [reduceCtorEq, false_or, Prod.mk.injEq, Except.ok.injEq]
    exact ⟨fun h => ⟨a, t, ⟨rfl, rfl⟩, h⟩, fun ⟨_, _, ⟨rfl, rfl⟩, h⟩ => h⟩

@[simp] theorem staged_iff {x : ExceptT ε Script α} : Halts (Script.staged x) s e ↔ Halts x s e := by
  unfold Halts
  rw [Script.exec_staged]
  rcases x.run.exec s with ⟨_ | _, _⟩ <;> rfl

theorem adapt_iff {f : ε → δ} {x : ExceptT ε Script α} {d : δ} :
    Halts (ExceptT.adapt f x) s d ↔ ∃ e, Halts x s e ∧ f e = d := by
  have hx : ((ExceptT.adapt f x).run.exec s).1 = (x.run.exec s).1.mapError f := by
    change ((Except.mapError f <$> x.run).exec s).1 = _
    rw [map_eq_pure_bind, Script.exec_bind]
    rfl
  unfold Halts
  rw [hx]
  rcases (x.run.exec s).1 with e | a
  · change Except.error (f e) = Except.error d ↔ _
    simp
  · change Except.ok a = Except.error d ↔ _
    simp

@[simp] theorem not_insert {key value : Octets} :
    ¬Halts (liftM (Script.insert key value) : ExceptT ε Script Unit) s e := nofun

@[simp] theorem not_remove {key : Octets} : ¬Halts (liftM (Script.remove key) : ExceptT ε Script Unit) s e := nofun

/-- A ledger operation inside an action halts the action by its error. -/
theorem ledger_iff {x : LedgerScript α} {h : Halt} :
    Halts (liftM x : ActionScript α) s h ↔ ∃ e, Halts x s e ∧ Halt.ofLedger e = h := adapt_iff

/-- Storing an amount does not halt. -/
theorem not_write {key : Octets} {v : UInt64} {e : LedgerError} : ¬Halts (Cell.write key v) s e := by
  unfold Cell.write
  split
  · exact not_remove
  · exact not_insert

end Halts

/-- A reason that an action gives by a check of its own, other than that a message was imported already. -/
def Refusal.Plain : Refusal → Prop
  | .alreadyImported => False
  | .accounting _ => False
  | _ => True

def Halt.Spares (p : Halt → Prop) : Prop := ∀ reason : Refusal, reason.Plain → p (.refused reason)

/-- Carried out on `s`, the body halts only in ways that have the property, if at all. -/
def OnlyHalts (p : ε → Prop) (x : ExceptT ε Script α) (s : Store) : Prop := ∀ e, Halts x s e → p e

namespace OnlyHalts

variable {p : ε → Prop} {s : Store}

protected theorem pure {a : α} : OnlyHalts p (pure a) s := fun _ h => absurd h Halts.not_pure

protected theorem throw {e : ε} (h : p e) : OnlyHalts p (throw e : ExceptT ε Script α) s :=
  fun _ he => Halts.throw_iff.1 he ▸ h

protected theorem bind {x : ExceptT ε Script α} {f : α → ExceptT ε Script β} (hx : OnlyHalts p x s)
    (hf : ∀ a t, Yields x s a t → OnlyHalts p (f a) t) : OnlyHalts p (x >>= f) s := by
  intro e h
  obtain h | ⟨a, t, hy, h⟩ := Halts.bind_iff.1 h
  · exact hx e h
  · exact hf a t hy e h

theorem staged {x : ExceptT ε Script α} (h : OnlyHalts p x s) : OnlyHalts p (Script.staged x) s :=
  fun e he => h e (Halts.staged_iff.1 he)

/-- A body that has to succeed does not halt at all. -/
theorem of_yields {x : ExceptT ε Script α} {a : α} {s' : Store} (h : Yields x s a s') : OnlyHalts p x s := by
  intro e he
  unfold Yields at h
  unfold Halts at he
  rw [h] at he
  cases he

section Action

variable {p : Halt → Prop} {reason : Refusal}

/-- A check halts with its reason; what follows knows that the condition did not hold. -/
theorem refuseIf_bind {condition : Bool} {f : Unit → ActionScript β}
    (hreason : condition = true → p (.refused reason)) (hf : condition = false → OnlyHalts p (f ()) s) :
    OnlyHalts p (refuseIf condition reason >>= f) s := by
  cases condition with
  | true => exact OnlyHalts.bind (.throw (hreason rfl)) fun _ _ hy => absurd hy Yields.not_refuse
  | false => exact hf rfl

theorem ledger {x : LedgerScript α} (h : OnlyHalts (fun e => p (Halt.ofLedger e)) x s) :
    OnlyHalts p (liftM x : ActionScript α) s := by
  intro halt hhalt
  obtain ⟨e, he, rfl⟩ := Halts.ledger_iff.1 hhalt
  exact h e he

/-- A ledger operation that has to succeed. -/
theorem operation {x : LedgerScript α} {a : α} {s' : Store} (h : Yields x s a s') :
    OnlyHalts p (liftM x : ActionScript α) s := of_yields (Yields.ledger_iff.2 h)

theorem lookup_bind {x : LedgerRead α} {f : α → ActionScript β} (hx : OnlyHalts p (liftM x : ActionScript α) s)
    (hf : ∀ a, x.run.eval s = .ok a → OnlyHalts p (f a) s) :
    OnlyHalts p ((liftM x : ActionScript α) >>= f) s := by
  refine .bind hx fun a t hy => ?_
  obtain ⟨ha, rfl⟩ := Yields.ledger_read_iff.1 hy
  exact hf a ha

/-- A read that cannot fail does not halt. -/
theorem read_bind {x : LedgerRead α} {f : α → ActionScript β} {a : α} (hx : x.run.eval s = .ok a)
    (hf : OnlyHalts p (f a) s) : OnlyHalts p ((liftM x : ActionScript α) >>= f) s := by
  refine .lookup_bind (of_yields (Yields.ledger_read_iff.2 ⟨hx, rfl⟩)) fun b hb => ?_
  cases hx.symm.trans hb
  exact hf

theorem refuse (hp : Halt.Spares p) (hreason : reason.Plain := by trivial) :
    OnlyHalts p (refuse reason : ActionScript β) s := .throw (hp _ hreason)

theorem check_bind (hp : Halt.Spares p) {condition : Bool} {f : Unit → ActionScript β}
    (hf : condition = false → OnlyHalts p (f ()) s) (hreason : reason.Plain := by trivial) :
    OnlyHalts p (refuseIf condition reason >>= f) s := .refuseIf_bind (fun _ => hp _ hreason) hf

/-- A step that is taken on a condition. -/
theorem optional_bind {c : Prop} [Decidable c] {x : ActionScript Unit} {f : Unit → ActionScript β}
    (hx : c → OnlyHalts p x s) (hf : ∀ u, (if c then Yields x s () u else s = u) → OnlyHalts p (f ()) u) :
    OnlyHalts p (if c then x >>= f else f ()) s := by
  by_cases hc : c
  · simp only [if_pos hc] at hf ⊢
    exact .bind (hx hc) fun _ u hu => hf u hu
  · simp only [if_neg hc] at hf ⊢
    exact hf s rfl

end Action

end OnlyHalts
end BridgeLedger
