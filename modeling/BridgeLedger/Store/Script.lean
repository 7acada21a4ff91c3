import BridgeLedger.Store.Keyspace

/-! Requests to a store as trees. A script says what it asks and what it does with each answer, and nothing
of the store that answers, so one script can run on a store, above staged writes, or above several levels of
them. A lookup is a script that only reads. -/
namespace BridgeLedger

inductive Lookup (α : Type) where
  | done (value : α)
  | get (key : Octets) (next : Option Octets → Lookup α)

namespace Lookup

variable {α β γ : Type}

protected def bind : Lookup α → (α → Lookup β) → Lookup β
  | done a, f => f a
  | get key next, f => get key fun v => (next v).bind f

instance : Monad Lookup where
  pure := done
  bind := Lookup.bind

private theorem bind_done (x : Lookup α) : x.bind done = x := by
  induction x with
  | done a => rfl
  | get key next ih => exact congrArg (get key) (funext fun v => ih v)

private theorem bind_assoc (x : Lookup α) (f : α → Lookup β) (g : β → Lookup γ) :
    (x.bind f).bind g = x.bind fun a => (f a).bind g := by
  induction x with
  | done a => rfl
  | get key next ih => exact congrArg (get key) (funext fun v => ih v)

instance : LawfulMonad Lookup :=
  LawfulMonad.mk' Lookup bind_done (fun _ _ => rfl) bind_assoc

def read (key : Octets) : Lookup (Option Octets) := get key done

def run (view : Octets → Except StoreFault (Option Octets)) : Lookup α → Except StoreFault α
  | done a => .ok a
  | get key next =>
    match view key with
    | .ok v => (next v).run view
    | .error e => .error e

end Lookup

inductive Script (α : Type) where
  | done (value : α)
  | get (key : Octets) (next : Option Octets → Script α)
  | put (key value : Octets) (next : Script α)
  | delete (key : Octets) (next : Script α)
  | apply (writes : List Write) (next : Script α)

namespace Script

variable {α β γ : Type}

protected def bind : Script α → (α → Script β) → Script β
  | done a, f => f a
  | get key next, f => get key fun v => (next v).bind f
  | put key value next, f => put key value (next.bind f)
  | delete key next, f => delete key (next.bind f)
  | apply writes next, f => apply writes (next.bind f)

instance : Monad Script where
  pure := done
  bind := Script.bind

private theorem bind_done (x : Script α) : x.bind done = x := by
  induction x with
  | done a => rfl
  | get key next ih => exact congrArg (get key) (funext fun v => ih v)
  | put key value next ih => exact congrArg (put key value) ih
  | delete key next ih => exact congrArg (delete key) ih
  | apply writes next ih => exact congrArg (apply writes) ih

private theorem bind_assoc (x : Script α) (f : α → Script β) (g : β → Script γ) :
    (x.bind f).bind g = x.bind fun a => (f a).bind g := by
  induction x with
  | done a => rfl
  | get key next ih => exact congrArg (get key) (funext fun v => ih v)
  | put key value next ih => exact congrArg (put key value) ih
  | delete key next ih => exact congrArg (delete key) ih
  | apply writes next ih => exact congrArg (apply writes) ih

instance : LawfulMonad Script :=
  LawfulMonad.mk' Script bind_done (fun _ _ => rfl) bind_assoc

def insert (key value : Octets) : Script Unit := put key value (done ())

def remove (key : Octets) : Script Unit := delete key (done ())

def applyAll (writes : List Write) : Script Unit := apply writes (done ())

/-- Carries out the requests on a store, up to the first fault; what was written before it stays. -/
def run {σ : Type} [Keyspace σ] : Script α → EStateM StoreFault σ α
  | done a => pure a
  | get key next => do
    match Keyspace.get (← EStateM.get) key with
    | .ok v => (next v).run
    | .error e => throw e
  | put key value next => do Keyspace.put key value; next.run
  | delete key next => do Keyspace.delete key; next.run
  | apply writes next => do Keyspace.apply writes; next.run

end Script

def Lookup.toScript {α : Type} : Lookup α → Script α
  | done a => .done a
  | get key next => .get key fun v => (next v).toScript

instance : MonadLift Lookup Script := ⟨Lookup.toScript⟩

instance {ε : Type} : MonadLift (ExceptT ε Lookup) (ExceptT ε Script) :=
  ⟨fun x => ExceptT.mk (Lookup.toScript x.run)⟩

end BridgeLedger
