import BridgeLedger.Store.Script

/-! Staged writes above a base store. Reads see the staged writes first, and nothing reaches the base before
the staged writes are applied to it. An overlay also counts what it did: which keys it read from the base,
which keys it writes, and which of those it created. -/
namespace BridgeLedger

/-- Staged writes and what they cost. `none` is staged for a key that is deleted. -/
structure Overlay where
  staged : KeyMap (Option Octets)
  reads : KeyMap Unit
  allocated : KeyMap Unit
deriving DecidableEq

namespace Overlay

def empty : Overlay := ⟨.empty, .empty, .empty⟩

def readCount (o : Overlay) : Nat := o.reads.size

/-- How many staged writes are recorded as creating a key. -/
def allocateCount (o : Overlay) : Nat := o.allocated.size

def writeCount (o : Overlay) : Nat := o.staged.size

def writes (o : Overlay) : List Write := o.staged.entries.map fun
  | (key, some value) => .put key value
  | (key, none) => .delete key

/-- The value of a key: the staged one, else the one of the base, which is recorded as a read. -/
def get (o : Overlay) (key : Octets) : Lookup (Option Octets × Overlay) :=
  match o.staged.find? key with
  | some v => .done (v, o)
  | none => .get key fun v => .done (v, { o with reads := o.reads.insert key () })

/-- Stages a value. The first write of a key looks whether the base has it; this look is no read. -/
def put (o : Overlay) (key value : Octets) : Lookup Overlay :=
  if o.staged.contains key then .done { o with staged := o.staged.insert key (some value) }
  else .get key fun v => .done
    { o with
      staged := o.staged.insert key (some value)
      allocated := if v.isNone then o.allocated.insert key () else o.allocated }

def delete (o : Overlay) (key : Octets) : Overlay :=
  { o with staged := o.staged.insert key none, allocated := o.allocated.erase key }

def write (o : Overlay) : Write → Lookup Overlay
  | .put key value => o.put key value
  | .delete key => .done (o.delete key)

def writeAll (o : Overlay) : List Write → Lookup Overlay
  | [] => .done o
  | w :: ws => (o.write w).bind fun o' => o'.writeAll ws

end Overlay

namespace Script

variable {α ε : Type}

/-- Carries out the requests on an overlay. Only its own reads are left as requests, to its base. -/
def onOverlay : Script α → Overlay → Lookup (α × Overlay)
  | done a, o => .done (a, o)
  | get key next, o => (o.get key).bind fun r => (next r.1).onOverlay r.2
  | put key value next, o => (o.put key value).bind fun o' => next.onOverlay o'
  | delete key next, o => next.onOverlay (o.delete key)
  | apply writes next, o => (o.writeAll writes).bind fun o' => next.onOverlay o'

/-- Runs on a fresh overlay, whose writes are applied as one batch if the body succeeds and dropped if not. -/
def staged (body : ExceptT ε Script α) : ExceptT ε Script α := ExceptT.mk do
  match ← (body.run.onOverlay Overlay.empty).toScript with
  | (.ok a, o) =>
    applyAll o.writes
    return .ok a
  | (.error e, _) => return .error e

end Script
end BridgeLedger
