import BridgeLedger.Store.Overlay

/-! Sequences of steps on an overlay, in which a step may itself be a sequence on an overlay above it. -/
namespace BridgeLedger

inductive StagingStep where
  | get (key : Octets)
  | put (key value : Octets)
  | delete (key : Octets)
  | apply (writes : List Write)
  /-- steps on a new overlay above this one, whose writes are applied to it in the end or dropped -/
  | nest (steps : List StagingStep) (commit : Bool)

structure StagingCounts where
  reads : Nat
  allocations : Nat
  writes : Nat
deriving DecidableEq

def Overlay.counts (o : Overlay) : StagingCounts := ⟨o.readCount, o.allocateCount, o.writeCount⟩

inductive StagingAnswer where
  | value (v : Option Octets) (counts : StagingCounts)
  | done (counts : StagingCounts)
  | nested (answers : List StagingAnswer) (writes : List Write) (counts : StagingCounts)

mutual

def Overlay.runStep (o : Overlay) : StagingStep → Lookup (StagingAnswer × Overlay)
  | .get key => do
    let (v, o) ← o.get key
    return (.value v o.counts, o)
  | .put key value => do
    let o ← o.put key value
    return (.done o.counts, o)
  | .delete key => return (.done (o.delete key).counts, o.delete key)
  | .apply writes => do
    let o ← o.writeAll writes
    return (.done o.counts, o)
  | .nest steps commit => do
    let ((answers, inner), o) ← (Overlay.empty.runSteps steps).toScript.onOverlay o
    let o ← if commit then o.writeAll inner.writes else pure o
    return (.nested answers inner.writes o.counts, o)

def Overlay.runSteps (o : Overlay) : List StagingStep → Lookup (List StagingAnswer × Overlay)
  | [] => return ([], o)
  | step :: steps => do
    let (answer, o) ← o.runStep step
    let (answers, o) ← o.runSteps steps
    return (answer :: answers, o)

end
end BridgeLedger
