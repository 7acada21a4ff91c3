import BridgeLedger.CounterVector
import BridgeLedger.Execution

/-! Counters of executed actions. They wrap around like all 64-bit counters. -/
namespace BridgeLedger

structure Metrics where
  actions : CounterVector
  succeeded : UInt64
  failed : UInt64
  computeUnits : UInt64
  messages : UInt64

namespace Metrics

def zero : Metrics := ⟨⟨["action", "result"], []⟩, 0, 0, 0, 0⟩

def resultLabel (success : Bool) : String := if success then "success" else "failure"

def observe (m : Metrics) (action : String) (success : Bool) (units : UInt64) (emitted : Bool) : Metrics where
  actions := m.actions.increment [action, resultLabel success]
  succeeded := if success then m.succeeded + 1 else m.succeeded
  failed := if success then m.failed else m.failed + 1
  computeUnits := m.computeUnits + units
  messages := if emitted then m.messages + 1 else m.messages

def observeReceipt (m : Metrics) (action : Action) (receipt : Receipt) : Metrics :=
  m.observe action.name receipt.outcome.succeeded receipt.outcome.units receipt.outcome.message?.isSome

private def single (name help : String) (value : UInt64) : Exposition.Family := ⟨name, help, [⟨[], value⟩]⟩

def families (m : Metrics) : List Exposition.Family := [
  ⟨"warpledger_actions_total", "Executed actions", m.actions.samples⟩,
  single "warpledger_actions_succeeded_total" "Successful actions" m.succeeded,
  single "warpledger_actions_failed_total" "Failed actions" m.failed,
  single "warpledger_compute_units_total" "Compute units charged" m.computeUnits,
  single "warpledger_warp_messages_total" "Warp messages emitted" m.messages]

def familyCount (m : Metrics) : Nat := (Exposition.published m.families).length

def text (m : Metrics) : String := Exposition.text m.families

end Metrics
end BridgeLedger
