import BridgeLedger.Execution

/-! The first distribution of the native asset. -/
namespace BridgeLedger

inductive GenesisError where
  | ledger (e : LedgerError)
  | alreadyApplied
  | symbol
  | decimals
  | supply
deriving DecidableEq

def GenesisError.message : GenesisError → String
  | .ledger e => "ledger: " ++ e.message
  | .alreadyApplied => "native asset already present"
  | .symbol => "invalid native symbol"
  | .decimals => "native decimals too large"
  | .supply => "allocations exceed max supply"

/-- A distribution of the native asset. An account may be named repeatedly, or with nothing. -/
structure Genesis where
  symbol : Octets
  decimals : UInt8
  allocations : List (Address × UInt64)
deriving DecidableEq

namespace Genesis

def sum? (amounts : List UInt64) : Option UInt64 := amounts.foldlM Amount.add? 0

def supply (g : Genesis) : Except GenesisError UInt64 :=
  match sum? (g.allocations.map Prod.snd) with
  | some total => if total ≤ Limits.maxSupply then .ok total else .error .supply
  | none => .error .supply

def record (g : Genesis) (supply : UInt64) : AssetRecord where
  symbol := g.symbol
  decimals := g.decimals
  metadata := g.symbol
  supply := supply
  maxSupply := Limits.maxSupply
  owner := .empty
  bridged := false

def credit : List (Address × UInt64) → LedgerScript Unit
  | [] => pure ()
  | (owner, amount) :: rest => do
    if amount != 0 then Ledger.addBalance owner .empty amount true
    credit rest

def ofLedger {α : Type} (x : LedgerScript α) : ExceptT GenesisError Script α := ExceptT.adapt .ledger x

/-- Writes the native asset and the balances as one batch. Yields the supply. -/
def script (g : Genesis) : ExceptT GenesisError Script UInt64 := do
  if g.symbol.isEmpty || Limits.maxSymbol < g.symbol.length then throw .symbol
  if Limits.maxDecimals < g.decimals then throw .decimals
  if (← ofLedger (Ledger.asset? .empty)).isSome then throw .alreadyApplied
  let supply ← match g.supply with
    | .ok supply => pure supply
    | .error e => throw e
  Script.staged do
    ofLedger (Ledger.setAsset .empty (g.record supply))
    ofLedger (credit g.allocations)
  return supply

def apply {σ : Type} [Keyspace σ] (g : Genesis) : EStateM GenesisError σ UInt64 := do
  match ← withError (fun fault => .ledger (.store fault)) g.script.run.run with
  | .ok supply => return supply
  | .error e => throw e

end Genesis
end BridgeLedger
