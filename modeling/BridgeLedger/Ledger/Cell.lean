import BridgeLedger.Amount
import BridgeLedger.Ledger.Error
import BridgeLedger.Store.Script

/-! Balances and loans. An amount is never stored as zero: a cell that reaches zero is deleted, an absent cell
counts as zero, and a stored zero is corrupt. -/
namespace BridgeLedger

abbrev LedgerRead (α : Type) := ExceptT LedgerError Lookup α

abbrev LedgerScript (α : Type) := ExceptT LedgerError Script α

def corruptRecord (key : Octets) (reason : Corruption) : LedgerError := .corrupt (.record key) reason

namespace Cell

def decode (key : Octets) : Option Octets → Except LedgerError (Option UInt64)
  | none => .ok none
  | some bytes =>
    match Amount.decode bytes with
    | .error e => .error (corruptRecord key (.wire e))
    | .ok v => if v = 0 then .error (corruptRecord key .zeroAmount) else .ok (some v)

def read? (key : Octets) : LedgerRead (Option UInt64) := do
  decode key (← Lookup.read key)

def read (key : Octets) : LedgerRead UInt64 := do
  return (← read? key).getD 0

def write (key : Octets) (amount : UInt64) : LedgerScript Unit :=
  if amount = 0 then Script.remove key else Script.insert key (Amount.encode amount)

/-- Adds to a cell. An absent cell is left alone unless it may be created. -/
def add (key : Octets) (kind : CellKind) (asset : Identifier) (amount : UInt64) (create : Bool) :
    LedgerScript Unit := do
  let old ← read? key
  if old.isSome || create then
    let current := old.getD 0
    match Amount.add? current amount with
    | some next => write key next
    | none => throw (.overflow kind asset current amount)

def sub (key : Octets) (kind : CellKind) (asset : Identifier) (amount : UInt64) : LedgerScript Unit := do
  let current ← read key
  match Amount.sub? current amount with
  | some next => write key next
  | none => throw (.underflow kind asset current amount)

end Cell

namespace Ledger

def balance (owner : Address) (asset : Identifier) : LedgerRead UInt64 :=
  Cell.read (StateKey.balance owner asset).octets

def setBalance (owner : Address) (asset : Identifier) (amount : UInt64) : LedgerScript Unit :=
  Cell.write (StateKey.balance owner asset).octets amount

def addBalance (owner : Address) (asset : Identifier) (amount : UInt64) (create : Bool) : LedgerScript Unit :=
  Cell.add (StateKey.balance owner asset).octets .balance asset amount create

def subBalance (owner : Address) (asset : Identifier) (amount : UInt64) : LedgerScript Unit :=
  Cell.sub (StateKey.balance owner asset).octets .balance asset amount

def loan (asset destination : Identifier) : LedgerRead UInt64 :=
  Cell.read (StateKey.loan asset destination).octets

def setLoan (asset destination : Identifier) (amount : UInt64) : LedgerScript Unit :=
  Cell.write (StateKey.loan asset destination).octets amount

def addLoan (asset destination : Identifier) (amount : UInt64) : LedgerScript Unit :=
  Cell.add (StateKey.loan asset destination).octets .loan asset amount true

def subLoan (asset destination : Identifier) (amount : UInt64) : LedgerScript Unit :=
  Cell.sub (StateKey.loan asset destination).octets .loan asset amount

end Ledger
end BridgeLedger
